/-
Settings that are given as texts, and shown as texts.

`Canonical` says under which text a given value is shown: a granularity under its name,
colours in one line without blanks around them, a date in the exchange form.  A canonical
text is its own canonical text (`Canonical.self`), so giving it again changes nothing.  A
value with a canonical text is taken (`exists_set`), and only such a value is
(`exists_canonical_of_set`).

What was written is read as the same settings (`read_text`), as long as there is a colour
to be seen among them.
-/
import Mathlib.Data.List.Nodup
import PressCalendar.Proofs.Date.Written
import PressCalendar.Proofs.Moment.Written
import PressCalendar.Proofs.Outcome
import PressCalendar.Proofs.Text.Separated
import PressCalendar.Proofs.Toml.Written
import PressCalendar.Settings

namespace PressCalendar

/-! ## Values and their texts -/

/-- What has a name of its own is found by it. -/
theorem find?_eq_some_of_nodup {α β : Type} {name : α → β} {p : α → Bool} {xs : List α} {x : α}
    (hdistinct : (xs.map name).Nodup) (hx : x ∈ xs) (hp : ∀ y, p y = true ↔ name y = name x) :
    xs.find? p = some x := by
  cases hfind : xs.find? p with
  | none => exact absurd ((hp x).2 rfl) (List.find?_eq_none.1 hfind x hx)
  | some y =>
    have hname := (hp y).1 (List.find?_some hfind)
    rw [List.inj_on_of_nodup_map hdistinct (List.mem_of_find?_eq_some hfind) hx hname]

theorem Granularity.find?_name (g : Granularity) {p : Granularity → Bool}
    (hp : ∀ g', p g' = true ↔ g'.name = g.name) : all.find? p = some g :=
  find?_eq_some_of_nodup (by decide) (by cases g <;> decide) hp

theorem Granularity.ofText?_eq_some_iff {value : String} {g : Granularity} :
    ofText? value = some g ↔ g.name.toList = normalise value := by
  constructor
  · intro h
    have hname : (g.name.toList == normalise value) = true :=
      List.find?_some (p := fun g : Granularity => g.name.toList == normalise value) h
    exact beq_iff_eq.1 hname
  · intro h
    apply find?_name g
    intro g'
    rw [← h, beq_iff_eq, String.toList_inj]

theorem Granularity.normalise_name (g : Granularity) : normalise g.name = g.name.toList := by
  cases g <;> decide

theorem Date.ofIso?_iso (d : Date) : ofIso? d.iso = some d := by
  rw [ofIso?, iso, String.toList_ofList, ofIsoText?_isoText]

theorem Preferences.coloursOf_join (value : String) :
    coloursOf (Text.join ";" (coloursOf value)) = coloursOf value :=
  Text.items_join rfl fun _ h => Text.IsItem.of_mem h

/-- Colours that were given in one line hold one to be seen, if there are any. -/
theorem Preferences.checkColours_coloursOf (value : String) :
    checkColours (coloursOf value) = .ok () ↔ coloursOf value ≠ [] := by
  have hnone : ((coloursOf value).all fun colour => (Text.trim colour.toList).isEmpty) = true ↔
      coloursOf value = [] := by
    rw [List.all_eq_true, List.eq_nil_iff_forall_not_mem]
    refine forall₂_congr fun colour hmem => ?_
    have hitem := Text.IsItem.of_mem hmem
    simp [hitem.trimmed, hitem.ne_nil]
  unfold checkColours
  split
  · case isTrue h => simp [hnone.1 h]
  · case isFalse h => simp [mt hnone.2 h]

namespace Settings

variable {s changed : Settings} {key other : Key} {name value text : String}

/-! ## Canonical texts -/

/-- The pieces of a line between semicolons that hold anything but blanks. -/
def filled (line : String) : List (List Char) :=
  (line.toList.splitOn ';').filter fun piece => !piece.all Text.isBlank

/-- The text under which a value is shown that was given for a setting.  A value without
one is no value of the setting. -/
inductive Canonical : Key → String → String → Prop
  | granularity {value : String} {g : Granularity}
    (h : g.name.toList = Granularity.normalise value) : Canonical .granularity value g.name
  | colours {value : String} (h : filled value ≠ []) :
    Canonical .colours value
      (";".intercalate ((filled value).map fun piece => String.ofList (Text.trim piece)))
  | earliest {value : String} {d : Date} (h : Date.ofIso? value = some d) :
    Canonical .earliest value d.iso

theorem coloursOf_eq (value : String) : Preferences.coloursOf value =
    (filled value).map fun piece => String.ofList (Text.trim piece) :=
  Text.items_eq ';' value

theorem coloursOf_eq_nil_iff : Preferences.coloursOf value = [] ↔ filled value = [] := by
  rw [coloursOf_eq, List.map_eq_nil_iff]

theorem filled_eq_nil_iff :
    filled value = [] ↔ ∀ piece ∈ value.toList.splitOn ';', ∀ c ∈ piece, Text.isBlank c = true := by
  simp [filled]

/-- A value has one canonical text at most. -/
theorem Canonical.unique {text' : String} (h : Canonical key value text)
    (h' : Canonical key value text') : text = text' := by
  cases h with
  | granularity h =>
    cases h' with
    | granularity h' => exact String.toList_injective (h.trans h'.symm)
  | colours h => cases h' with | colours => rfl
  | earliest h =>
    cases h' with
    | earliest h' =>
      cases h.symm.trans h'
      rfl

/-- A canonical text is shown as it is. -/
theorem Canonical.self (h : Canonical key value text) : Canonical key text text := by
  cases h with
  | @granularity _ g _ => exact .granularity (Granularity.normalise_name g).symm
  | colours h =>
    have hcolours := Preferences.coloursOf_join value
    have hfilled : filled (Text.join ";" (Preferences.coloursOf value)) ≠ [] := by
      rwa [ne_eq, ← coloursOf_eq_nil_iff, hcolours, coloursOf_eq_nil_iff]
    have hagain := Canonical.colours hfilled
    rw [← coloursOf_eq, hcolours] at hagain
    rw [← coloursOf_eq]
    exact hagain
  | @earliest _ d _ => exact .earliest (Date.ofIso?_iso d)

/-! ## Changing one entry -/

theorem Key.ofName?_eq_some_iff : Key.ofName? name = some key ↔ name = key.name := by
  constructor
  · intro h
    exact (beq_iff_eq.1 (List.find?_some (p := fun key : Key => key.name == name) h)).symm
  · rintro rfl
    exact find?_eq_some_of_nodup (by decide) (by cases key <;> decide) fun _ => beq_iff_eq

/-- What a changed setting is shown as, and that everything else is shown as before. -/
structure Changes (s : Settings) (key : Key) (text : String) (changed : Settings) : Prop where
  display : changed.display key = text
  frame : ∀ other, other ≠ key → changed.display other = s.display other
  valid : Preferences.checkColours s.colours = .ok () →
    Preferences.checkColours changed.colours = .ok ()

theorem exists_set (s : Settings) (h : Canonical key value text) :
    ∃ changed, s.set key.name value = .ok changed ∧ Changes s key text changed := by
  cases h with
  | @granularity _ g h =>
    refine ⟨{ s with granularity := g }, ?_, rfl, ?_, id⟩
    · rw [set, Key.ofName?_eq_some_iff.2 rfl]
      simp only [Granularity.ofText?_eq_some_iff.2 h]
    · intro other hother
      cases other with
      | granularity => exact absurd rfl hother
      | _ => rfl
  | colours h =>
    have hcheck := (Preferences.checkColours_coloursOf value).2 (mt coloursOf_eq_nil_iff.1 h)
    refine ⟨{ s with colours := Preferences.coloursOf value }, ?_, ?_, ?_, fun _ => hcheck⟩
    · rw [set, Key.ofName?_eq_some_iff.2 rfl]
      simp only [hcheck]
      rfl
    · rw [← coloursOf_eq]
      rfl
    · intro other hother
      cases other with
      | colours => exact absurd rfl hother
      | _ => rfl
  | @earliest _ d h =>
    refine ⟨{ s with earliest := d }, ?_, rfl, ?_, id⟩
    · rw [set, Key.ofName?_eq_some_iff.2 rfl]
      simp only [h]
    · intro other hother
      cases other with
      | earliest => exact absurd rfl hother
      | _ => rfl

/-- Only a value with a canonical text changes anything. -/
theorem exists_canonical_of_set (h : s.set name value = .ok changed) :
    ∃ key text, name = key.name ∧ Canonical key value text := by
  unfold set at h
  split at h
  · case h_1 hname =>
    split at h
    · case h_1 g hg =>
      exact ⟨_, _, Key.ofName?_eq_some_iff.1 hname,
        .granularity (Granularity.ofText?_eq_some_iff.1 hg)⟩
    · cases h
  · case h_2 hname =>
    obtain ⟨_, hcheck, -⟩ := bind_eq_ok.1 h
    have hfilled := (Preferences.checkColours_coloursOf value).1 hcheck
    exact ⟨_, _, Key.ofName?_eq_some_iff.1 hname, .colours (mt coloursOf_eq_nil_iff.2 hfilled)⟩
  · case h_3 hname =>
    split at h
    · case h_1 d hd => exact ⟨_, _, Key.ofName?_eq_some_iff.1 hname, .earliest hd⟩
    · cases h
  · cases h
  · cases h

theorem exists_changes_of_set (h : s.set name value = .ok changed) :
    ∃ key text, name = key.name ∧ Canonical key value text ∧ Changes s key text changed := by
  obtain ⟨key, text, rfl, hcanonical⟩ := exists_canonical_of_set h
  obtain ⟨changed', h', hchanges⟩ := exists_set s hcanonical
  cases h.symm.trans h'
  exact ⟨key, text, rfl, hcanonical, hchanges⟩

theorem exists_set_colours_iff :
    (∃ changed, s.set Key.colours.name value = .ok changed) ↔ filled value ≠ [] := by
  constructor
  · rintro ⟨changed, h⟩
    obtain ⟨key, text, hname, hcanonical⟩ := exists_canonical_of_set h
    cases hcanonical with
    | colours h => exact h
    | _ => exact absurd hname (by decide)
  · intro h
    obtain ⟨changed, hset, -⟩ := exists_set s (.colours h)
    exact ⟨changed, hset⟩

theorem Changes.get_self (h : Changes s key text changed) : changed.get key.name = .ok text := by
  rw [get, Key.ofName?_eq_some_iff.2 rfl]
  exact congrArg _ h.display

theorem Changes.get_of_ne (h : Changes s key text changed) (hname : name ≠ key.name) :
    changed.get name = s.get name := by
  unfold get
  split
  · case h_1 other hother =>
    have hne : other ≠ key := fun heq => hname (heq ▸ Key.ofName?_eq_some_iff.1 hother)
    exact congrArg _ (h.frame other hne)
  · rfl

/-! ## As a text -/

theorem granularityOf?_name (g : Granularity) : granularityOf? (.text g.name) = some g :=
  Granularity.find?_name g fun _ => beq_iff_eq

theorem texts?_toValue (items : List String) :
    (Toml.Content.texts items).toValue.texts? = some items := by
  show (items.map Toml.Value.text).mapM Toml.Value.text? = some items
  rw [List.mapM_map]
  induction items with
  | nil => rfl
  | cons item items ih =>
    rw [List.mapM_cons, ih]
    rfl

/-- The values that stand in the text of settings. -/
def values (s : Settings) : Toml.Entries := s.entries.map fun e => (e.1, e.2.toValue)

theorem lookup_values (s : Settings) (key : Key) :
    s.values.lookup key.name = some (s.content key).toValue := by
  cases key <;> rfl

theorem field?_values {α : Type} (key : Key) {read? : Toml.Value → Option α} {a : α}
    (h : read? (s.content key).toValue = some a) (other : α) :
    field? s.values key read? other = some a := by
  rw [field?, lookup_values]
  exact h

theorem ofEntries?_values (s : Settings) : ofEntries? s.values = some s := by
  have hearliest : ∀ other, field? s.values .earliest (fun v => v.text?.bind Date.ofIso?) other =
      some s.earliest := field?_values .earliest (Date.ofIso?_iso s.earliest)
  have hcreated : (s.content .created).toValue.text? = some s.created.stored := rfl
  simp only [ofEntries?, field?_values .colours (texts?_toValue s.colours), hearliest,
    field?_values .granularity (granularityOf?_name s.granularity), lookup_values,
    Option.bind_eq_bind, Option.bind_some, hcreated, Moment.ofText?_stored]
  rfl

/-- Settings are read from what was written of them, if they may be read at all. -/
theorem read_text (h : Preferences.checkColours s.colours = .ok ()) : read s.text = .ok s := by
  have hvalues : Toml.read? s.text = some s.values := by
    apply Toml.read?_write
    · simp only [entries, List.forall_mem_map]
      decide
    · have hnames : s.entries.map Prod.fst = Key.written.map Key.name := rfl
      rw [hnames]
      decide
  rw [read, hvalues, Option.bind_some, ofEntries?_values]
  simp only [h]
  rfl

end Settings
end PressCalendar
