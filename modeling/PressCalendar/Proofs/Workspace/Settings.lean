/-
Settings of a workspace that are changed one at a time.

A change reads the settings, and stores them anew only if the value means something to its
setting.  Where settings were read they can be written, so nothing else decides how a change
ends: `changeSetting_stores` says what it shows afterwards, and that a change that fails
shows nothing new.
-/
import PressCalendar.Proofs.Settings.Canonical
import PressCalendar.Proofs.Workspace.Failure

namespace PressCalendar
namespace Workspace

open Settings (Canonical Key)

variable {w : Workspace} {settings changed : Settings} {t after : FileTree} {name value : String}
  {cause : Error}

/-! ## Showing -/

/-- What a setting is shown as, or why it is not. -/
def shown (w : Workspace) (t : FileTree) (name : String) : Except Error String :=
  ((do
    let settings ← w.loadSettings
    step (settings.get name) : Filing String).run t).1

/-- It is what the command for it prints. -/
theorem run_showSetting {s : Session}
    (hw : (discover s.chosen : Filing Workspace).run t = (.ok w, t)) (name : String) :
    ((Command.showSetting name).run s : Filing String).run t =
      ((w.shown t name).map fun value => s!"{value}\n", t) := by
  obtain ⟨answer, hload⟩ := (asks_loadSettings w).exists_run t
  refine (run_bind_ok hw).trans ?_
  unfold shown
  cases answer with
  | error cause =>
    rw [run_bind_error hload, run_bind_error hload]
    rfl
  | ok settings =>
    rw [run_bind_ok hload, run_bind_ok hload, run_step]
    cases hget : settings.get name with
    | error cause => exact run_bind_error (run_step _ t)
    | ok value => exact run_bind_ok (run_step _ t)

theorem shown_eq (h : (w.loadSettings : Filing Settings).run t = (.ok settings, t))
    (name : String) : w.shown t name = settings.get name := by
  rw [shown, run_bind_ok h]
  rfl

/-! ## Storing -/

/-- Where settings were read, settings can be stored, and are read the next time. -/
theorem exists_saved (h : (w.loadSettings : Filing Settings).run t = (.ok settings, t))
    (hcolours : Preferences.checkColours changed.colours = .ok ()) :
    ∃ after, (w.saveSettings changed : Filing Unit).run t = (.ok (), after) ∧
      (w.loadSettings : Filing Settings).run after = (.ok changed, after) := by
  obtain ⟨text, hread, -⟩ := exists_read_settings h
  obtain ⟨hpath, p, hplace, hget⟩ := FileTree.read_eq_ok.1 hread
  have hold : t.get? p ≠ some .directory := by
    rw [hget]
    simp
  have hwritable : t.writable w.settingsPath = .ok p :=
    FileTree.writable_eq_ok.2 ⟨hpath, hplace, hold⟩
  have hkeeps := FileTree.keepsDirectories_put hold (Entry.noConfusion : .text changed.text ≠ _)
  refine ⟨t.put p (.text changed.text), ?_, ?_⟩
  · unfold saveSettings
    rw [run_bind_ok (run_isPresent (marker w.root) t), isPresent_marker h]
    exact run_changing (FileTree.write_of_writable hwritable changed.text)
  · have hstored : (t.put p (.text changed.text)).read w.settingsPath = .ok changed.text := by
      refine FileTree.read_eq_ok.2 ⟨hpath, p, hkeeps.place hplace, ?_⟩
      rw [FileTree.get?_put t (FileTree.ne_nil_of_get?_ne hold), if_pos rfl]
    rw [run_loadSettings, hstored]
    exact congrArg (·, _) (Settings.read_text hcolours)

theorem checkColours_of_load
    (h : (w.loadSettings : Filing Settings).run t = (.ok settings, t)) :
    Preferences.checkColours settings.colours = .ok () := by
  obtain ⟨text, -, hread⟩ := exists_read_settings h
  unfold Settings.read at hread
  split at hread
  · cases hread
  · obtain ⟨_, hcheck, hread⟩ := bind_eq_ok.1 hread
    cases hread
    exact hcheck

/-! ## Changing -/

theorem changeSetting_of_error (h : (w.loadSettings : Filing Settings).run t = (.ok settings, t))
    (hset : settings.set name value = .error cause) :
    (w.changeSetting name value : Filing Unit).run t = (.error cause, t) := by
  unfold changeSetting
  rw [run_bind_ok h, hset]
  rfl

theorem exists_changeSetting (h : (w.loadSettings : Filing Settings).run t = (.ok settings, t))
    (hset : settings.set name value = .ok changed) :
    ∃ after, (w.changeSetting name value : Filing Unit).run t = (.ok (), after) ∧
      (w.loadSettings : Filing Settings).run after = (.ok changed, after) := by
  obtain ⟨_, _, -, -, hchanges⟩ := Settings.exists_changes_of_set hset
  obtain ⟨after, hsave, hload⟩ := exists_saved h (hchanges.valid (checkColours_of_load h))
  refine ⟨after, ?_, hload⟩
  unfold changeSetting
  rw [run_bind_ok h, hset]
  exact hsave

/-- A change ends as it does in the settings that were read. -/
theorem exists_load_of_changeSetting
    (h : (w.loadSettings : Filing Settings).run t = (.ok settings, t))
    (hrun : (w.changeSetting name value : Filing Unit).run t = (.ok (), after)) :
    ∃ changed, settings.set name value = .ok changed ∧
      (w.loadSettings : Filing Settings).run after = (.ok changed, after) := by
  cases hset : settings.set name value with
  | error cause =>
    rw [changeSetting_of_error h hset] at hrun
    cases hrun
  | ok changed =>
    obtain ⟨after', hrun', hload⟩ := exists_changeSetting h hset
    cases hrun.symm.trans hrun'
    exact ⟨changed, rfl, hload⟩

/-- What a change of a setting leaves to be shown. -/
structure Stores (w : Workspace) (t : FileTree) (name value : String) (after : FileTree) :
    Prop where
  loads : ∃ changed, (w.loadSettings : Filing Settings).run after = (.ok changed, after)
  exact : ∃ key text, name = Key.name key ∧ (∀ other, Canonical key value other ↔ other = text) ∧
    w.shown after name = .ok text
  frame : ∀ other, other ≠ name → w.shown after other = w.shown t other
  /-- What is shown can be given again, and nothing comes of it. -/
  stable : ∀ text, w.shown after name = .ok text →
    ∃ again, (w.changeSetting name text : Filing Unit).run after = (.ok (), again) ∧
      ∀ other, w.shown again other = w.shown after other

theorem stores_of_changeSetting
    (h : (w.loadSettings : Filing Settings).run t = (.ok settings, t))
    (hrun : (w.changeSetting name value : Filing Unit).run t = (.ok (), after)) :
    w.Stores t name value after := by
  obtain ⟨changed, hset, hload⟩ := exists_load_of_changeSetting h hrun
  obtain ⟨key, text, rfl, hcanonical, hchanges⟩ := Settings.exists_changes_of_set hset
  have hshown : w.shown after key.name = .ok text := by
    rw [shown_eq hload, hchanges.get_self]
  have hone : ∀ other, Canonical key value other ↔ other = text :=
    fun other => ⟨fun hother => hother.unique hcanonical, fun heq => heq ▸ hcanonical⟩
  refine ⟨⟨changed, hload⟩, ⟨key, text, rfl, hone, hshown⟩, ?_, ?_⟩
  · intro other hother
    rw [shown_eq hload, shown_eq h, hchanges.get_of_ne hother]
  · intro text' htext'
    cases hshown.symm.trans htext'
    -- the text is canonical, so the second change ends well and shows the same
    obtain ⟨changed', hset', hchanges'⟩ := Settings.exists_set changed hcanonical.self
    obtain ⟨again, hrun', hload'⟩ := exists_changeSetting hload hset'
    refine ⟨again, hrun', ?_⟩
    intro other
    rw [shown_eq hload']
    by_cases hother : other = key.name
    · rw [hother, hchanges'.get_self, hshown]
    · rw [hchanges'.get_of_ne hother, shown_eq hload]

theorem changeSetting_colours_fails_iff
    (h : (w.loadSettings : Filing Settings).run t = (.ok settings, t)) :
    (∃ cause after, (w.changeSetting Key.colours.name value : Filing Unit).run t =
      (.error cause, after)) ↔
    ∀ piece ∈ value.toList.splitOn ';', ∀ c ∈ piece, Text.isBlank c = true := by
  rw [← Settings.filled_eq_nil_iff, ← not_iff_not, ← ne_eq,
    ← Settings.exists_set_colours_iff (s := settings)]
  constructor
  · intro hnever
    cases hset : settings.set Key.colours.name value with
    | error cause => exact absurd ⟨cause, t, changeSetting_of_error h hset⟩ hnever
    | ok changed => exact ⟨changed, rfl⟩
  · rintro ⟨changed, hset⟩ ⟨cause, after, hrun⟩
    obtain ⟨_, hrun', -⟩ := exists_changeSetting h hset
    cases hrun.symm.trans hrun'

/-- A change of a setting is exact, leaves the other settings alone, and is stable; one that
fails leaves everything as it was.  Colours are refused just where there is none. -/
theorem changeSetting_stores (h : (w.loadSettings : Filing Settings).run t = (.ok settings, t))
    (name value : String) :
    (∀ after, (w.changeSetting name value : Filing Unit).run t = (.ok (), after) →
      w.Stores t name value after) ∧
    (∀ cause after, (w.changeSetting name value : Filing Unit).run t = (.error cause, after) →
      ∀ other, w.shown after other = w.shown t other) ∧
    ((∃ cause after, (w.changeSetting "issue_colours" value : Filing Unit).run t =
        (.error cause, after)) ↔
      ∀ piece ∈ value.toList.splitOn ';', ∀ c ∈ piece, Text.isBlank c = true) := by
  refine ⟨fun after => stores_of_changeSetting h, ?_, changeSetting_colours_fails_iff h⟩
  intro cause after hrun other
  rw [spares_changeSetting w name value t cause after hrun]

/-- Colours with blanks around them, and nothing between two semicolons. -/
def loosely : String := " red ;; dark blue"

/-- `begun`, after its colours were given `loosely`. -/
def coloured : FileTree :=
  ((press.changeSetting "issue_colours" loosely : Filing Unit).run begun).2

theorem changeSetting_stores_coloured :
    (press.loadSettings : Filing Settings).run begun =
      (.ok (.standard ⟨⟨2024, 6, 1, by decide⟩, ⟨720, by decide⟩, ⟨0, by decide⟩, ⟨0, by decide⟩⟩),
        begun) ∧
      press.Stores begun "issue_colours" loosely coloured ∧
      press.shown coloured "issue_colours" = .ok "red;dark blue" ∧
      ∃ cause after, (press.changeSetting "issue_colours" " ;\t;" : Filing Unit).run begun =
        (.error cause, after) := by
  have hload : (press.loadSettings : Filing Settings).run begun =
      (.ok (.standard ⟨⟨2024, 6, 1, by decide⟩, ⟨720, by decide⟩, ⟨0, by decide⟩, ⟨0, by decide⟩⟩),
        begun) := Prod.ext (by decide +kernel) rfl
  have hrun : ((press.changeSetting "issue_colours" loosely : Filing Unit).run begun).1 =
      .ok () := by
    decide +kernel
  have hblank : ∀ piece ∈ " ;\t;".toList.splitOn ';', ∀ c ∈ piece, Text.isBlank c = true :=
    Settings.filled_eq_nil_iff.1 (by decide)
  obtain ⟨hstores, -, -⟩ := changeSetting_stores hload "issue_colours" loosely
  obtain ⟨-, -, hfails⟩ := changeSetting_stores hload "issue_colours" " ;\t;"
  exact ⟨hload, hstores coloured (Prod.ext hrun rfl), by decide +kernel, hfails.2 hblank⟩

end Workspace
end PressCalendar
