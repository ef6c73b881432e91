/-
Trees whose directories stay where they are.

A path is followed through directories only.  As long as these stay, a path that led to
a place leads there still, whatever files come and go, and `KeepsDirectories` says that
they do.  Two paths whose last names differ never lead to the same place.
-/
import PressCalendar.Proofs.Outcome
import PressCalendar.Proofs.Text.Separated
import PressCalendar.Storage.Tree

namespace PressCalendar

/-! ## Paths that end in a name -/

namespace Path

variable {directory name other : String}

/-- A word by which something stands in a directory. -/
structure IsName (name : String) : Prop where
  ne_empty : name ≠ ""
  no_slash : '/' ∉ name.toList
  ne_dot : name ≠ "."
  ne_dots : name ≠ ".."

/-- What the paths into a directory begin with. -/
def stem (directory : String) : String :=
  if directory.isEmpty then ""
  else if wantsDirectory directory then directory
  else directory ++ "/"

theorem steps_slash (front back : String) :
    steps (front ++ "/" ++ back) = steps front ++ steps back := by
  have hlist : (front ++ "/" ++ back).toList = front.toList ++ '/' :: back.toList := by
    rw [String.toList_append, String.toList_append, List.append_assoc]
    rfl
  rw [steps, hlist, Text.pieces_append, List.filter_append, List.map_append]
  rfl

theorem IsName.steps_eq (h : IsName name) : steps name = [name] := by
  have hnonempty : name.toList.isEmpty = false := by
    rw [List.isEmpty_eq_false_iff]
    exact fun hnil => h.ne_empty (String.toList_eq_nil_iff.1 hnil)
  rw [steps, Text.pieces_of_not_mem h.no_slash]
  simp [hnonempty]

theorem IsName.isAbsolute_eq (h : IsName name) : isAbsolute name = false := by
  rw [isAbsolute, decide_eq_false_iff_not]
  exact fun hhead => h.no_slash (List.mem_of_head? hhead)

theorem join_eq (h : IsName name) : join directory name = stem directory ++ name := by
  unfold join stem
  rw [h.isAbsolute_eq, Bool.false_or]
  split
  · rw [String.empty_append]
  · split <;> rfl

/-- The stem of a directory ends in a slash, unless it stands for the current one. -/
theorem exists_stem (h : directory ≠ "") :
    ∃ front, stem directory = front ++ "/" ∧ steps front = steps directory := by
  have hempty : directory.isEmpty = false := by simpa using h
  unfold stem
  rw [hempty, if_neg Bool.false_ne_true]
  by_cases hslashed : wantsDirectory directory = true
  · obtain ⟨front, hfront⟩ := List.getLast?_eq_some_iff.1 (of_decide_eq_true hslashed)
    have hdirectory : directory = String.ofList front ++ "/" := by
      apply String.toList_injective
      rw [hfront, String.toList_append, String.toList_ofList]
      rfl
    refine ⟨String.ofList front, by rw [if_pos hslashed, ← hdirectory], ?_⟩
    have hsteps := steps_slash (String.ofList front) ""
    rw [String.append_empty, ← hdirectory] at hsteps
    rw [hsteps]
    exact (List.append_nil _).symm
  · exact ⟨directory, by rw [if_neg hslashed], rfl⟩

theorem steps_join (h : IsName name) : steps (join directory name) = steps directory ++ [name] := by
  rw [join_eq h]
  by_cases hempty : directory = ""
  · subst hempty
    exact h.steps_eq
  · obtain ⟨front, hstem, hsteps⟩ := exists_stem hempty
    rw [hstem, steps_slash, hsteps, h.steps_eq]

theorem isAbsolute_join (h : IsName name) :
    isAbsolute (join directory name) = isAbsolute directory := by
  rw [join_eq h]
  by_cases hempty : directory = ""
  · subst hempty
    exact h.isAbsolute_eq
  · have hlist : directory.toList ≠ [] := mt String.toList_eq_nil_iff.1 hempty
    obtain ⟨c, cs, hcs⟩ := List.exists_cons_of_ne_nil hlist
    have hhead : (stem directory ++ name).toList.head? = directory.toList.head? := by
      unfold stem
      rw [if_neg (by simpa using hempty), String.toList_append]
      split
      · rw [hcs]
        rfl
      · rw [String.toList_append, hcs]
        rfl
    rw [isAbsolute, hhead, isAbsolute]

theorem wantsDirectory_join (h : IsName name) : wantsDirectory (join directory name) = false := by
  have hname : name.toList ≠ [] := mt String.toList_eq_nil_iff.1 h.ne_empty
  have hlast := List.getLast?_eq_some_getLast hname
  rw [wantsDirectory, decide_eq_false_iff_not, join_eq h, String.toList_append,
    List.getLast?_append, hlast, Option.some_or]
  intro hslash
  rw [hslash] at hlast
  exact h.no_slash (List.mem_of_getLast? hlast)

theorem join_ne_empty (h : IsName name) : join directory name ≠ "" := by
  rw [join_eq h]
  intro hempty
  have hnil := congrArg String.toList hempty
  rw [String.toList_append] at hnil
  exact h.ne_empty (String.toList_eq_nil_iff.1 (List.append_eq_nil_iff.1 hnil).2)

/-- The path of a shorter name is shorter. -/
theorem isTooLong_join (h : IsName name) (hother : IsName other)
    (hle : other.utf8ByteSize ≤ name.utf8ByteSize)
    (hlong : isTooLong (join directory name) = false) :
    isTooLong (join directory other) = false := by
  rw [isTooLong, decide_eq_false_iff_not, join_eq h, String.utf8ByteSize_append] at hlong
  rw [isTooLong, decide_eq_false_iff_not, join_eq hother, String.utf8ByteSize_append]
  omega

theorem isTooLong_of_join (h : IsName name) (hlong : isTooLong (join directory name) = false) :
    isTooLong directory = false := by
  have hle : directory.utf8ByteSize ≤ (stem directory).utf8ByteSize := by
    unfold stem
    split
    · case isTrue hempty => exact Nat.le_of_eq (congrArg _ (String.isEmpty_iff.1 hempty))
    · split
      · exact Nat.le_refl _
      · rw [String.utf8ByteSize_append]
        exact Nat.le_add_right _ _
  rw [isTooLong, decide_eq_false_iff_not, join_eq h, String.utf8ByteSize_append] at hlong
  rw [isTooLong, decide_eq_false_iff_not]
  omega

end Path

/-! ## Places -/

namespace FileTree

variable {t t' t'' : FileTree} {path directory name : String} {p q : List String}

theorem ne_nil_of_get?_ne (h : t.get? p ≠ some .directory) : p ≠ [] := by
  rintro rfl
  exact h rfl

theorem walk_cons_eq_ok {place names : List String} :
    t.walk place (name :: names) = .ok p ↔ t.get? place = some .directory ∧
      Path.isNameTooLong name = false ∧ t.walk (step place name) names = .ok p := by
  rw [walk]
  split
  · case h_1 hplace =>
    cases hlong : Path.isNameTooLong name with
    | true => simp
    | false => simp [hplace]
  · case h_2 entry hfile hplace =>
    simp only [reduceCtorEq, false_iff, not_and]
    intro hdirectory
    rw [hplace] at hdirectory
    exact absurd (Option.some.inj hdirectory) hfile
  · case h_3 hplace => simp [hplace]

theorem walk_append (place names more : List String) :
    t.walk place (names ++ more) = t.walk place names >>= fun q => t.walk q more := by
  induction names generalizing place with
  | nil => rfl
  | cons name names ih =>
    rw [List.cons_append, walk, walk]
    split
    · split
      · rfl
      · exact ih _
    · rfl
    · rfl

/-- A directory at a place, into which a path may go on. -/
structure Houses (t : FileTree) (directory : String) (q : List String) : Prop where
  walk : t.walk (if Path.isAbsolute directory then [] else t.directory) (Path.steps directory) =
    .ok q
  isDirectory : t.get? q = some .directory

theorem place_eq_ok : t.place path = .ok p ↔ path ≠ "" ∧ Path.isTooLong path = false ∧
    t.walk (if Path.isAbsolute path then [] else t.directory) (Path.steps path) = .ok p := by
  unfold place follow
  by_cases hempty : path = ""
  · simp [hempty]
  · rw [if_neg (by simpa using hempty)]
    cases Path.isTooLong path with
    | true => simp
    | false => simp [hempty]

theorem walk_join (h : Path.IsName name) :
    t.walk (if Path.isAbsolute (Path.join directory name) then [] else t.directory)
        (Path.steps (Path.join directory name)) = .ok p ↔
      Path.isNameTooLong name = false ∧ ∃ q, t.Houses directory q ∧ p = q ++ [name] := by
  rw [Path.isAbsolute_join h, Path.steps_join h, walk_append, bind_eq_ok]
  constructor
  · intro ⟨q, hwalk, hname⟩
    obtain ⟨hdirectory, hlong, hstep⟩ := walk_cons_eq_ok.1 hname
    rw [step, if_neg h.ne_dot, if_neg h.ne_dots] at hstep
    cases hstep
    exact ⟨hlong, q, ⟨hwalk, hdirectory⟩, rfl⟩
  · intro ⟨hlong, q, hhouses, hp⟩
    refine ⟨q, hhouses.walk, walk_cons_eq_ok.2 ⟨hhouses.isDirectory, hlong, ?_⟩⟩
    rw [step, if_neg h.ne_dot, if_neg h.ne_dots, hp]
    rfl

/-- The path of a name leads into its directory. -/
theorem place_join_eq_ok (h : Path.IsName name) :
    t.place (Path.join directory name) = .ok p ↔
      Path.isTooLong (Path.join directory name) = false ∧ Path.isNameTooLong name = false ∧
        ∃ q, t.Houses directory q ∧ p = q ++ [name] := by
  rw [place_eq_ok, walk_join h]
  simp [Path.join_ne_empty h]

/-- Different names never lead to the same place. -/
theorem place_join_ne {directory' name' : String} (h : Path.IsName name) (h' : Path.IsName name')
    (hne : name ≠ name') (hp : t.place (Path.join directory name) = .ok p)
    (hq : t.place (Path.join directory' name') = .ok q) : p ≠ q := by
  obtain ⟨-, -, above, -, rfl⟩ := (place_join_eq_ok h).1 hp
  obtain ⟨-, -, above', -, rfl⟩ := (place_join_eq_ok h').1 hq
  intro heq
  exact hne (List.cons_eq_cons.1 (List.append_inj_right' heq rfl)).1

theorem find_eq_ok {entry : Entry} (hentry : entry ≠ .directory) :
    t.find path = .ok entry ↔ Path.wantsDirectory path = false ∧
      ∃ p, t.place path = .ok p ∧ t.get? p = some entry := by
  unfold find
  rw [bind_eq_ok]
  constructor
  · rintro ⟨p, hplace, h⟩
    split at h
    · exact absurd h (by simp)
    · cases h
      exact absurd rfl hentry
    · case h_3 found hfound hget =>
      split at h
      · exact absurd h (by simp)
      · case isFalse hpath =>
        cases h
        exact ⟨Bool.eq_false_iff.2 hpath, p, hplace, hget⟩
  · rintro ⟨hpath, p, hplace, hget⟩
    refine ⟨p, hplace, ?_⟩
    rw [hget]
    cases entry with
    | directory => exact absurd rfl hentry
    | text content => simp [hpath]
    | binary bytes => simp [hpath]

theorem find_eq_notFound (hplace : t.place path = .ok p) (hget : t.get? p = none) :
    t.find path = .error .notFound := by
  simp only [find, hplace, hget, bind, Except.bind]

theorem find_of_directory (hplace : t.place path = .ok p) (hget : t.get? p = some .directory) :
    t.find path = .ok .directory := by
  simp only [find, hplace, hget, bind, Except.bind]

/-- A path that goes on leads through a directory. -/
theorem find_of_place_join (h : Path.IsName name) (hdirectory : directory ≠ "")
    (hplace : t.place (Path.join directory name) = .ok p) : t.find directory = .ok .directory := by
  obtain ⟨hlong, -, q, hhouses, -⟩ := (place_join_eq_ok h).1 hplace
  have hq : t.place directory = .ok q :=
    place_eq_ok.2 ⟨hdirectory, Path.isTooLong_of_join h hlong, hhouses.walk⟩
  exact find_of_directory hq hhouses.isDirectory

theorem writable_eq_ok : t.writable path = .ok p ↔
    Path.wantsDirectory path = false ∧ t.place path = .ok p ∧ t.get? p ≠ some .directory := by
  unfold writable
  cases hpath : Path.wantsDirectory path with
  | true =>
    cases t.above path with
    | error fault => simp [bind, Except.bind]
    | ok place => simp [bind, Except.bind, throw, throwThe, MonadExceptOf.throw]
  | false =>
    show (t.place path >>= fun place =>
      if t.get? place = some .directory then .error .isDirectory else .ok place) = _ ↔ _
    rw [bind_eq_ok]
    constructor
    · rintro ⟨place, hplace, h⟩
      split at h
      · exact absurd h (by simp)
      · case isFalse hfile =>
        cases h
        exact ⟨rfl, hplace, hfile⟩
    · rintro ⟨-, hplace, hfile⟩
      exact ⟨p, hplace, by rw [if_neg hfile]⟩

theorem read_eq_ok {text : String} : t.read path = .ok text ↔
    Path.wantsDirectory path = false ∧
      ∃ p, t.place path = .ok p ∧ t.get? p = some (.text text) := by
  rw [← find_eq_ok (by simp)]
  unfold read
  rw [bind_eq_ok]
  constructor
  · rintro ⟨entry, hfind, h⟩
    split at h
    · exact absurd h (by simp)
    · exact absurd h (by simp)
    · cases h
      exact hfind
  · intro hfind
    exact ⟨.text text, hfind, rfl⟩

theorem write_eq_ok {text : String} : t.write path text = .ok t' ↔
    ∃ p, t.writable path = .ok p ∧ t' = t.put p (.text text) := by
  unfold write
  rw [bind_eq_ok]
  simp only [pure, Except.pure, Except.ok.injEq, eq_comm]

theorem write_of_writable (h : t.writable path = .ok p) (text : String) :
    t.write path text = .ok (t.put p (.text text)) := by
  unfold write
  rw [h]
  rfl

theorem remove_of_find {entry : Entry} (hentry : entry ≠ .directory)
    (hfind : t.find path = .ok entry) (hplace : t.place path = .ok p) :
    t.remove path = .ok (t.erase p) := by
  unfold remove
  rw [hfind, hplace]
  cases entry with
  | directory => exact absurd rfl hentry
  | text content => rfl
  | binary bytes => rfl

theorem move_of_find {entry : Entry} {source target : String} {goal : List String}
    (hentry : entry ≠ .directory) (hfind : t.find source = .ok entry)
    (hplace : t.place source = .ok p) (hgoal : t.writable target = .ok goal) :
    t.move source target = .ok ((t.erase p).put goal entry) := by
  unfold move
  rw [hfind, hplace, hgoal]
  cases entry with
  | directory => exact absurd rfl hentry
  | text content => rfl
  | binary bytes => rfl

/-! ## Files that come and go -/

/-- Directories stay directories, and nothing else becomes one. -/
structure KeepsDirectories (t t' : FileTree) : Prop where
  current : t'.directory = t.directory
  directories : ∀ p, t'.get? p = some .directory ↔ t.get? p = some .directory

theorem KeepsDirectories.refl (t : FileTree) : t.KeepsDirectories t := ⟨rfl, fun _ => Iff.rfl⟩

theorem KeepsDirectories.trans (h : t.KeepsDirectories t') (h' : t'.KeepsDirectories t'') :
    t.KeepsDirectories t'' :=
  ⟨h'.current.trans h.current, fun p => (h'.directories p).trans (h.directories p)⟩

theorem KeepsDirectories.walk (h : t.KeepsDirectories t') {place names : List String}
    (hwalk : t.walk place names = .ok p) : t'.walk place names = .ok p := by
  induction names generalizing place with
  | nil => exact hwalk
  | cons name names ih =>
    obtain ⟨hplace, hname, hrest⟩ := walk_cons_eq_ok.1 hwalk
    exact walk_cons_eq_ok.2 ⟨(h.directories place).2 hplace, hname, ih hrest⟩

theorem KeepsDirectories.place (h : t.KeepsDirectories t') (hplace : t.place path = .ok p) :
    t'.place path = .ok p := by
  obtain ⟨hempty, hlong, hwalk⟩ := place_eq_ok.1 hplace
  refine place_eq_ok.2 ⟨hempty, hlong, ?_⟩
  rw [h.current]
  exact h.walk hwalk

theorem KeepsDirectories.writable (h : t.KeepsDirectories t')
    (hwritable : t.writable path = .ok p) : t'.writable path = .ok p := by
  obtain ⟨hpath, hplace, hfile⟩ := writable_eq_ok.1 hwritable
  exact writable_eq_ok.2 ⟨hpath, h.place hplace, mt (h.directories p).1 hfile⟩

theorem KeepsDirectories.isOk_writable (h : t.KeepsDirectories t')
    (hwritable : (t.writable path).isOk = true) : (t'.writable path).isOk = true := by
  obtain ⟨p, hp⟩ := exists_of_isOk hwritable
  rw [h.writable hp]
  rfl

theorem keepsDirectories_put {entry : Entry} (hold : t.get? p ≠ some .directory)
    (hnew : entry ≠ .directory) : t.KeepsDirectories (t.put p entry) := by
  refine ⟨rfl, ?_⟩
  intro q
  rw [get?_put t (ne_nil_of_get?_ne hold)]
  split
  · case isTrue hq => simp [hq, hold, hnew]
  · rfl

/-- A file that is written stands at one place only. -/
theorem find_put {entry : Entry} (hplace : t.place path = .ok q)
    (hold : t.get? p ≠ some .directory) (hne : q ≠ p) (hnew : entry ≠ .directory) :
    (t.put p entry).find path = t.find path := by
  have hkeeps := keepsDirectories_put hold hnew
  have hget : (t.put p entry).get? q = t.get? q := by
    rw [get?_put t (ne_nil_of_get?_ne hold), if_neg hne]
  unfold find
  rw [hkeeps.place hplace, hplace]
  simp only [bind, Except.bind, hget]

theorem keepsDirectories_erase (hold : t.get? p ≠ some .directory) :
    t.KeepsDirectories (t.erase p) := by
  refine ⟨rfl, ?_⟩
  intro q
  rw [get?_erase t (ne_nil_of_get?_ne hold)]
  split
  · case isTrue hq => simp [hq, hold]
  · rfl

end FileTree
end PressCalendar
