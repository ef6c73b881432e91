/-
Trees on which a request may fail at any time.

A request to files is carried out, or it fails and leaves everything as it was; only a writing
that breaks off may leave something where its file was to be.  A `FaultyTree` has a fate ready
for each request to come that would change it, so a statement about all lists of fates is one
about every way in which a sequence of requests can break off.
-/
import PressCalendar.Proofs.Storage.Tree

namespace PressCalendar

/-- What is left of a file that was to be written: a file with whatever in it. -/
abbrev Remnant := { entry : Entry // entry ≠ .directory }

/-- What becomes of a request that would change files. -/
inductive Fate where
  /-- The request is carried out as on any tree. -/
  | granted
  | refused (fault : FileFault)
  /-- The request fails, a writing when some of it is there. -/
  | brokenOff (fault : FileFault) (remnant : Remnant)
deriving DecidableEq

structure FaultyTree where
  tree : FileTree
  /-- The fates of the next requests.  All further ones are granted. -/
  fates : List Fate
deriving DecidableEq

namespace FaultyTree

variable {s : FaultyTree} {t : FileTree} {path : String}

/-- The fate of a request, counted from the next one on. -/
def fate (s : FaultyTree) (index : Nat) : Fate := s.fates.getD index .granted

/-- The files after a request, with the fates of those that follow it. -/
def after (s : FaultyTree) (t : FileTree) : FaultyTree := ⟨t, s.fates.tail⟩

@[simp]
theorem tree_after : (s.after t).tree = t := rfl

@[simp]
theorem fate_after (index : Nat) : (s.after t).fate index = s.fate (index + 1) := by
  unfold after fate
  cases s.fates <;> rfl

/-- What a writing that breaks off makes of a tree, if it can begin at all. -/
def spoilt (path : String) (remnant : Remnant) (t : FileTree) : FileTree :=
  match t.writable path with
  | .ok place => t.put place remnant
  | .error _ => t

/-- A question that changes nothing and is always answered. -/
def asking {α : Type} (f : FileTree → α) : StateM FaultyTree α := fun s => (f s.tree, s)

/-- A change that meets its fate. -/
def changing (f : FileTree → Except FileFault FileTree) (spoil : Remnant → FileTree → FileTree) :
    StateM FaultyTree (Except FileFault Unit) := fun s =>
  match s.fate 0 with
  | .granted => (FileTree.changing f s.tree).map id s.after
  | .refused fault => (.error fault, s.after s.tree)
  | .brokenOff fault remnant => (.error fault, s.after (spoil remnant s.tree))

instance : Files (StateM FaultyTree) where
  directory := asking fun t => .ok (Path.ofNames true t.directory)
  isDirectory path := asking (·.isDirectory path)
  isPresent path := asking (·.isPresent path)
  read path := asking (·.read path)
  write path text := changing (·.write path text) (spoilt path)
  createDirectory path := changing (·.createDirectory path) fun _ t => t
  remove path := changing (·.remove path) fun _ t => t
  move source target := changing (·.move source target) fun _ t => t

variable {f : FileTree → Except FileFault FileTree} {spoil : Remnant → FileTree → FileTree}

theorem changing_of_granted (h : s.fate 0 = .granted) :
    changing f spoil s = (FileTree.changing f s.tree).map id s.after := by
  simp only [changing, h]

/-- A request that is not granted fails, and leaves at most what breaking off leaves. -/
theorem exists_changing_of_ne (h : s.fate 0 ≠ .granted) (f : FileTree → Except FileFault FileTree)
    (spoil : Remnant → FileTree → FileTree) :
    ∃ fault t, changing f spoil s = (.error fault, s.after t) ∧
      (t = s.tree ∨ ∃ remnant, t = spoil remnant s.tree) := by
  cases hfate : s.fate 0 with
  | granted => exact absurd hfate h
  | refused fault => exact ⟨fault, s.tree, by simp only [changing, hfate], .inl rfl⟩
  | brokenOff fault remnant =>
    exact ⟨fault, spoil remnant s.tree, by simp only [changing, hfate], .inr ⟨remnant, rfl⟩⟩

/-- A change that was made is the one that was asked for. -/
theorem eq_ok_of_changing {s' : FaultyTree} (h : changing f spoil s = (.ok (), s')) :
    f s.tree = .ok s'.tree := by
  by_cases hfate : s.fate 0 = .granted
  · rw [changing_of_granted hfate] at h
    cases hf : f s.tree with
    | ok changed =>
      rw [FileTree.changing, hf] at h
      obtain rfl : s.after changed = s' := congrArg Prod.snd h
      rfl
    | error fault =>
      rw [FileTree.changing, hf] at h
      exact absurd (congrArg Prod.fst h) nofun
  · obtain ⟨fault, t, hfails, -⟩ := exists_changing_of_ne hfate f spoil
    exact absurd (congrArg Prod.fst (hfails.symm.trans h)) nofun

end FaultyTree
end PressCalendar
