/-
A tree of files and directories as a value.

`get?` tells what stands at a place, which is a list of names from the root
downwards; `put` and `erase` change one place only.  `place` follows a path from
name to name and asks for a directory wherever the path goes on, so what is put at
a place that was found stands in a directory.
-/
import PressCalendar.Storage.Files

namespace PressCalendar

inductive Entry where
  | directory
  | text (content : String)
  /-- A file whose bytes are not text. -/
  | binary (bytes : List UInt8)
deriving DecidableEq, Repr

structure FileTree where
  /-- What stands where.  The first entry of a place counts. -/
  entries : List (List String × Entry)
  directory : List String
deriving DecidableEq, Repr

namespace FileTree

/-! ## Places -/

/-- What stands at a place.  The root is always there. -/
def get? (t : FileTree) (place : List String) : Option Entry :=
  if place.isEmpty then some .directory else t.entries.lookup place

def put (t : FileTree) (place : List String) (entry : Entry) : FileTree :=
  { t with entries := (place, entry) :: t.entries.filter (·.1 != place) }

def erase (t : FileTree) (place : List String) : FileTree :=
  { t with entries := t.entries.filter (·.1 != place) }

theorem lookup_filter_ne (entries : List (List String × Entry)) (place other : List String) :
    (entries.filter (·.1 != place)).lookup other =
      if other = place then none else entries.lookup other := by
  induction entries with
  | nil => split <;> rfl
  | cons head rest ih =>
    obtain ⟨here, entry⟩ := head
    by_cases h : here = place
    · rw [List.filter_cons_of_neg (by simp [h]), ih, List.lookup_cons, h]
      by_cases ho : other = place
      · rw [if_pos ho, if_pos ho]
      · rw [beq_eq_false_iff_ne.2 ho]
    · rw [List.filter_cons_of_pos (by simp [h]), List.lookup_cons, ih, List.lookup_cons]
      by_cases ho : other = here
      · have hne : other ≠ place := fun e => h (ho.symm.trans e)
        rw [if_neg hne, if_neg hne]
      · rw [beq_eq_false_iff_ne.2 ho]

theorem get?_put (t : FileTree) {place : List String} (hp : place ≠ []) (entry : Entry)
    (other : List String) :
    (t.put place entry).get? other = if other = place then some entry else t.get? other := by
  by_cases h : other = place
  · subst h
    simp [get?, put, hp]
  · have : (other == place) = false := by simp [h]
    simp [get?, put, List.lookup_cons, lookup_filter_ne, h, this]

theorem get?_erase (t : FileTree) {place : List String} (hp : place ≠ []) (other : List String) :
    (t.erase place).get? other = if other = place then none else t.get? other := by
  by_cases h : other = place
  · subst h
    simp [get?, erase, lookup_filter_ne, hp]
  · simp [get?, erase, lookup_filter_ne, h]

/-! ## Paths -/

def step (place : List String) (name : String) : List String :=
  if name = "." then place
  else if name = ".." then place.dropLast
  else place ++ [name]

/-- Follow names through directories.  The last of them need not be there. -/
def walk (t : FileTree) (place : List String) : List String → Except FileFault (List String)
  | [] => .ok place
  | name :: names =>
    match t.get? place with
    | some .directory =>
      if Path.isNameTooLong name then .error .nameTooLong else t.walk (step place name) names
    | some _ => .error .notDirectory
    | none => .error .notFound

/-- Follow the names of a path from where it starts. -/
def follow (t : FileTree) (path : String) (names : List String) :
    Except FileFault (List String) :=
  if path.isEmpty then .error .notFound
  else if Path.isTooLong path then .error .nameTooLong
  else t.walk (if Path.isAbsolute path then [] else t.directory) names

/-- The place of a path, at which there need not be anything. -/
def place (t : FileTree) (path : String) : Except FileFault (List String) :=
  t.follow path (Path.steps path)

def above (t : FileTree) (path : String) : Except FileFault (List String) :=
  t.follow path ((Path.steps path).dropLast ++ ["."])

def find (t : FileTree) (path : String) : Except FileFault Entry := do
  match t.get? (← t.place path) with
  | none => .error .notFound
  | some .directory => .ok .directory
  | some entry => if Path.wantsDirectory path then .error .notDirectory else .ok entry

/-! ## Requests -/

def isDirectory (t : FileTree) (path : String) : Bool :=
  match t.find path with
  | .ok entry => entry = .directory
  | .error _ => false

def isPresent (t : FileTree) (path : String) : Bool := (t.find path).isOk

def read (t : FileTree) (path : String) : Except FileFault String := do
  match ← t.find path with
  | .directory => .error .isDirectory
  | .binary _ => .error .notText
  | .text content => .ok content

/-- The place at which a file of a path can be written.  A file cannot be what a
path asks for with a slash at its end, whether there is one or not. -/
def writable (t : FileTree) (path : String) : Except FileFault (List String) := do
  if Path.wantsDirectory path then
    let _ ← t.above path
    throw .isDirectory
  let place ← t.place path
  if t.get? place = some .directory then throw .isDirectory
  return place

def write (t : FileTree) (path text : String) : Except FileFault FileTree := do
  return t.put (← t.writable path) (.text text)

def createDirectory (t : FileTree) (path : String) : Except FileFault FileTree := do
  let place ← t.place path
  if (t.get? place).isSome then .error .alreadyExists else .ok (t.put place .directory)

def remove (t : FileTree) (path : String) : Except FileFault FileTree := do
  match ← t.find path with
  | .directory => .error .isDirectory
  | _ => return t.erase (← t.place path)

def move (t : FileTree) (source target : String) : Except FileFault FileTree := do
  match ← t.find source with
  | .directory => .error .isDirectory
  | entry => do
    let goal ← t.writable target
    return (t.erase (← t.place source)).put goal entry

/-! ## A tree as a state -/

/-- A question that changes nothing. -/
def asking {α : Type} (f : FileTree → α) : StateM FileTree α := fun t => (f t, t)

/-- A change that is made as a whole or not at all. -/
def changing (f : FileTree → Except FileFault FileTree) : StateM FileTree (Except FileFault Unit) :=
  fun t => match f t with
  | .ok changed => (.ok (), changed)
  | .error fault => (.error fault, t)

instance : Files (StateM FileTree) where
  directory := asking fun t => .ok (Path.ofNames true t.directory)
  isDirectory path := asking (isDirectory · path)
  isPresent path := asking (isPresent · path)
  read path := asking (read · path)
  write path text := changing (write · path text)
  createDirectory path := changing (createDirectory · path)
  remove path := changing (remove · path)
  move source target := changing (move · source target)

end FileTree

end PressCalendar
