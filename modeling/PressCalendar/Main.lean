/-
The program: the command of its words, carried out on the files of the computer.
-/
import PressCalendar.Command.Run
import Std.Time.Zoned

namespace PressCalendar

namespace Program

/-! ## Files -/

/-- The fault of a number by which the system tells failures apart.  Some requests
answer it below zero. -/
def faultOfNumber (code : UInt32) (detail : String) : FileFault :=
  match min code (0 - code) with
  | 20 => .notDirectory
  | 21 => .isDirectory
  | 36 => .nameTooLong
  | _ => .other detail

def faultOf : IO.Error → FileFault
  | .noFileOrDirectory .. => .notFound
  | .alreadyExists .. => .alreadyExists
  | .inappropriateType file code detail =>
    faultOfNumber code (IO.Error.inappropriateType file code detail).toString
  | .invalidArgument file code detail =>
    faultOfNumber code (IO.Error.invalidArgument file code detail).toString
  | failure => .other failure.toString

def attempt {α : Type} (action : IO α) : IO (Except FileFault α) := do
  match ← action.toBaseIO with
  | .ok a => return .ok a
  | .error failure => return .error (faultOf failure)

def readFile (path : String) : IO (Except FileFault String) := do
  match ← attempt (IO.FS.readBinFile path) with
  | .error fault => return .error fault
  | .ok bytes =>
    match String.fromUTF8? bytes with
    | some text => return .ok text
    | none => return .error .notText

instance : Files IO where
  directory := attempt do return (← IO.currentDir).toString
  isDirectory path := (System.mkFilePath [path]).isDir
  isPresent path := (System.mkFilePath [path]).pathExists
  read := readFile
  write path text := attempt (IO.FS.writeFile path text)
  createDirectory path := attempt (IO.FS.createDir path)
  remove path := attempt (IO.FS.removeFile path)
  move source target := attempt (IO.FS.rename source target)

/-! ## Time -/

open Std.Time (Timestamp PlainDateTime)

def presentOf (stamp : Timestamp) : PlainDateTime := .ofWallTime (.ofTimestamp stamp .zero)

/-- The date of a clock.  The calendar here ends later than any clock runs. -/
def dateOf (t : PlainDateTime) : Date :=
  (Date.of? t.year t.month.val.toNat t.day.val.toNat).getD Date.last

def momentOf (t : PlainDateTime) : Moment :=
  let minute := (t.hour.val * 60 + t.minute.val).toNat
  let moment? := Moment.of? (dateOf t) minute t.second.val.toNat t.nanosecond.val.toNat
  moment?.getD ⟨dateOf t, 0, 0, 0⟩

/-- The local date, or the one of the zeroth meridian where no local clock is
set. -/
def today (present : PlainDateTime) : IO Date := do
  match ← PlainDateTime.now.toBaseIO with
  | .ok here => return dateOf here
  | .error _ => return dateOf present

/-! ## The run -/

def run (words : List String) : IO UInt32 := do
  let present := presentOf (← Timestamp.now)
  let session : Session := {
    chosen := ← IO.getEnv "PERIODICAL_ROOT"
    today := ← today present
    now := momentOf present
    tag := toString (← IO.monoNanosNow) }
  let reply : Reply ← Reply.ofWords session words
  IO.print reply.output
  IO.eprint reply.complaint
  return reply.code.toUInt32

end Program

end PressCalendar

def main (words : List String) : IO UInt32 := PressCalendar.Program.run words
