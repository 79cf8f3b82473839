import BlockTemplate.CommandLine.Run

/-!
The program: it reads the files that a run asks for, and writes the outcome of the run.
-/
namespace BlockTemplate.CommandLine

/-- The reason why a file could not be read. Some numbers of errors come negated. -/
def reason (e : IO.Error) : ReadError :=
  let numbered (code : UInt32) (details : String) : ReadError :=
    match min code (0 - code) with
    | 2 => .notFound
    | 20 => .notDirectory
    | 21 => .isDirectory
    | 36 => .nameTooLong
    | n => .other (details ++ " (os error " ++ toString n ++ ")").toList
  match e with
  | .noFileOrDirectory _ code details => numbered code details
  | .inappropriateType _ code details => numbered code details
  | .invalidArgument _ code details => numbered code details
  | .permissionDenied _ code details => numbered code details
  | .resourceExhausted _ code details => numbered code details
  | .illegalOperation code details => numbered code details
  | .otherError code details => numbered code details
  | e => .other e.toString.toList

def readFile (p : Path) : IO (Except ReadError Text) := do
  if p.text.contains '\x00' then return .error .nulInName
  match ← (IO.FS.readBinFile ⟨String.ofList p.text⟩).toBaseIO with
  | .error e => return .error (reason e)
  | .ok bytes =>
    match String.fromUTF8? bytes with
    | some s => return .ok s.toList
    | none => return .error .notUtf8

/-- The files that were read so far. -/
abbrev Known := List (Path × Except ReadError Text)

def Known.files (known : Known) : Files := fun p => (known.lookup p).getD (.error .notFound)

/-- Reads files until a run asks for no other. -/
partial def readAll (arguments : List Text) (known : Known) : IO Known := do
  let wanted := (paths known.files arguments).filter fun p => (known.lookup p).isNone
  if wanted.isEmpty then return known
  readAll arguments (known ++ (← wanted.mapM fun p => return (p, ← readFile p)))

end BlockTemplate.CommandLine

open BlockTemplate.CommandLine in
def main (arguments : List String) : IO UInt32 := do
  let arguments := arguments.map String.toList
  let known ← readAll arguments []
  let outcome := run known.files arguments
  IO.eprint (String.ofList outcome.errors)
  IO.print (String.ofList outcome.output)
  return UInt32.ofNat outcome.code
