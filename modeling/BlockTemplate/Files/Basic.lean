import BlockTemplate.Path

/-!
Files as a function from paths to texts, and the reasons why a file cannot be read.
-/
namespace BlockTemplate

inductive ReadError
  | notFound
  | notDirectory
  | isDirectory
  | nameTooLong
  | nulInName
  | notUtf8
  | other (message : Text)
deriving DecidableEq, Repr

def ReadError.message : ReadError → Text
  | notFound => "No such file or directory (os error 2)".toList
  | notDirectory => "Not a directory (os error 20)".toList
  | isDirectory => "Is a directory (os error 21)".toList
  | nameTooLong => "File name too long (os error 36)".toList
  | nulInName => "file name contained an unexpected NUL byte".toList
  | notUtf8 => "stream did not contain valid UTF-8".toList
  | other message => message

abbrev Files := Path → Except ReadError Text

/-- The text at a path, if it can be read. -/
def Files.text? (files : Files) (p : Path) : Option Text := (files p).toOption

end BlockTemplate
