import BlockTemplate.Notice
import BlockTemplate.Text.Terminal

/-!
Notices as lines of a log. A line has the level of its notice and the part of the program that it
comes from, and only what a terminal shows of it is written. Warnings are always written, the rest
on request.
-/
namespace BlockTemplate.Notice

open Text

def label : Severity → Text
  | .warn => "WARN ".toList
  | .debug => "DEBUG".toList
  | .trace => "TRACE".toList

/-- The part of the program that a notice comes from. -/
def topic : Notice → Text
  | configured .. => "blocktpl".toList
  | included .. | notIncluded .. => "blocktpl::parser::include".toList
  | drained .. | committed .. => "blocktpl::block".toList
  | _ => "blocktpl::parser".toList

/-- The lines of a message after the first one are indented. -/
def logLine (n : Notice) : Text :=
  Terminal.shown ('[' :: label n.severity ++ ' ' :: n.topic ++ "] ".toList ++
    join "\n    ".toList (lines n.message) ++ ['\n'])

/-- Whether a notice is written, either in few words or in many. -/
def isLogged (verbose : Bool) (n : Notice) : Bool :=
  match n.severity with
  | .warn => true
  | .debug => verbose
  | .trace => false

def log (verbose : Bool) (ns : List Notice) : Text :=
  (ns.filter (isLogged verbose)).flatMap logLine

end BlockTemplate.Notice
