import BlockTemplate.CommandLine.Arguments
import BlockTemplate.Settings.Basic
import BlockTemplate.Path

/-!
What a command line asks for. Each flag and each path is given at most once, assignments any
number of times. The items count from left to right: the first that is wrong is reported unless
help was asked for before it.
-/
namespace BlockTemplate.CommandLine

open Text

/-- Everything but the template. -/
structure Options where
  data : Option Path := none
  config : Option Path := none
  assignments : List (Text × Text) := []
  flags : List Flag := []
deriving DecidableEq, Repr

inductive Invocation
  | help
  | render (template : Path) (options : Options)
deriving DecidableEq, Repr

namespace Options

def has (o : Options) (f : Flag) : Bool := o.flags.contains f

/-- The settings with what the flags change. -/
def adapt (o : Options) (s : Settings) : Settings :=
  { s with
    style := { s.style with
      collapseBlankLines := s.style.collapseBlankLines && !o.has .keepBlankLines }
    matchMode := if o.has .nested then .nested else s.matchMode }

end Options

namespace Invocation

/-- Key and value, parted by the first equals sign. -/
def assignment (t : Text) : Except UsageError (Text × Text) :=
  match cut? ['='] t with
  | some (key, value) => if key.isEmpty then .error (.badAssignment t) else .ok (key, value)
  | none => .error (.badAssignment t)

def path (t : Text) : Except UsageError Path :=
  if t.isEmpty then .error .emptyPath else .ok ⟨t⟩

/-- A path where none was given so far. -/
def firstPath (given : Option Path) (repeated : UsageError) (t : Text) :
    Except UsageError (Option Path) :=
  if given.isSome then .error repeated else (path t).map some

/-- The template, if it was given, and the options so far. -/
structure Draft where
  template : Option Path := none
  options : Options := {}

def Draft.add (d : Draft) (item : Item) : Except UsageError Draft :=
  let o := d.options
  match item with
  | .wrong e => .error e
  | .flag f =>
    if o.has f then .error (.repeated (.flag f))
    else .ok { d with options := { o with flags := f :: o.flags } }
  | .word t =>
    (firstPath d.template (.unexpectedWord t) t).map fun p => { d with template := p }
  | .parameter .assignment t =>
    (assignment t).map fun a =>
      { d with options := { o with assignments := o.assignments ++ [a] } }
  | .parameter .data t =>
    (firstPath o.data (.repeated (.parameter .data)) t).map fun p =>
      { d with options := { o with data := p } }
  | .parameter .config t =>
    (firstPath o.config (.repeated (.parameter .config)) t).map fun p =>
      { d with options := { o with config := p } }

def ofItems (d : Draft) : List Item → Except UsageError Invocation
  | [] =>
    match d.template with
    | some p => .ok (render p d.options)
    | none => .error .missingTemplate
  | .flag .help :: _ => .ok help
  | item :: rest => (d.add item).bind fun d => ofItems d rest

def ofArguments (arguments : List Text) : Except UsageError Invocation :=
  ofItems {} (items arguments)

end Invocation
end BlockTemplate.CommandLine
