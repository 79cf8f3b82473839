import BlockTemplate.Block.Outline
import BlockTemplate.CommandLine.Log
import BlockTemplate.CommandLine.Options
import BlockTemplate.CommandLine.Usage
import BlockTemplate.Lint.Check
import BlockTemplate.Lint.Diagram
import BlockTemplate.Settings.Document
import BlockTemplate.Template
import BlockTemplate.Toml.Value

/-!
A run of the command line as a function of the files. The settings are read first, then the
template and last the data. The data are assigned in the order of their keys and the assignments
of the command line after them, so a later one wins. A run that fails puts nothing out.
-/
namespace BlockTemplate.CommandLine

/-- Why a run stops. -/
inductive Failure
  | settings (path : Path) (cause : SettingsError)
  | unreadableTemplate (path : Path) (cause : ReadError)
  | template (cause : TemplateError)
  | unreadableData (path : Path) (cause : ReadError)
  | dataNotToml (path : Path)

namespace Failure

def atPath (step : Text) (p : Path) (cause : Text) : Text :=
  step ++ " '".toList ++ p.text ++ "': ".toList ++ cause

def message : Failure → Text
  | settings p cause => atPath "loading config".toList p cause.report
  | unreadableTemplate p cause => atPath "reading".toList p cause.message
  | template cause => cause.message
  | unreadableData p cause => atPath "reading data".toList p cause.message
  | dataNotToml p => atPath "parsing data".toList p SettingsError.notToml.message

end Failure

/-- Exit code, standard output and error output. -/
structure Outcome where
  code : Nat
  output : Text
  errors : Text
deriving DecidableEq, Repr

/-- The outcome of a run that stops after `written` went to the error output. -/
def Failure.outcome (e : Failure) (written : Text) : Outcome :=
  ⟨1, [], written ++ "Error: ".toList ++ e.message ++ ['\n']⟩

namespace Options

def settings (o : Options) (files : Files) : Except Failure Settings :=
  match o.config with
  | none => .ok (o.adapt {})
  | some p => ((Settings.ofFile files p).mapError (.settings p)).map o.adapt

/-- The diagrams of all warnings about a template, if they were asked for. -/
def diagrams (o : Options) (files : Files) (s : Settings) (template : Path) :
    Except Failure Text :=
  if o.has .lint then
    match files template with
    | .error cause => .error (.unreadableTemplate template cause)
    | .ok t =>
      let warnings := Lint.check files (Origin.ofFile template) s.matchMode t
      .ok (warnings.flatMap (Diagram.draw t template.text))
  else .ok []

/-- The entries of the data file in the order of their keys. -/
def dataValues (o : Options) (files : Files) : Except Failure (List (Text × Value)) :=
  match o.data with
  | none => .ok []
  | some p =>
    match files p with
    | .error cause => .error (.unreadableData p cause)
    | .ok t =>
      match Toml.values? t with
      | none => .error (.dataNotToml p)
      | some entries => .ok entries

/-- All values that are assigned, in the order of their assignment. -/
def values (o : Options) (files : Files) : Except Failure (List (Text × Value)) :=
  (o.dataValues files).map (· ++ o.assignments.map fun a => (a.1, .scalar a.2))

end Options

/-- The run for a template. -/
def render (files : Files) (template : Path) (o : Options) : Outcome :=
  match o.settings files with
  | .error e => e.outcome []
  | .ok s =>
    let written := Notice.log (o.has .verbose) [.configured s]
    match o.diagrams files s template with
    | .error e => e.outcome written
    | .ok drawn =>
      let written := written ++ drawn
      match Template.ofFile files s template with
      | .error e => (Failure.template e).outcome written
      | .ok (t, notices) =>
        let written := written ++ Notice.log (o.has .verbose) notices
        if o.has .tree then ⟨0, t.root.outline, written⟩ else
        match o.values files with
        | .error e => e.outcome written
        | .ok values => ⟨0, (t.assignAll values).print.1, written⟩

def run (files : Files) (arguments : List Text) : Outcome :=
  match Invocation.ofArguments arguments with
  | .error e => ⟨2, [], e.report⟩
  | .ok .help => ⟨0, helpText, []⟩
  | .ok (.render template o) => render files template o

/-- The paths of the inclusions that are read while a template is built. -/
def inclusionPaths (files : Files) (template : Path) (o : Options) : List Path :=
  match o.settings files with
  | .error _ => []
  | .ok s =>
    match Template.ofFile files s template with
    | .error _ => []
    | .ok (t, notices) => notices.filterMap fun
      | .included path _ | .notIncluded path => some (t.origin.locate path)
      | _ => none

/-- The paths that a run reads, as far as they can be told from `files`. -/
def paths (files : Files) (arguments : List Text) : List Path :=
  match Invocation.ofArguments arguments with
  | .ok (.render template o) =>
    o.config.toList ++ [template] ++ o.data.toList ++ inclusionPaths files template o
  | _ => []

end BlockTemplate.CommandLine
