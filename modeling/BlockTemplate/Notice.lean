import BlockTemplate.Settings.Basic
import BlockTemplate.Path

/-!
What is noticed while a template is built and rendered, for a log.
-/
namespace BlockTemplate

inductive Severity
  | warn
  | debug
  | trace
deriving DecidableEq, Repr

inductive Notice
  | configured (settings : Settings)
  | loaded (path : Path) (bytes : Nat)
  | included (path : Text) (bytes : Nat)
  | notIncluded (path : Text)
  | large (block : Text) (bytes limit : Nat)
  | tooDeep (block : Text)
  | unterminated (marker block : Text) (span : Span)
  | strayEnd (marker block : Text) (span : Span)
  | redefined (block parent : Text)
  | built (block : Text) (children : Nat)
  | drained (block : Text) (bytes : Nat)
  | committed (block : Text) (bytes : Nat)
deriving DecidableEq, Repr

namespace Notice

def severity : Notice → Severity
  | notIncluded .. | tooDeep .. | unterminated .. | strayEnd .. => .warn
  | drained .. | committed .. => .trace
  | _ => .debug

def quoted (t : Text) : Text := '\'' :: t ++ ['\'']

def bytesText (n : Nat) : Text := '(' :: Text.ofNat n ++ " bytes)".toList

def settingsText (s : Settings) : Text :=
  "configuration: TemplateConfig \x7b collapse_blank_lines: ".toList ++
    (if s.style.collapseBlankLines then "true" else "false").toList ++
    ", match_mode: ".toList ++
    (match s.matchMode with | .greedy => "Greedy" | .nested => "Nested").toList ++
    ", unbound_variables: ".toList ++
    (match s.style.unbound with | .keep => "Keep" | .blank => "Blank").toList ++
    ", large_input_threshold: ".toList ++ Text.ofNat s.largeSize ++ " \x7d".toList

/-- The line of the log, without its level. -/
def message : Notice → Text
  | configured settings => settingsText settings
  | loaded path bytes => "loaded template ".toList ++ path.text ++ ' ' :: bytesText bytes
  | included path bytes => "included ".toList ++ quoted path ++ ' ' :: bytesText bytes
  | notIncluded path =>
    "include ".toList ++ quoted path ++ " not found, leaving token in place".toList
  | large block bytes limit =>
    "block ".toList ++ quoted block ++ " is a large input (".toList ++ Text.ofNat bytes ++
      " bytes > ".toList ++ Text.ofNat limit ++ [')']
  | tooDeep block =>
    "block ".toList ++ quoted block ++ " is nested deeper than ".toList ++ Text.ofNat maxDepth ++
      " levels, body kept as text".toList
  | unterminated marker block span =>
    "unterminated block ".toList ++ quoted marker ++ " in ".toList ++ quoted block ++
      " at byte ".toList ++ Text.ofNat span.start ++ ", kept as text".toList
  | strayEnd marker block span =>
    "end marker for ".toList ++ quoted marker ++ " in ".toList ++ quoted block ++
      " at byte ".toList ++ Text.ofNat span.start ++ " closes no block, kept as text".toList
  | redefined block parent =>
    "block ".toList ++ quoted block ++ " redefined in ".toList ++ quoted parent ++
      ", later region wins".toList
  | built block children =>
    "built block ".toList ++ quoted block ++ " with ".toList ++ Text.ofNat children ++
      " children".toList
  | drained block bytes => "flushed ".toList ++ quoted block ++ ' ' :: bytesText bytes
  | committed block bytes => "parsed ".toList ++ quoted block ++ ' ' :: bytesText bytes

end Notice
end BlockTemplate
