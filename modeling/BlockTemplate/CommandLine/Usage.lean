import BlockTemplate.CommandLine.Arguments

/-!
The texts that explain the command line.
-/
namespace BlockTemplate.CommandLine

def usage : Text := "Usage: blocktpl [OPTIONS] <TEMPLATE>\n".toList

def helpText : Text :=
  "Render hierarchical block templates\n\n".toList ++ usage ++
  ("\nArguments:\n" ++
    "  <TEMPLATE>  Template file\n" ++
    "\nOptions:\n" ++
    "  -d, --data <DATA>       TOML data file; every top-level key is assigned to the root block\n" ++
    "  -s, --set <KEY=VALUE>   Assign a variable, applied after --data\n" ++
    "  -c, --config <CONFIG>   Template configuration file (TOML format)\n" ++
    "      --keep-blank-lines  Keep whitespace-only lines in the output\n" ++
    "      --nested            Pair block markers by depth instead of first-begin/last-end\n" ++
    "      --lint              Report markup problems on stderr before rendering\n" ++
    "      --tree              Print the block tree instead of rendering\n" ++
    "  -v, --verbose           Debug logging\n" ++
    "  -h, --help              Print help\n").toList

/-- How a switch is written in a message. -/
def Switch.text : Switch → Text
  | flag .keepBlankLines => "--keep-blank-lines".toList
  | flag .nested => "--nested".toList
  | flag .lint => "--lint".toList
  | flag .tree => "--tree".toList
  | flag .verbose => "--verbose".toList
  | flag .help => "--help".toList
  | parameter .data => "--data <DATA>".toList
  | parameter .assignment => "--set <KEY=VALUE>".toList
  | parameter .config => "--config <CONFIG>".toList

namespace UsageError

def message : UsageError → Text
  | unknownSwitch name => "unexpected argument '".toList ++ name ++ "' found".toList
  | unexpectedValue switch value =>
    "unexpected value '".toList ++ value ++ "' for '".toList ++ switch ++
      "' found; no more were expected".toList
  | missingValue p =>
    "a value is required for '".toList ++ (Switch.parameter p).text ++
      "' but none was supplied".toList
  | repeated s =>
    "the argument '".toList ++ s.text ++ "' cannot be used multiple times".toList
  | emptyPath => "a path is required but none was supplied".toList
  | badAssignment text =>
    "invalid value '".toList ++ text ++ "' for '--set <KEY=VALUE>': ".toList ++
      "expected KEY=VALUE, got '".toList ++ text ++ ['\'']
  | unexpectedWord text => "unexpected argument '".toList ++ text ++ "' found".toList
  | missingTemplate =>
    "the following required arguments were not provided:\n  <TEMPLATE>".toList

/-- The message with a hint at the right usage. -/
def report (e : UsageError) : Text :=
  "error: ".toList ++ e.message ++ "\n\n".toList ++ usage ++
    "\nFor more information, try '--help'.\n".toList

end UsageError
end BlockTemplate.CommandLine
