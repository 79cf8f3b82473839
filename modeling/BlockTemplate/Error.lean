import BlockTemplate.Files.Basic

/-!
What can go wrong when a template is loaded or one of its blocks is looked up.
-/
namespace BlockTemplate

inductive TemplateError
  | sourceNotFound (path : Path) (cause : ReadError)
  | unknownBlock (name : Text) (available : List Text)
deriving DecidableEq, Repr

def TemplateError.message : TemplateError → Text
  | sourceNotFound path _ => "template not found: ".toList ++ path.text
  | unknownBlock name available =>
    "unknown block '".toList ++ name ++ "' (".toList ++
      (if available.isEmpty then "node has no child blocks".toList
        else "available: ".toList ++ Text.join ", ".toList available) ++ [')']

end BlockTemplate
