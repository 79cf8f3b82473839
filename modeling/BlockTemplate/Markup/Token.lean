import BlockTemplate.Text.Blank

/-!
The markup of a template: the markers around a named block, the inclusion of a file, and the
placeholder of a variable. For each kind there is a test whether one starts a given text; it
answers with the token and its number of characters.
-/
namespace BlockTemplate

inductive Token
  | opening (name : Text)
  | closing (name : Text)
  | inclusion (path : Text)
  | placeholder (name : Text)
deriving DecidableEq, Repr

namespace Token

open Text

/-- The block name of a marker. -/
def markerName? : Token → Option Text
  | opening name => some name
  | closing name => some name
  | inclusion _ => none
  | placeholder _ => none

def path? : Token → Option Text
  | inclusion path => some path
  | _ => none

def variableName? : Token → Option Text
  | placeholder name => some name
  | _ => none

def openingWord : Text := "<!--begin:".toList

def closingWord : Text := "<!--end:".toList

def markerEnd : Text := "-->".toList

def inclusionStart : Text := "\x7bFILE \"".toList

def inclusionEnd : Text := "\"\x7d".toList

/-- Letters, digits and the signs that join them, as in `user.first-name`. -/
def isNameChar (c : Char) : Bool :=
  c.isAlphanum || c == '_' || c == '.' || c == '-'

def isVariableName (t : Text) : Bool := !t.isEmpty && t.all isNameChar

/-- What follows `word` in a text that starts with it, whatever the case of its letters. -/
def afterWord? (word t : Text) : Option Text :=
  if fold (t.take word.length) = word then some (t.drop word.length) else none

/-- A marker has its name up to the next `-->`. A name has no angle bracket in it, and the white
space it starts with is not part of it. -/
def markerAt? (word : Text) (mark : Text → Token) (t : Text) : Option (Token × Nat) := do
  let rest ← afterWord? word t
  let cut ← cut? markerEnd rest
  if cut.1.all fun c => c != '<' && c != '>' then
    some (mark (trimStart cut.1), word.length + cut.1.length + markerEnd.length)
  else none

/-- A path is any text without a quotation mark. -/
def inclusionAt? (t : Text) : Option (Token × Nat) := do
  let rest ← after? inclusionStart t
  let path := rest.takeWhile (· != '"')
  if inclusionEnd.isPrefixOf (rest.drop path.length) then
    some (inclusion path, inclusionStart.length + path.length + inclusionEnd.length)
  else none

def placeholderAt? (t : Text) : Option (Token × Nat) := do
  let rest ← after? ['{'] t
  let name := rest.takeWhile isNameChar
  if !name.isEmpty && ['}'].isPrefixOf (rest.drop name.length) then
    some (placeholder name, name.length + 2)
  else none

/-- The token that starts the text. -/
def at? (t : Text) : Option (Token × Nat) :=
  (markerAt? openingWord opening t).or <| (markerAt? closingWord closing t).or <|
    (inclusionAt? t).or (placeholderAt? t)

theorem pos_of_markerAt? {word t : Text} {mark : Text → Token} {token : Token} {n : Nat}
    (h : markerAt? word mark t = some (token, n)) : 0 < n := by
  simp only [markerAt?, Option.bind_eq_bind, Option.bind_eq_some_iff,
    Option.ite_none_right_eq_some, Option.some.injEq, Prod.mk.injEq] at h
  obtain ⟨_, _, _, _, _, _, rfl⟩ := h
  simp [markerEnd]

/-- A token has at least one character. -/
theorem pos_of_at? {t : Text} {token : Token} {n : Nat} (h : at? t = some (token, n)) : 0 < n := by
  simp only [at?, Option.or_eq_some_iff] at h
  obtain h | ⟨_, h | ⟨_, h | ⟨_, h⟩⟩⟩ := h
  · exact pos_of_markerAt? h
  · exact pos_of_markerAt? h
  · simp only [inclusionAt?, Option.bind_eq_bind, Option.bind_eq_some_iff,
      Option.ite_none_right_eq_some, Option.some.injEq, Prod.mk.injEq] at h
    obtain ⟨_, _, _, _, rfl⟩ := h
    simp [inclusionEnd]
  · simp only [placeholderAt?, Option.bind_eq_bind, Option.bind_eq_some_iff,
      Option.ite_none_right_eq_some, Option.some.injEq, Prod.mk.injEq] at h
    obtain ⟨_, _, _, _, rfl⟩ := h
    omega

end Token
end BlockTemplate
