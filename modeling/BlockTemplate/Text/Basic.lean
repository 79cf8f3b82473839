/-!
Text as a list of characters, its size in UTF-8 bytes, and the search for a pattern.
Positions that a reader sees are byte offsets, so every measure of a text is its byte size.
The statements here say what the search finds: the pattern, with no earlier occurrence
of it that ends inside the part before.
-/
namespace BlockTemplate

abbrev Text := List Char

namespace Text

instance : LawfulBEq Text := inferInstance

/-- The number of bytes of the UTF-8 form. -/
def byteSize : Text → Nat
  | [] => 0
  | c :: t => c.utf8Size + byteSize t

@[simp] theorem byteSize_nil : byteSize [] = 0 := rfl

@[simp] theorem byteSize_cons (c : Char) (t : Text) :
    byteSize (c :: t) = c.utf8Size + byteSize t := rfl

@[simp] theorem byteSize_append (s t : Text) : byteSize (s ++ t) = byteSize s + byteSize t := by
  induction s with
  | nil => simp
  | cons c s ih => simp [ih, Nat.add_assoc]

def ofNat (n : Nat) : Text := Nat.toDigits 10 n

theorem ofNat_injective {m n : Nat} (h : ofNat m = ofNat n) : m = n := by
  calc m = Nat.ofDigitChars 10 (ofNat m) 0 := Nat.ofDigitChars_ten_toDigits.symm
    _ = Nat.ofDigitChars 10 (ofNat n) 0 := by rw [h]
    _ = n := Nat.ofDigitChars_ten_toDigits

theorem isDigit_of_mem_ofNat {n : Nat} {c : Char} (h : c ∈ ofNat n) : c.isDigit = true :=
  Nat.isDigit_of_mem_toDigits (by decide) (by decide) h

/-- What follows `p` in a text that starts with it. -/
def after? : Text → Text → Option Text
  | [], t => some t
  | _ :: _, [] => none
  | a :: p, b :: t => if a = b then after? p t else none

theorem after?_eq_some_iff {p t r : Text} : after? p t = some r ↔ t = p ++ r := by
  induction p generalizing t with
  | nil => simp [after?]
  | cons a p ih =>
    cases t with
    | nil => simp [after?]
    | cons b t =>
      by_cases hab : a = b
      · simp [after?, hab, ih]
      · simp [after?, hab, Ne.symm hab]

/-- The number of characters before the first occurrence of `p`, counted from `m`. -/
def indexFrom? (p : Text) (m : Nat) : Text → Option Nat
  | [] => if p.isEmpty then some m else none
  | c :: t => if p.isPrefixOf (c :: t) then some m else indexFrom? p (m + 1) t

/-- The text before the first occurrence of `p` and the text after it. -/
def cut? (p t : Text) : Option (Text × Text) :=
  (indexFrom? p 0 t).map fun i => (t.take i, t.drop (i + p.length))

theorem indexFrom?_eq (p t : Text) (m : Nat) :
    indexFrom? p m t = (indexFrom? p 0 t).map (m + ·) := by
  induction t generalizing m with
  | nil => by_cases h : p.isEmpty <;> simp [indexFrom?, h]
  | cons c t ih =>
    by_cases h : p.isPrefixOf (c :: t)
    · simp [indexFrom?, h]
    · rw [indexFrom?, if_neg h, indexFrom?, if_neg h, ih (m + 1), ih (0 + 1)]
      cases indexFrom? p 0 t <;> simp [Nat.add_assoc]

theorem cut?_cons (p : Text) (c : Char) (t : Text) :
    cut? p (c :: t) =
      if p.isPrefixOf (c :: t) then some ([], (c :: t).drop p.length)
      else (cut? p t).map fun ab => (c :: ab.1, ab.2) := by
  by_cases h : p.isPrefixOf (c :: t)
  · simp [cut?, indexFrom?, h]
  · rw [cut?, indexFrom?, if_neg h, if_neg h, indexFrom?_eq, cut?]
    cases indexFrom? p 0 t with
    | none => rfl
    | some i => simp [Nat.add_comm 1 i, show i + 1 + p.length = i + p.length + 1 by omega]

/-- A cut loses nothing but the pattern. -/
theorem eq_of_cut? {p t a b : Text} (h : cut? p t = some (a, b)) : t = a ++ p ++ b := by
  induction t generalizing a with
  | nil =>
    by_cases hp : p.isEmpty
    · obtain ⟨rfl, rfl⟩ : [] = a ∧ [] = b := by simpa [cut?, indexFrom?, hp] using h
      simpa using hp
    · simp [cut?, indexFrom?, hp] at h
  | cons c t ih =>
    rw [cut?_cons] at h
    by_cases hpre : p.isPrefixOf (c :: t)
    · rw [if_pos hpre] at h
      obtain ⟨rfl, rfl⟩ : [] = a ∧ (c :: t).drop p.length = b := by simpa using h
      obtain ⟨r, hr⟩ := List.isPrefixOf_iff_prefix.mp hpre
      simp [← hr]
    · rw [if_neg hpre] at h
      obtain ⟨⟨a', b'⟩, hcut, heq⟩ := Option.map_eq_some_iff.mp h
      obtain ⟨rfl, rfl⟩ : c :: a' = a ∧ b' = b := by simpa using heq
      simp [ih hcut]

theorem length_lt_of_cut? {p t a b : Text} (hp : p ≠ []) (h : cut? p t = some (a, b)) :
    b.length < t.length := by
  have hlen := congrArg List.length (eq_of_cut? h)
  have hpos := List.length_pos_iff.mpr hp
  simp only [List.length_append] at hlen
  omega

/-- Every occurrence of `p`, taken from the left without overlap, becomes `r`. -/
def replaceAll (p r t : Text) : Text :=
  if hp : p = [] then t else
  match h : cut? p t with
  | none => t
  | some (a, b) =>
    have : b.length < t.length := length_lt_of_cut? hp h
    a ++ r ++ replaceAll p r b
termination_by t.length

/-- The lines of a text: what stands between its line ends. -/
def lines (t : Text) : List Text := t.splitOn '\n'

def unlines (ls : List Text) : Text := ['\n'].intercalate ls

/-- `sep` between the members of `ts`. -/
def join (sep : Text) (ts : List Text) : Text := sep.intercalate ts

/-- The ASCII letters of a text in lower case. -/
def fold (t : Text) : Text := t.map Char.toLower

/-- Texts that differ only in the case of ASCII letters. -/
def sameFolded (s t : Text) : Bool := fold s == fold t

end Text
end BlockTemplate
