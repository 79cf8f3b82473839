import BlockTemplate.Text.Basic
import Mathlib.Data.Char
import Mathlib.Data.List.Basic
import Mathlib.Data.List.Lex

/-!
The bytes of a text. It has as many bytes as characters just if all characters are ASCII, and texts
have the same order by characters as by the bytes of their UTF-8 form.
-/
namespace BlockTemplate.Text

theorem length_le_byteSize (t : Text) : t.length ≤ byteSize t := by
  induction t with
  | nil => exact Nat.le_refl 0
  | cons c t ih =>
    have hc := c.utf8Size_pos
    rw [List.length_cons, byteSize_cons]
    omega

theorem byteSize_eq_length_iff {t : Text} :
    byteSize t = t.length ↔ ∀ c ∈ t, c.toNat < 128 := by
  induction t with
  | nil => simp
  | cons c t ih =>
    have hpos := c.utf8Size_pos
    have hle := length_le_byteSize t
    have hc : c.utf8Size = 1 ↔ c.toNat < 128 := by
      rw [Char.utf8Size_eq_one_iff, UInt32.le_iff_toNat_le]
      exact Nat.lt_succ_iff.symm
    rw [List.forall_mem_cons, ← ih, ← hc, byteSize_cons, List.length_cons]
    omega

/-- The bytes of the UTF-8 form. -/
def utf8 (t : Text) : List UInt8 := t.flatMap String.utf8EncodeChar

theorem utf8_cons (c : Char) (t : Text) :
    utf8 (c :: t) = String.utf8EncodeChar c ++ utf8 t := by
  rw [utf8, List.flatMap_cons, utf8]

theorem toNat_lt (c : Char) : c.toNat < 0x110000 := by
  rcases c.valid with h | ⟨-, h⟩
  · exact Nat.lt_trans h (by decide)
  · exact h

/-- The order of two characters shows in the first byte in which they differ. -/
theorem utf8EncodeChar_append_lt {c d : Char} (h : c < d) (s t : List UInt8) :
    String.utf8EncodeChar c ++ s < String.utf8EncodeChar d ++ t := by
  have hlt : c.toNat < d.toNat := h
  have hd : d.toNat < 0x110000 := toNat_lt d
  have hbyte : ∀ n k m, 0 < k → k + m ≤ 256 → (n % k + m) % 256 = n % k + m := by
    intro n k m hk hle
    have hmod : n % k < k := Nat.mod_lt n hk
    exact Nat.mod_eq_of_lt (by omega)
  have hdigits : ∀ n, n / 4096 = n / 64 / 64 ∧ n / 262144 = n / 64 / 64 / 64 := by
    intro n
    simp only [Nat.div_div_eq_div_mul, and_self]
  -- Either the lengths differ, and with them the first bytes, or the bytes are digits to base 64.
  simp only [String.utf8EncodeChar, Char.toNat_val]
  split_ifs <;>
    simp (disch := decide) only [List.cons_append, List.nil_append, List.cons_lt_cons_iff,
      UInt8.lt_iff_toNat_lt, ← UInt8.toNat_inj, UInt8.toNat_ofNat', Nat.reducePow, hbyte,
      (hdigits _).1, (hdigits _).2] <;>
    omega

theorem utf8_lt_of_lt {s t : Text} (h : s < t) : utf8 s < utf8 t := by
  induction h with
  | @nil c t =>
    obtain ⟨b, bs, hbytes⟩ :=
      List.exists_cons_of_ne_nil (String.utf8EncodeChar_ne_nil (c := c))
    rw [utf8_cons, hbytes]
    exact List.Lex.nil
  | cons h ih =>
    rw [utf8_cons, utf8_cons]
    exact List.append_left_lt ih
  | rel h =>
    rw [utf8_cons, utf8_cons]
    exact utf8EncodeChar_append_lt h _ _

theorem utf8_lt_iff {s t : Text} : utf8 s < utf8 t ↔ s < t := by
  constructor
  · intro h
    rcases @lt_trichotomy (List Char) _ s t with hlt | rfl | hgt
    · exact hlt
    · exact absurd h (List.lt_irrefl _)
    · exact absurd h (List.lt_asymm (utf8_lt_of_lt hgt))
  · exact utf8_lt_of_lt

end BlockTemplate.Text
