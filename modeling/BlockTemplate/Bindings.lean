import BlockTemplate.Text.Basic

/-!
Names with the texts bound to them. A name has at most one text, the one bound last.
-/
namespace BlockTemplate

abbrev Bindings := List (Text × Text)

namespace Bindings

def get? (b : Bindings) (key : Text) : Option Text := b.lookup key

def put (b : Bindings) (key text : Text) : Bindings := (key, text) :: b.filter (·.1 != key)

theorem get?_filter_ne (b : Bindings) (key k : Text) (h : k ≠ key) :
    get? (b.filter (·.1 != key)) k = b.get? k := by
  induction b with
  | nil => rfl
  | cons e b ih =>
    obtain ⟨a, v⟩ := e
    simp only [get?] at ih ⊢
    by_cases ha : a = key
    · have hk : (k == a) = false := beq_eq_false_iff_ne.mpr (ha ▸ h)
      simpa [ha, List.lookup_cons, ha ▸ hk] using ih
    · simp [ha, List.lookup_cons, ih]

theorem get?_put (b : Bindings) (key text k : Text) :
    (b.put key text).get? k = if k = key then some text else b.get? k := by
  by_cases h : k = key
  · simp [get?, put, h]
  · rw [if_neg h, ← get?_filter_ne b key k h]
    simp [get?, put, List.lookup_cons, beq_eq_false_iff_ne.mpr h]

end Bindings
end BlockTemplate
