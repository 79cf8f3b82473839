import BlockTemplate.Block.Basic
import Mathlib.Data.List.Basic

/-!
Binding texts to names. A text that is bound on a block is bound on every block below it and
changes nothing else there. A value is bound scalar by scalar, so that of several scalars with
one key the last one counts.
-/
namespace BlockTemplate.Block

/-- The text of the last of the pairs that has this key. -/
def lastOf? (key : Text) (pairs : List (Text × Text)) : Option Text :=
  (pairs.filter (·.1 == key)).getLast?.map Prod.snd

theorem lastOf?_append (key : Text) (pairs pairs' : List (Text × Text)) :
    lastOf? key (pairs ++ pairs') = (lastOf? key pairs').or (lastOf? key pairs) := by
  rw [lastOf?, List.filter_append, List.getLast?_append, Option.map_or]
  rfl

theorem lastOf?_singleton (key : Text) (pair : Text × Text) :
    lastOf? key [pair] = if key = pair.1 then some pair.2 else none := by
  by_cases h : key = pair.1
  · simp [lastOf?, h]
  · simp [lastOf?, h, Ne.symm h]

theorem lastOf?_isSome {key : Text} {pairs : List (Text × Text)} :
    (lastOf? key pairs).isSome ↔ key ∈ pairs.map Prod.fst := by
  rw [lastOf?, Option.isSome_map, List.getLast?_isSome, ne_eq, List.filter_eq_nil_iff]
  simp

@[simp] theorem template_bind (b : Block) (key text : Text) :
    (b.bind key text).template = b.template := by
  cases b
  rfl

@[simp] theorem style_bind (b : Block) (key text : Text) : (b.bind key text).style = b.style := by
  cases b
  rfl

@[simp] theorem pending_bind (b : Block) (key text : Text) :
    (b.bind key text).pending = b.pending := by
  cases b
  rfl

@[simp] theorem name_bind (b : Block) (key text : Text) : (b.bind key text).name = b.name := by
  cases b
  rfl

theorem children_bind (b : Block) (key text : Text) :
    (b.bind key text).children = b.children.map (bind key text) := by
  cases b
  exact bindAll_eq_map ..

theorem boundText?_bind (b : Block) (key text k : Text) :
    (b.bind key text).boundText? k = if k = key then some text else b.boundText? k := by
  obtain ⟨name, template, children, bindings, pending, style⟩ := b
  exact Bindings.get?_put bindings key text k

/-- What binding one text leaves alone stays as it is when a value is assigned. -/
theorem assign_of_bind {α : Type} {f : Block → α}
    (h : ∀ b key text, f (bind key text b) = f b) (b : Block) (key : Text) (value : Value) :
    f (b.assign key value) = f b := by
  rw [assign]
  induction value.flatten key generalizing b with
  | nil => rfl
  | cons scalar scalars ih => rw [List.foldl_cons, ih, h]

@[simp] theorem pending_assign (b : Block) (key : Text) (value : Value) :
    (b.assign key value).pending = b.pending :=
  assign_of_bind pending_bind b key value

theorem children_assign (b : Block) (key : Text) (value : Value) :
    (b.assign key value).children = b.children.map fun c => c.assign key value := by
  simp only [assign]
  induction value.flatten key generalizing b with
  | nil => simp
  | cons scalar scalars ih =>
    rw [List.foldl_cons, ih, children_bind, List.map_map]
    rfl

/-- After an assignment a key has the last scalar that the value gives it. -/
theorem boundText?_assign (b : Block) (key : Text) (value : Value) (k : Text) :
    (b.assign key value).boundText? k =
      (lastOf? k (value.flatten key)).or (b.boundText? k) := by
  rw [assign]
  induction value.flatten key generalizing b with
  | nil => rfl
  | cons scalar scalars ih =>
    rw [List.foldl_cons, ih, boundText?_bind, ← List.singleton_append, lastOf?_append,
      lastOf?_singleton, Option.or_assoc]
    congr 1
    split <;> rfl

end BlockTemplate.Block
