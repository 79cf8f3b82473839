import BlockTemplate.Block.Snapshot
import BlockTemplate.Proofs.Rendering.Clearing
import BlockTemplate.Proofs.Text.Replacement

/-!
Filling slots one name after the other. Only the names and the pending texts of the children
matter. A text in which no slot stands is left alone, and so is the text before the first and
after the last number sign, whatever has been put between them on the way.
-/
namespace BlockTemplate

open Text

namespace Slot

/-- The slots of each name filled with its text, one name after the other. -/
def fill (entries : List (Text × Text)) (t : Text) : Text :=
  entries.foldl (fun t e => replaceAll (ofName e.1) e.2 t) t

@[simp] theorem fill_nil (t : Text) : fill [] t = t := rfl

@[simp] theorem fill_cons (e : Text × Text) (entries : List (Text × Text)) (t : Text) :
    fill (e :: entries) t = fill entries (replaceAll (ofName e.1) e.2 t) := rfl

theorem fill_of_free {t : Text} (h : Free t) (entries : List (Text × Text)) :
    fill entries t = t := by
  induction entries with
  | nil => rfl
  | cons e entries ih => rw [fill_cons, replaceAll_of_notInfix (h e.1), ih]

theorem replaceAll_ofName_append {before after : Text} (hbefore : '#' ∉ before)
    (hafter : '#' ∉ after) (name r t : Text) :
    replaceAll (ofName name) r (before ++ t ++ after) =
      before ++ replaceAll (ofName name) r t ++ after := by
  calc replaceAll (ofName name) r (before ++ t ++ after)
      = replaceAll (ofName name) r (before ++ t) ++ after := by
        rw [ofName_eq_append]
        exact replaceAll_append_of_notMem_last hafter _
    _ = before ++ replaceAll (ofName name) r t ++ after := by
        rw [ofName_eq_cons]
        rw [replaceAll_append_of_notMem hbefore]

/-- Text without number signs around another text stays around it. -/
theorem fill_append {before after : Text} (hbefore : '#' ∉ before) (hafter : '#' ∉ after)
    (entries : List (Text × Text)) (t : Text) :
    fill entries (before ++ t ++ after) = before ++ fill entries t ++ after := by
  induction entries generalizing t with
  | nil => rfl
  | cons e entries ih =>
    rw [fill_cons, replaceAll_ofName_append hbefore hafter, ih, fill_cons]

end Slot

namespace Block

/-- The name and the pending text of a child: what its parent reads of it. -/
def entry (b : Block) : Text × Text := (b.name, b.output)

theorem fillSlots_eq_fill (children : List Block) (t : Text) :
    fillSlots children t = Slot.fill (children.map entry) t := by
  rw [fillSlots, Slot.fill, List.foldl_map]
  rfl

end Block
end BlockTemplate
