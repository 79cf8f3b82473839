import BlockTemplate.Block.Build
import BlockTemplate.Proofs.Level.Regions
import BlockTemplate.Proofs.Rendering.Row

/-!
A level as a row of slots. The text kept up to the first region leads the row, each region is a
slot of its name, and the text kept behind it reaches up to the next region. What holds of a
level may hold throughout a text: at its own level and at those of all bodies that are read.
-/
namespace BlockTemplate

open Text

namespace Level

/-- The text before the first region. -/
def lead : Level → Text
  | [] => []
  | .kept p :: rest => p.text ++ lead rest
  | .region _ :: _ => []

/-- The regions as entries of a row, where `out` says what takes the place of each. -/
def entries (out : Region → Text) : Level → List Slot.Entry
  | [] => []
  | .kept _ :: rest => entries out rest
  | .region r :: rest => ⟨r.name, out r, lead rest⟩ :: entries out rest

/-- The text of the level with something else in the place of each region. -/
def fillWith (out : Region → Text) (level : Level) : Text :=
  level.flatMap fun
    | .kept p => p.text
    | .region r => out r

/-- No text between two regions is the name of a region that stands to the left of both. -/
def Separated (level : Level) : Prop := Slot.Separated (entries Region.bodyText level)

/-- The regions have names, and no two of them have the same. -/
def Distinct (level : Level) : Prop :=
  (∀ r ∈ level.filterMap Part.region?, r.name ≠ []) ∧
    ((level.filterMap Part.region?).map Region.name).Nodup

/-- The level of a text, and as many levels of the bodies below it, have a property. -/
def Throughout (P : Level → Prop) (mode : MatchMode) : Nat → Text → Prop
  | 0, _ => True
  | levels + 1, t => P (ofText mode t) ∧
      ∀ r ∈ (ofText mode t).filterMap Part.region?, Throughout P mode levels r.bodyText

instance : DecidablePred Separated := fun level =>
  inferInstanceAs (Decidable ((entries Region.bodyText level).dropLast.Pairwise _))

instance : DecidablePred Distinct := fun _ => inferInstanceAs (Decidable (_ ∧ _))

instance decidableThroughout (P : Level → Prop) [DecidablePred P] (mode : MatchMode) :
    (levels : Nat) → (t : Text) → Decidable (Throughout P mode levels t)
  | 0, _ => isTrue trivial
  | levels + 1, t =>
    have := decidableThroughout P mode levels
    inferInstanceAs (Decidable (P (ofText mode t) ∧
      ∀ r ∈ (ofText mode t).filterMap Part.region?, Throughout P mode levels r.bodyText))

variable {mode : MatchMode} {t : Text} {level : Level} {out : Region → Text}

theorem slotted_eq_rowTemplate (out : Region → Text) (level : Level) :
    Block.slotted level = Slot.rowTemplate (lead level) (entries out level) := by
  induction level with
  | nil => rfl
  | cons part rest ih =>
    cases part with
    | kept p =>
      have hcons : Block.slotted (.kept p :: rest) = p.text ++ Block.slotted rest := rfl
      rw [hcons, ih]
      simp [lead, entries, Slot.rowTemplate]
    | region r =>
      have hcons : Block.slotted (.region r :: rest) = Slot.ofName r.name ++ Block.slotted rest :=
        rfl
      rw [hcons, ih]
      simp [lead, entries, Slot.rowTemplate]

theorem fillWith_eq_rowFilled (out : Region → Text) (level : Level) :
    fillWith out level = Slot.rowFilled (lead level) (entries out level) := by
  induction level with
  | nil => rfl
  | cons part rest ih =>
    cases part with
    | kept p =>
      have hcons : fillWith out (.kept p :: rest) = p.text ++ fillWith out rest := rfl
      rw [hcons, ih]
      simp [lead, entries, Slot.rowFilled]
    | region r =>
      have hcons : fillWith out (.region r :: rest) = out r ++ fillWith out rest := rfl
      rw [hcons, ih]
      simp [lead, entries, Slot.rowFilled]

theorem map_pair_entries (out : Region → Text) (level : Level) :
    (entries out level).map Slot.pair =
      (level.filterMap Part.region?).map fun r => (r.name, out r) := by
  induction level with
  | nil => rfl
  | cons part rest ih => cases part <;> simp [entries, List.filterMap_cons, Slot.pair, ih]

theorem map_name_entries (out : Region → Text) (level : Level) :
    (entries out level).map Slot.Entry.name =
      (level.filterMap Part.region?).map Region.name := by
  induction level with
  | nil => rfl
  | cons part rest ih => cases part <;> simp [entries, List.filterMap_cons, ih]

/-- Whether a level is separated does not depend on what takes the place of its regions. -/
theorem separated_entries (h : Separated level) (out : Region → Text) :
    Slot.Separated (entries out level) := by
  have hmap : ∀ out', (entries out level).map (fun e => (e.name, e.after)) =
      (entries out' level).map fun e => (e.name, e.after) := by
    intro out'
    clear h
    induction level with
    | nil => rfl
    | cons part rest ih => cases part <;> simp [entries, ih]
  have hpairs : ∀ row : List Slot.Entry, Slot.Separated row ↔
      (row.map fun e => (e.name, e.after)).dropLast.Pairwise fun e e' => e'.2 ≠ e.1 := by
    intro row
    rw [← List.map_dropLast, List.pairwise_map]
    rfl
  rw [hpairs, hmap Region.bodyText, ← hpairs]
  exact h

theorem notMem_lead {c : Char} (h : ∀ p, Part.kept p ∈ level → c ∉ p.text) : c ∉ lead level := by
  induction level with
  | nil => simp [lead]
  | cons part rest ih =>
    cases part with
    | region r => simp [lead]
    | kept p =>
      rw [lead, List.mem_append, not_or]
      exact ⟨h p List.mem_cons_self, ih fun q hq => h q (List.mem_cons_of_mem _ hq)⟩

theorem exists_of_mem_entries {e : Slot.Entry} (h : e ∈ entries out level) :
    ∃ before r after, level = before ++ .region r :: after ∧ e = ⟨r.name, out r, lead after⟩ := by
  induction level with
  | nil => cases h
  | cons part rest ih =>
    have hlater : e ∈ entries out rest → ∃ before r after,
        part :: rest = before ++ .region r :: after ∧ e = ⟨r.name, out r, lead after⟩ := by
      intro hrest
      obtain ⟨before, r, after, rfl, he⟩ := ih hrest
      exact ⟨part :: before, r, after, rfl, he⟩
    cases part with
    | kept p => exact hlater h
    | region r =>
      rcases List.mem_cons.mp h with rfl | hrest
      · exact ⟨[], r, rest, rfl, rfl⟩
      · exact hlater hrest

variable {c : Char}

theorem notMem_name {r : Region} (ht : c ∉ t) (h : Part.region r ∈ ofText mode t) : c ∉ r.name := by
  have hmem : r.opening ∈ Piece.ofText t := (infix_of_region_mem h).subset (by simp)
  intro hc
  exact Piece.notMem_of_mem_ofText ht hmem ((written_opening h).subset_of_opening hc)

theorem notMem_bodyText {r : Region} (ht : c ∉ t) (h : Part.region r ∈ ofText mode t) :
    c ∉ r.bodyText := by
  intro hc
  obtain ⟨p, hp, hmem⟩ := List.mem_flatMap.mp hc
  exact Piece.notMem_of_mem_ofText ht (mem_of_mem_body h hp) hmem

end Level
end BlockTemplate
