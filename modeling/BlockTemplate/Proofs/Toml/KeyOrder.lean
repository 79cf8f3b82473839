import BlockTemplate.Proofs.Text.Utf8
import BlockTemplate.Toml.Value
import Mathlib.Data.List.Induction

/-!
The order of the entries of tables. Sorting puts keys in the order of their bytes and keeps for
each key the value that was written last. In the values of a document all tables are sorted, in
whatever depth.
-/
namespace BlockTemplate

open Text

namespace Value

/-- The keys have strictly ascending bytes. -/
def Ascending (entries : List (Text × Value)) : Prop :=
  entries.Pairwise fun e e' => utf8 e.1 < utf8 e'.1

/-- Each map within the value has its entries in the order of their keys. -/
inductive Ordered : Value → Prop
  | scalar (text : Text) : Ordered (scalar text)
  | list {items : List Value} (h : ∀ item ∈ items, Ordered item) : Ordered (list items)
  | map {entries : List (Text × Value)} (hascending : Ascending entries)
      (h : ∀ e ∈ entries, Ordered e.2) : Ordered (map entries)

theorem mem_of_mem_putSorted {key : Text} {value : Value} {entries : List (Text × Value)}
    {e : Text × Value} (h : e ∈ putSorted key value entries) :
    e = (key, value) ∨ e ∈ entries := by
  induction entries with
  | nil => simpa [putSorted] using h
  | cons first entries ih =>
    rw [putSorted] at h
    split at h
    · rcases List.mem_cons.mp h with rfl | h
      · exact Or.inl rfl
      · exact Or.inr (List.mem_cons_of_mem _ h)
    · split at h
      · exact List.mem_cons.mp h
      · rcases List.mem_cons.mp h with rfl | h
        · exact Or.inr List.mem_cons_self
        · exact (ih h).imp_right (List.mem_cons_of_mem _)

theorem ascending_putSorted (key : Text) (value : Value) {entries : List (Text × Value)}
    (h : Ascending entries) : Ascending (putSorted key value entries) := by
  induction entries with
  | nil => exact List.pairwise_singleton ..
  | cons first entries ih =>
    obtain ⟨hfirst, hentries⟩ := List.pairwise_cons.mp h
    rw [putSorted]
    split
    · next heq => exact List.pairwise_cons.mpr ⟨fun e he => heq ▸ hfirst e he, hentries⟩
    · next hne =>
      split
      · next hlt =>
        have hbytes : utf8 key < utf8 first.1 := utf8_lt_iff.mpr hlt
        refine List.pairwise_cons.mpr ⟨fun e he => ?_, h⟩
        rcases List.mem_cons.mp he with rfl | he
        · exact hbytes
        · exact List.lt_trans hbytes (hfirst e he)
      · next hnot =>
        have hgt : first.1 < key := by
          rcases @lt_trichotomy (List Char) _ key first.1 with hlt | heq | hgt
          · exact absurd hlt hnot
          · exact absurd heq hne
          · exact hgt
        refine List.pairwise_cons.mpr ⟨fun e he => ?_, ih hentries⟩
        rcases mem_of_mem_putSorted he with rfl | he
        · exact utf8_lt_iff.mpr hgt
        · exact hfirst e he

theorem lookup_cons_eq_ite (k : Text) (e : Text × Value) (entries : List (Text × Value)) :
    (e :: entries).lookup k = if k = e.1 then some e.2 else entries.lookup k := by
  obtain ⟨key, value⟩ := e
  by_cases h : k = key
  · simp [h]
  · simp [List.lookup_cons, beq_eq_false_iff_ne.mpr h, h]

theorem lookup_putSorted (key k : Text) (value : Value) (entries : List (Text × Value)) :
    (putSorted key value entries).lookup k =
      if k = key then some value else entries.lookup k := by
  induction entries with
  | nil => exact lookup_cons_eq_ite ..
  | cons first entries ih =>
    rw [putSorted, lookup_cons_eq_ite k first]
    split
    · next heq =>
      rw [lookup_cons_eq_ite, ← heq]
      split <;> rfl
    · next hne =>
      split
      · rw [lookup_cons_eq_ite, lookup_cons_eq_ite]
      · rw [lookup_cons_eq_ite, ih]
        by_cases h : k = key
        · have hfirst : k ≠ first.1 := h ▸ hne
          rw [if_neg hfirst, if_pos h, if_pos h]
        · rw [if_neg h, if_neg h]

theorem sortByKey_append_singleton (entries : List (Text × Value)) (e : Text × Value) :
    sortByKey (entries ++ [e]) = putSorted e.1 e.2 (sortByKey entries) := by
  simp [sortByKey]

/-- The entries have ascending keys, each key the value that was written last with it, and in the
values all maps are in the order of their keys too. -/
structure InKeyOrder (written entries : List (Text × Value)) : Prop where
  ascending : Ascending entries
  lookup : ∀ key, entries.lookup key = written.reverse.lookup key
  ordered : ∀ e ∈ entries, e.2.Ordered

theorem inKeyOrder_sortByKey {written : List (Text × Value)} (h : ∀ e ∈ written, e.2.Ordered) :
    InKeyOrder written (sortByKey written) := by
  induction written using List.reverseRecOn with
  | nil => exact ⟨List.Pairwise.nil, fun _ => rfl, fun e he => by cases he⟩
  | append_singleton written e ih =>
    have hwritten := ih fun e' he' => h e' (List.mem_append_left _ he')
    rw [sortByKey_append_singleton]
    refine ⟨ascending_putSorted _ _ hwritten.ascending, fun key => ?_, fun e' he' => ?_⟩
    · rw [lookup_putSorted, hwritten.lookup, List.reverse_append, List.reverse_singleton,
        List.singleton_append, lookup_cons_eq_ite]
    · rcases mem_of_mem_putSorted he' with rfl | he'
      · exact h e (by simp)
      · exact hwritten.ordered e' he'

end Value

namespace Toml

open Value

theorem ordered_tableValue? {entries : List (Text × Node)} {values : Option (List (Text × Value))}
    (h : ∀ vs, values = some vs → ∀ e ∈ vs, e.2.Ordered) {v : Value}
    (hv : tableValue? entries values = some v) : v.Ordered := by
  have hmap : ∀ {v}, values.map sortedMap = some v → v.Ordered := by
    intro v hv
    obtain ⟨vs, hvs, rfl⟩ := Option.map_eq_some_iff.mp hv
    have hsorted := inKeyOrder_sortByKey (h vs hvs)
    exact .map hsorted.ascending hsorted.ordered
  rw [tableValue?.eq_def] at hv
  split at hv
  · split at hv
    · obtain ⟨d, -, rfl⟩ := Option.map_eq_some_iff.mp hv
      exact .scalar _
    · exact hmap hv
  · exact hmap hv

mutual

theorem Node.ordered_value? : (n : Node) → ∀ v, n.value? = some v → v.Ordered
  | .string _, _, h | .integer _, _, h | .float _, _, h | .boolean _, _, h | .datetime _, _, h => by
    obtain rfl := Option.some.inj h
    exact .scalar _
  | .array items, v, h => by
    rw [Node.value?] at h
    obtain ⟨vs, hvs, rfl⟩ := Option.map_eq_some_iff.mp h
    exact .list (ordered_itemValues? items vs hvs)
  | .inlineTable entries, v, h => by
    rw [Node.value?] at h
    exact ordered_tableValue? (ordered_entryValues? entries) h
  | .table entries, v, h => by
    rw [Node.value?] at h
    exact ordered_tableValue? (ordered_entryValues? entries) h
  | .tables items, v, h => by
    rw [Node.value?] at h
    obtain ⟨vs, hvs, rfl⟩ := Option.map_eq_some_iff.mp h
    exact .list (ordered_tableValues? items vs hvs)

theorem ordered_itemValues? : (ns : List Node) → ∀ vs, itemValues? ns = some vs →
    ∀ v ∈ vs, v.Ordered
  | [], vs, h => by
    obtain rfl := Option.some.inj h
    simp
  | n :: ns, vs, h => by
    simp only [itemValues?, Option.bind_eq_bind, Option.bind_eq_some_iff, Option.pure_def,
      Option.some.injEq] at h
    obtain ⟨v, hv, rest, hrest, rfl⟩ := h
    exact List.forall_mem_cons.mpr ⟨n.ordered_value? v hv, ordered_itemValues? ns rest hrest⟩

theorem ordered_entryValues? : (es : List (Text × Node)) → ∀ vs, entryValues? es = some vs →
    ∀ e ∈ vs, e.2.Ordered
  | [], vs, h => by
    obtain rfl := Option.some.inj h
    simp
  | (key, n) :: es, vs, h => by
    simp only [entryValues?, Option.bind_eq_bind, Option.bind_eq_some_iff, Option.pure_def,
      Option.some.injEq] at h
    obtain ⟨v, hv, rest, hrest, rfl⟩ := h
    exact List.forall_mem_cons.mpr ⟨n.ordered_value? v hv, ordered_entryValues? es rest hrest⟩

theorem ordered_tableValues? : (ts : List (List (Text × Node))) → ∀ vs, tableValues? ts = some vs →
    ∀ v ∈ vs, v.Ordered
  | [], vs, h => by
    obtain rfl := Option.some.inj h
    simp
  | t :: ts, vs, h => by
    simp only [tableValues?, Option.bind_eq_bind, Option.bind_eq_some_iff, Option.pure_def,
      Option.some.injEq] at h
    obtain ⟨v, hv, rest, hrest, rfl⟩ := h
    exact List.forall_mem_cons.mpr
      ⟨ordered_tableValue? (ordered_entryValues? t) hv, ordered_tableValues? ts rest hrest⟩

end

end Toml
end BlockTemplate
