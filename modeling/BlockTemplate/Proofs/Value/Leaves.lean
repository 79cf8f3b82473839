import BlockTemplate.Value
import Mathlib.Data.List.Basic
import Mathlib.Data.List.Lex
import Mathlib.Data.List.Nodup

/-!
The scalars inside a value. Each stands at a place, told by the positions of the parts that lead
to it, and is bound to the names of these parts. If the keys of each map are pairwise distinct and
have no dot in them, two scalars at different places are bound to different keys.
-/
namespace BlockTemplate

/-- A scalar inside a value, with the names of the parts that lead to it. -/
structure Leaf where
  place : List Nat
  names : List Text
  text : Text
deriving DecidableEq, Repr

namespace Leaf

/-- The leaf of a part, seen from the value that has the part at position `i`. -/
def under (i : Nat) (name : Text) (leaf : Leaf) : Leaf :=
  ⟨i :: leaf.place, name :: leaf.names, leaf.text⟩

/-- The key that the leaf is bound to if its value is assigned to `root`. -/
def key (root : Text) (leaf : Leaf) : Text := leaf.names.foldl Value.dotted root

end Leaf

namespace Value

def numbered (index : Nat) : List Value → List (Text × Value)
  | [] => []
  | item :: items => (Text.ofNat index, item) :: numbered (index + 1) items

/-- What a structured value is made of, each part with its name: the position of an item, the key
of an entry. -/
def parts : Value → List (Text × Value)
  | scalar _ => []
  | list items => numbered 0 items
  | map entries => entries

/-- The names of the parts that lead to a place, and what stands there. -/
def reach? (v : Value) : List Nat → Option (List Text × Value)
  | [] => some ([], v)
  | i :: place => v.parts[i]?.bind fun part =>
    (reach? part.2 place).map fun found => (part.1 :: found.1, found.2)

/-- In every map inside the value the keys are pairwise distinct and have no dot in them. -/
def Undotted (v : Value) : Prop :=
  ∀ place names entries, v.reach? place = some (names, map entries) →
    (entries.map Prod.fst).Nodup ∧ ∀ e ∈ entries, '.' ∉ e.1

mutual

/-- The scalars inside a value, depth first. -/
def leaves : Value → List Leaf
  | scalar text => [⟨[], [], text⟩]
  | list items => leavesOfItems 0 items
  | map entries => leavesOfEntries 0 entries

/-- The leaves of parts in a row, the first of these being at position `i`. -/
def leavesOfItems (i : Nat) : List Value → List Leaf
  | [] => []
  | item :: items =>
    (leaves item).map (Leaf.under i (Text.ofNat i)) ++ leavesOfItems (i + 1) items

def leavesOfEntries (i : Nat) : List (Text × Value) → List Leaf
  | [] => []
  | (sub, item) :: entries =>
    (leaves item).map (Leaf.under i sub) ++ leavesOfEntries (i + 1) entries

end

/-! Items are handled as entries whose keys are numbers. -/

theorem flattenItems_eq (key : Text) (i : Nat) (items : List Value) :
    flattenItems key i items = flattenEntries key (numbered i items) := by
  induction items generalizing i with
  | nil => rfl
  | cons item items ih => rw [flattenItems, numbered, flattenEntries, ih]

theorem leavesOfItems_eq (i : Nat) (items : List Value) :
    leavesOfItems i items = leavesOfEntries i (numbered i items) := by
  induction items generalizing i with
  | nil => rfl
  | cons item items ih => rw [leavesOfItems, numbered, leavesOfEntries, ih]

theorem flattenEntries_eq (key : Text) (entries : List (Text × Value)) :
    flattenEntries key entries = entries.flatMap fun e => e.2.flatten (dotted key e.1) := by
  induction entries with
  | nil => rfl
  | cons e entries ih => rw [flattenEntries, List.flatMap_cons, ih]

theorem leavesOfEntries_eq (i : Nat) (entries : List (Text × Value)) :
    leavesOfEntries i entries =
      (entries.zipIdx i).flatMap fun x => x.1.2.leaves.map (Leaf.under x.2 x.1.1) := by
  induction entries generalizing i with
  | nil => rfl
  | cons e entries ih => rw [leavesOfEntries, List.zipIdx_cons, List.flatMap_cons, ih]

variable {v : Value}

theorem flatten_of_parts (h : v.scalar? = none) (key : Text) :
    v.flatten key = v.parts.flatMap fun part => part.2.flatten (dotted key part.1) := by
  cases v with
  | scalar text => cases h
  | list items => rw [flatten, flattenItems_eq, flattenEntries_eq, parts]
  | map entries => rw [flatten, flattenEntries_eq, parts]

theorem leaves_of_parts (h : v.scalar? = none) :
    v.leaves = v.parts.zipIdx.flatMap fun x => x.1.2.leaves.map (Leaf.under x.2 x.1.1) := by
  cases v with
  | scalar text => cases h
  | list items => rw [leaves, leavesOfItems_eq, leavesOfEntries_eq, parts]
  | map entries => rw [leaves, leavesOfEntries_eq, parts]

/-- What holds of every scalar, and of a structured value if it holds of its parts, holds of all
values. -/
theorem parts_induction {P : Value → Prop} (scalar : ∀ text, P (scalar text))
    (structured : ∀ v : Value, v.scalar? = none → (∀ part ∈ v.parts, P part.2) → P v)
    (v : Value) : P v := by
  refine @Value.rec P (fun items => ∀ i, ∀ part ∈ numbered i items, P part.2)
    (fun entries => ∀ part ∈ entries, P part.2) (fun part => P part.2) scalar
    (fun items ih => structured (list items) rfl (ih 0))
    (fun entries ih => structured (map entries) rfl ih) ?_ ?_ ?_ ?_ (fun _ _ ih => ih) v
  · intro i part hpart
    cases hpart
  · intro item items hitem hitems i part hpart
    rcases List.mem_cons.mp hpart with rfl | hpart
    · exact hitem
    · exact hitems (i + 1) part hpart
  · intro part hpart
    cases hpart
  · intro entry entries hentry hentries part hpart
    rcases List.mem_cons.mp hpart with rfl | hpart
    · exact hentry
    · exact hentries part hpart

/-- The scalars of a value with their keys are its leaves with theirs. -/
theorem flatten_eq_map_leaves (v : Value) (root : Text) :
    v.flatten root = v.leaves.map fun leaf => (leaf.key root, leaf.text) := by
  induction v using parts_induction generalizing root with
  | scalar text => rfl
  | structured v hv ih =>
    have hparts : v.parts = v.parts.zipIdx.map Prod.fst := by simp
    rw [flatten_of_parts hv, leaves_of_parts hv, List.map_flatMap]
    nth_rewrite 1 [hparts]
    rw [List.flatMap_map]
    refine List.flatMap_congr fun x hx => ?_
    rw [ih x.1 (List.fst_mem_of_mem_zipIdx hx), List.map_map]
    rfl

theorem reach?_cons_eq_some_iff {i : Nat} {place : List Nat} {names : List Text} {w : Value} :
    v.reach? (i :: place) = some (names, w) ↔ ∃ part names', v.parts[i]? = some part ∧
      part.2.reach? place = some (names', w) ∧ names = part.1 :: names' := by
  rw [reach?, Option.bind_eq_some_iff]
  constructor
  · rintro ⟨part, hpart, h⟩
    obtain ⟨⟨names', w'⟩, hreach, heq⟩ := Option.map_eq_some_iff.mp h
    obtain ⟨rfl, rfl⟩ := Prod.mk.inj heq
    exact ⟨part, names', hpart, hreach, rfl⟩
  · rintro ⟨part, names', hpart, hreach, rfl⟩
    exact ⟨part, hpart, by rw [hreach]; rfl⟩

theorem mem_leaves_of_parts_iff (h : v.scalar? = none) {leaf : Leaf} :
    leaf ∈ v.leaves ↔ ∃ (i : Nat) (part : Text × Value), v.parts[i]? = some part ∧
      ∃ inner ∈ part.2.leaves, inner.under i part.1 = leaf := by
  rw [leaves_of_parts h, List.mem_flatMap]
  constructor
  · rintro ⟨⟨part, i⟩, hpart, hleaf⟩
    exact ⟨i, part, List.mem_zipIdx_iff_getElem?.mp hpart, List.mem_map.mp hleaf⟩
  · rintro ⟨i, part, hpart, hleaf⟩
    exact ⟨(part, i), List.mem_zipIdx_iff_getElem?.mpr hpart, List.mem_map.mpr hleaf⟩

/-- The leaves are all the scalars that can be reached. -/
theorem mem_leaves_iff {leaf : Leaf} :
    leaf ∈ v.leaves ↔ v.reach? leaf.place = some (leaf.names, scalar leaf.text) := by
  obtain ⟨place, names, text⟩ := leaf
  induction v using parts_induction generalizing place names with
  | scalar t =>
    cases place with
    | nil => simp [leaves, reach?, eq_comm]
    | cons i place => simp [leaves, reach?, parts]
  | structured v hv ih =>
    rw [mem_leaves_of_parts_iff hv]
    cases place with
    | nil =>
      have hne : v ≠ scalar text := by
        rintro rfl
        cases hv
      simp [reach?, hne, Leaf.under]
    | cons i place =>
      rw [reach?_cons_eq_some_iff]
      constructor
      · rintro ⟨j, part, hpart, inner, hinner, heq⟩
        obtain ⟨hplace, rfl, rfl⟩ := Leaf.mk.inj heq
        obtain ⟨rfl, rfl⟩ := List.cons.inj hplace
        exact ⟨part, inner.names, hpart,
          (ih part (List.mem_of_getElem? hpart) inner.place inner.names).mp hinner, rfl⟩
      · rintro ⟨part, names', hpart, hreach, rfl⟩
        exact ⟨i, part, hpart, ⟨place, names', text⟩,
          (ih part (List.mem_of_getElem? hpart) place names').mpr hreach, rfl⟩

/-- Leaves are in the order of their places: those of a part stand before those of any later
part. -/
theorem pairwise_leaves (v : Value) : v.leaves.Pairwise fun x y => x.place < y.place := by
  induction v using parts_induction with
  | scalar text => exact List.pairwise_singleton _ _
  | structured v hv ih =>
    rw [leaves_of_parts hv, List.pairwise_flatMap]
    constructor
    · intro x hx
      rw [List.pairwise_map]
      refine (ih x.1 (List.fst_mem_of_mem_zipIdx hx)).imp fun hlt => ?_
      exact List.cons_lt_cons_iff.mpr (Or.inr ⟨rfl, hlt⟩)
    · have hpositions : v.parts.zipIdx.Pairwise fun x y => x.2 < y.2 := by
        rw [← List.pairwise_map (f := Prod.snd), List.zipIdx_map_snd]
        exact List.pairwise_lt_range'
      refine hpositions.imp fun hlt leaf hleaf leaf' hleaf' => ?_
      obtain ⟨inner, -, rfl⟩ := List.mem_map.mp hleaf
      obtain ⟨inner', -, rfl⟩ := List.mem_map.mp hleaf'
      exact List.cons_lt_cons_iff.mpr (Or.inl hlt)

theorem length_of_reach? {place : List Nat} {names : List Text} {w : Value}
    (h : v.reach? place = some (names, w)) : names.length = place.length := by
  induction place generalizing v names with
  | nil =>
    obtain ⟨rfl, -⟩ := Prod.mk.inj (Option.some.inj h)
    rfl
  | cons i place ih =>
    obtain ⟨part, names', -, hreach, rfl⟩ := reach?_cons_eq_some_iff.mp h
    rw [List.length_cons, List.length_cons, ih hreach]

/-- A value is undotted if its own keys are and all its parts are. -/
theorem undotted_iff : v.Undotted ↔
    (∀ entries, v = map entries → (entries.map Prod.fst).Nodup ∧ ∀ e ∈ entries, '.' ∉ e.1) ∧
      ∀ part ∈ v.parts, part.2.Undotted := by
  constructor
  · intro h
    refine ⟨fun entries hv => h [] [] entries (by rw [hv]; rfl), ?_⟩
    intro part hpart place names entries hreach
    obtain ⟨i, hi⟩ := List.mem_iff_getElem?.mp hpart
    exact h (i :: place) (part.1 :: names) entries
      (reach?_cons_eq_some_iff.mpr ⟨part, names, hi, hreach, rfl⟩)
  · rintro ⟨hown, hparts⟩ place names entries hreach
    cases place with
    | nil => exact hown entries (Prod.mk.inj (Option.some.inj hreach)).2
    | cons i place =>
      obtain ⟨part, names', hpart, hreach, -⟩ := reach?_cons_eq_some_iff.mp hreach
      exact hparts part (List.mem_of_getElem? hpart) place names' entries hreach

theorem map_fst_numbered (i : Nat) (items : List Value) :
    (numbered i items).map Prod.fst = (List.range' i items.length).map Text.ofNat := by
  induction items generalizing i with
  | nil => rfl
  | cons item items ih => simp [numbered, ih, List.range'_succ]

theorem map_snd_numbered (i : Nat) (items : List Value) :
    (numbered i items).map Prod.snd = items := by
  induction items generalizing i with
  | nil => rfl
  | cons item items ih => rw [numbered, List.map_cons, ih]

@[simp] theorem undotted_scalar (text : Text) : (scalar text).Undotted := by
  rw [undotted_iff, parts]
  simp

@[simp] theorem undotted_list {items : List Value} :
    (list items).Undotted ↔ ∀ item ∈ items, item.Undotted := by
  have hitems : (∀ part ∈ numbered 0 items, part.2.Undotted) ↔ ∀ item ∈ items, item.Undotted := by
    conv_rhs => rw [← map_snd_numbered 0 items, List.forall_mem_map]
  rw [undotted_iff, parts, hitems]
  simp

@[simp] theorem undotted_map {entries : List (Text × Value)} :
    (map entries).Undotted ↔ (entries.map Prod.fst).Nodup ∧ (∀ e ∈ entries, '.' ∉ e.1) ∧
      ∀ e ∈ entries, e.2.Undotted := by
  rw [undotted_iff, parts, and_assoc.symm]
  simp

namespace Undotted

variable {place place' : List Nat} {names : List Text} {w w' : Value}

theorem nodup_names (h : v.Undotted) : (v.parts.map Prod.fst).Nodup := by
  cases v with
  | scalar text => exact List.nodup_nil
  | list items =>
    rw [parts, map_fst_numbered]
    exact List.Nodup.map (fun _ _ => Text.ofNat_injective) List.nodup_range'
  | map entries => exact ((undotted_iff.mp h).1 entries rfl).1

theorem notMem_name (h : v.Undotted) : ∀ part ∈ v.parts, '.' ∉ part.1 := by
  cases v with
  | scalar text => simp [parts]
  | list items =>
    intro part hpart hdot
    have hname : part.1 ∈ (numbered 0 items).map Prod.fst := List.mem_map_of_mem hpart
    rw [map_fst_numbered] at hname
    obtain ⟨n, -, hn⟩ := List.mem_map.mp hname
    have hdigit := Text.isDigit_of_mem_ofNat (hn ▸ hdot)
    revert hdigit
    decide
  | map entries => exact ((undotted_iff.mp h).1 entries rfl).2

/-- The names that lead to a place have no dots in them. -/
theorem notMem_of_reach? (h : v.Undotted) (hreach : v.reach? place = some (names, w)) :
    ∀ name ∈ names, '.' ∉ name := by
  induction place generalizing v names with
  | nil =>
    obtain ⟨rfl, -⟩ := Prod.mk.inj (Option.some.inj hreach)
    simp
  | cons i place ih =>
    obtain ⟨part, rest, hpart, hrest, rfl⟩ := reach?_cons_eq_some_iff.mp hreach
    have hmem := List.mem_of_getElem? hpart
    intro name hname
    rcases List.mem_cons.mp hname with rfl | hname
    · exact h.notMem_name part hmem
    · exact ih ((undotted_iff.mp h).2 part hmem) hrest name hname

/-- The same names lead to one place only. -/
theorem place_unique (h : v.Undotted) (hreach : v.reach? place = some (names, w))
    (hreach' : v.reach? place' = some (names, w')) : place = place' := by
  induction place generalizing v names place' with
  | nil =>
    have hlen := (length_of_reach? hreach).symm.trans (length_of_reach? hreach')
    exact (List.eq_nil_of_length_eq_zero hlen.symm).symm
  | cons i place ih =>
    obtain ⟨part, rest, hpart, hrest, rfl⟩ := reach?_cons_eq_some_iff.mp hreach
    cases place' with
    | nil => exact absurd (length_of_reach? hreach') (by simp)
    | cons j place' =>
      obtain ⟨part', rest', hpart', hrest', heq⟩ := reach?_cons_eq_some_iff.mp hreach'
      obtain ⟨hname, rfl⟩ := List.cons.inj heq
      have hi : i < (v.parts.map Prod.fst).length := by
        rw [List.length_map]
        exact (List.getElem?_eq_some_iff.mp hpart).1
      have hij : i = j := by
        apply (List.getElem?_inj hi h.nodup_names).mp
        rw [List.getElem?_map, List.getElem?_map, hpart, hpart', Option.map_some, Option.map_some,
          hname]
      subst hij
      obtain rfl := Option.some.inj (hpart.symm.trans hpart')
      rw [ih ((undotted_iff.mp h).2 part (List.mem_of_getElem? hpart)) hrest hrest']

end Undotted

theorem foldl_dotted (root : Text) (names : List Text) :
    names.foldl dotted root = root ++ Text.join ['.'] ([] :: names) := by
  have hcons : ∀ (name : Text) (names : List Text),
      Text.join ['.'] (name :: names) = name ++ Text.join ['.'] ([] :: names) := by
    intro name names
    cases names <;> simp [Text.join]
  induction names generalizing root with
  | nil => simp [Text.join]
  | cons name names ih =>
    rw [List.foldl_cons, ih, dotted, Text.join, Text.join, List.intercalate_cons_cons, ← Text.join,
      ← Text.join, hcons name names]
    simp

/-- Names without dots can be read off the key that they are joined to. -/
theorem names_of_foldl_dotted {root : Text} {names names' : List Text}
    (h : ∀ name ∈ names, '.' ∉ name) (h' : ∀ name ∈ names', '.' ∉ name)
    (heq : names.foldl dotted root = names'.foldl dotted root) : names = names' := by
  have hsplit : ∀ {ns : List Text}, (∀ name ∈ ns, '.' ∉ name) →
      (Text.join ['.'] ([] :: ns)).splitOn '.' = [] :: ns := by
    intro ns hns
    exact List.splitOn_intercalate '.' (by simpa using hns) (List.cons_ne_nil _ _)
  rw [foldl_dotted, foldl_dotted, List.append_cancel_left_eq] at heq
  have hlists := hsplit h
  rw [heq, hsplit h'] at hlists
  exact (List.cons.inj hlists).2.symm

/-- If the keys of each map are pairwise distinct and have no dots, different scalars of a value
are bound to different keys. -/
theorem Undotted.nodup_keys (h : v.Undotted) (root : Text) :
    (v.leaves.map (Leaf.key root)).Nodup := by
  rw [List.nodup_iff_pairwise_ne, List.pairwise_map]
  refine List.Pairwise.imp_of_mem ?_ (pairwise_leaves v)
  intro x y hx hy hlt hkey
  have hreach := mem_leaves_iff.mp hx
  have hreach' := mem_leaves_iff.mp hy
  have hnames : x.names = y.names :=
    names_of_foldl_dotted (h.notMem_of_reach? hreach) (h.notMem_of_reach? hreach') hkey
  have hplace : x.place = y.place := h.place_unique (hnames ▸ hreach) hreach'
  rw [hplace] at hlt
  exact lt_irrefl _ hlt

end BlockTemplate.Value
