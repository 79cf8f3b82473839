import BlockTemplate.Files.Tree
import BlockTemplate.Proofs.Origin.Expanding
import Mathlib.Algebra.Order.BigOperators.Group.List
import Mathlib.Algebra.Order.Group.Nat

/-!
Where the files of an expansion lie. A path with `./` in front is joined to the directory of the
template, and what is joined lies below this directory, unless it begins with a slash. Then it
takes the place of the directory, and the same file is read for all templates. Where a path lies
is told by its components as they are spelled: two dots count as a name and lead nowhere up.
-/
namespace BlockTemplate

open Text FileTree

namespace Path

/-- The dot that a relative path starts with, or the root. -/
def start (p : Path) : List Text :=
  if p.isAbsolute then [['/']]
  else if (p.text.splitOn '/').head? = some ['.'] then [['.']] else []

def components (p : Path) : List Text := p.start ++ names p

/-- The path begins with the components of `base`, and at the root just if `base` does. Components
are taken as they are spelled, and `..` is one like any other. -/
def Below (base p : Path) : Prop :=
  p.isAbsolute = base.isAbsolute ∧ base.components <+: p.components

instance (base p : Path) : Decidable (base.Below p) := inferInstanceAs (Decidable (_ ∧ _))

variable {base p : Path}

theorem isAbsolute_iff : p.isAbsolute = true ↔ ['/'] <+: p.text := List.isPrefixOf_iff_prefix

theorem join_of_isAbsolute (h : p.isAbsolute = true) (base : Path) : base.join p = p := by
  rw [join, if_pos h]

theorem names_append (s t : Text) : names ⟨s ++ '/' :: t⟩ = names ⟨s⟩ ++ names ⟨t⟩ := by
  rw [names, List.splitOn_append_cons_self, List.filter_append]
  rfl

theorem head?_splitOn_append (s t : Text) :
    ((s ++ '/' :: t).splitOn '/').head? = (s.splitOn '/').head? := by
  rw [List.splitOn_append_cons_self]
  exact List.head?_append_of_ne_nil _ (List.splitOn_ne_nil '/' s)

theorem isAbsolute_append {s : Text} (hs : s ≠ []) (t : Text) :
    isAbsolute ⟨s ++ t⟩ = isAbsolute ⟨s⟩ := by
  obtain ⟨c, s, rfl⟩ := List.exists_cons_of_ne_nil hs
  simp [isAbsolute, List.isPrefixOf]

theorem start_append {s : Text} (hs : s ≠ []) (t : Text) : start ⟨s ++ '/' :: t⟩ = start ⟨s⟩ := by
  rw [start, start, isAbsolute_append hs, head?_splitOn_append]

/-- A relative path stands behind its base with one slash between them, unless the base is
empty. -/
theorem join_cases (h : p.isAbsolute = false) (base : Path) :
    base.text = [] ∧ base.join p = p ∨
      ∃ s, (s ≠ [] ∧ base = ⟨s⟩ ∨ base = ⟨s ++ ['/']⟩) ∧ base.join p = ⟨s ++ '/' :: p.text⟩ := by
  obtain ⟨text⟩ := base
  by_cases hempty : text = []
  · exact Or.inl ⟨hempty, by simp [join, h, hempty]⟩
  · right
    by_cases hlast : text.getLast? = some '/'
    · obtain ⟨s, rfl⟩ := List.getLast?_eq_some_iff.mp hlast
      exact ⟨s, Or.inr rfl, by simp [join, h]⟩
    · exact ⟨text, Or.inl ⟨hempty, rfl⟩, by simp [join, h, hempty, hlast]⟩

theorem names_join (h : p.isAbsolute = false) (base : Path) :
    names (base.join p) = names base ++ names p := by
  obtain ⟨hempty, hjoin⟩ | ⟨s, ⟨-, rfl⟩ | rfl, hjoin⟩ := join_cases h base
  · obtain ⟨text⟩ := base
    obtain rfl : text = [] := hempty
    exact congrArg names hjoin
  · rw [hjoin, names_append]
  · rw [hjoin, names_append, names_append]
    simp [names]

/-- A relative path joined to a base lies below it. -/
theorem below_join (h : p.isAbsolute = false) (base : Path) : base.Below (base.join p) := by
  have hnames := names_join h base
  obtain ⟨hempty, hjoin⟩ | ⟨s, ⟨hs, rfl⟩ | rfl, hjoin⟩ := join_cases h base
  · obtain ⟨text⟩ := base
    obtain rfl : text = [] := hempty
    exact ⟨by rw [hjoin, h]; rfl, List.nil_prefix⟩
  · refine ⟨by rw [hjoin, isAbsolute_append hs], ?_⟩
    rw [components, components, hnames, hjoin, start_append hs, ← List.append_assoc]
    exact List.prefix_append _ _
  · have habsolute : isAbsolute ⟨s ++ '/' :: p.text⟩ = isAbsolute ⟨s ++ ['/']⟩ := by
      rw [← List.singleton_append, ← List.append_assoc,
        isAbsolute_append (List.append_ne_nil_of_right_ne_nil s (List.cons_ne_nil _ _))]
    have hstart : start ⟨s ++ '/' :: p.text⟩ = start ⟨s ++ ['/']⟩ := by
      rw [start, start, habsolute, head?_splitOn_append, head?_splitOn_append]
    refine ⟨by rw [hjoin, habsolute], ?_⟩
    rw [components, components, hnames, hjoin, hstart, ← List.append_assoc]
    exact List.prefix_append _ _

theorem not_below_of_isAbsolute (hp : p.isAbsolute = true) (hbase : base.isAbsolute = false) :
    ¬ base.Below p := by
  intro h
  rw [h.1, hbase] at hp
  cases hp

end Path

namespace Origin

variable {files files' : Files} {o : Origin} {t : Text}

theorem locate_eq_join (base : Path) (rest : Text) :
    (⟨some base⟩ : Origin).locate ('.' :: '/' :: rest) = base.join ⟨rest⟩ := by
  simp [locate, after?]

/-- Only the files that its inclusions stand for have a part in the expansion of a text. -/
theorem expand_congr (h : ∀ x ∈ Token.inclusions t, files (o.locate x.1) = files' (o.locate x.1)) :
    o.expand files t = o.expand files' t := by
  refine List.flatMap_congr fun p hp => ?_
  rw [splice, splice]
  split
  · next path hpath =>
    obtain ⟨span, hspan⟩ := Token.exists_mem_inclusions_iff.mpr ⟨p, hp, hpath⟩
    rw [read?, read?, Files.text?, Files.text?, h _ hspan]
  · rfl

/-- A text gets shorter if one of its inclusions stands for an empty file and every file that can
be read is empty. -/
theorem length_expand_lt {path : Text} {span : Span} (hmem : (path, span) ∈ Token.inclusions t)
    (hpath : files (o.locate path) = .ok [])
    (hempty : ∀ p contents, files.text? p = some contents → contents = []) :
    (o.expand files t).length < t.length := by
  have hle : ∀ p : Piece, (o.splice files p).length ≤ p.text.length := by
    intro p
    rw [splice]
    split
    · next path hpath =>
      cases hread : o.read? files path with
      | none => exact Nat.le_refl _
      | some contents =>
        rw [hempty _ contents hread]
        exact Nat.zero_le _
    · exact Nat.le_refl _
  obtain ⟨p, hp, htoken⟩ := Token.exists_mem_inclusions_iff.mp ⟨span, hmem⟩
  have hlt : (o.splice files p).length < p.text.length := by
    have hread : o.read? files path = some [] := by
      rw [read?, Files.text?, hpath]
      rfl
    rw [splice, htoken]
    dsimp only
    rw [hread]
    exact List.length_pos_iff.mpr (Piece.text_ne_nil_of_mem_ofText hp)
  conv_rhs => rw [← Piece.textOf_ofText t]
  rw [expand, Piece.textOf, List.length_flatMap, List.length_flatMap]
  exact List.sum_lt_sum _ _ (fun q _ => hle q) ⟨p, hp, hlt⟩

theorem below_locate {path : Text} (hlocal : ['.', '/'] <+: path)
    (hrest : ¬ ['.', '/', '/'] <+: path) (base : Path) :
    base.Below ((⟨some base⟩ : Origin).locate path) := by
  obtain ⟨rest, rfl⟩ := hlocal
  have hrelative : (Path.mk rest).isAbsolute = false := by
    rw [← Bool.not_eq_true, Path.isAbsolute_iff]
    exact fun h => hrest ((List.prefix_append_right_inj ['.', '/']).mpr h)
  rw [List.cons_append, List.cons_append, List.nil_append, locate_eq_join]
  exact Path.below_join hrelative base

/-- An inclusion whose path goes on with a slash behind the `./` stands for a file that lies below
some directories only. -/
theorem expand_ne_of_slash {x : Text × Span} (hx : x ∈ Token.inclusions t)
    (hslash : ['.', '/', '/'] <+: x.1) : ∃ (base : Path) (files files' : Files),
      (∀ p, base.Below p → files p = files' p) ∧
        (⟨some base⟩ : Origin).expand files t ≠ (⟨some base⟩ : Origin).expand files' t := by
  obtain ⟨path, span⟩ := x
  obtain ⟨rest, rfl⟩ := hslash
  let base : Path := ⟨['b']⟩
  let files : Files := fun p => if p = ⟨'/' :: rest⟩ then .ok [] else .error .notFound
  have hfile : (⟨some base⟩ : Origin).locate (['.', '/', '/'] ++ rest) = ⟨'/' :: rest⟩ :=
    (locate_eq_join base ('/' :: rest)).trans (Path.join_of_isAbsolute rfl base)
  refine ⟨base, files, fun _ => .error .notFound, fun p hp => ?_, fun heq => ?_⟩
  · refine if_neg fun hroot => Path.not_below_of_isAbsolute ?_ rfl hp
    rw [hroot]
    rfl
  · have hlt : ((⟨some base⟩ : Origin).expand files t).length < t.length := by
      refine length_expand_lt hx (by rw [hfile]; exact if_pos rfl) fun p contents hread => ?_
      by_cases hroot : p = ⟨'/' :: rest⟩
      · rw [Files.text?, show files p = .ok [] from if_pos hroot] at hread
        exact (Option.some.inj hread).symm
      · rw [Files.text?, show files p = .error .notFound from if_neg hroot] at hread
        cases hread
    rw [heq, Unread.expand_eq fun _ _ => rfl] at hlt
    exact lt_irrefl _ hlt

/-- A path with `./` in front leads to a file below the directory of the template, by the names of
the directory and then those of the rest, unless the rest begins with a slash. Then it leads to
the rest, whatever the directory is. So if all paths of a text have `./` in front, its expansion
depends on no other files than those below the directory, for every directory, just if none of the
paths goes on with a slash. A file is below the directory by the spelling of its path: a `..` in
the rest counts as a name, so that `./../a` is below it too. -/
theorem expand_below_iff (hlocal : ∀ x ∈ Token.inclusions t, ['.', '/'] <+: x.1) :
    (∀ base rest, (Path.mk rest).isAbsolute = false →
      base.Below ((⟨some base⟩ : Origin).locate ('.' :: '/' :: rest)) ∧
      names ((⟨some base⟩ : Origin).locate ('.' :: '/' :: rest)) = names base ++ names ⟨rest⟩) ∧
    (∀ base rest, (Path.mk rest).isAbsolute = true →
      (⟨some base⟩ : Origin).locate ('.' :: '/' :: rest) = ⟨rest⟩) ∧
    ((∀ (base : Path) (files files' : Files), (∀ p, base.Below p → files p = files' p) →
        (⟨some base⟩ : Origin).expand files t = (⟨some base⟩ : Origin).expand files' t) ↔
      ∀ x ∈ Token.inclusions t, ¬ ['.', '/', '/'] <+: x.1) := by
  refine ⟨fun base rest hrest => ?_, fun base rest hrest => ?_, fun h x hx hslash => ?_,
    fun h base files files' hfiles => ?_⟩
  · rw [locate_eq_join]
    exact ⟨Path.below_join hrest base, Path.names_join hrest base⟩
  · rw [locate_eq_join, Path.join_of_isAbsolute hrest]
  · obtain ⟨base, files, files', hfiles, hne⟩ := expand_ne_of_slash hx hslash
    exact hne (h base files files' hfiles)
  · exact expand_congr fun x hx => hfiles _ (below_locate (hlocal x hx) (h x hx) base)

/-- Two paths with `./` in front, one of them with slashes in its middle and the other one empty
behind the dot, are read below a directory that is written with a dot and a slash at its end. -/
theorem expand_below_iff_slashes :
    let t := "\x7bFILE \"./a//./b\"\x7d\x7bFILE \"./\"\x7d".toList
    let base : Path := ⟨"./v/".toList⟩
    let files (outside : Text) : Files := fun p =>
      if p = ⟨"./v/a//./b".toList⟩ then .ok "in".toList else if base.Below p then .error .notFound
      else .ok outside
    (∀ x ∈ Token.inclusions t, ['.', '/'] <+: x.1) ∧
    (∀ x ∈ Token.inclusions t, ¬ ['.', '/', '/'] <+: x.1) ∧
    ((⟨some base⟩ : Origin).locate "./a//./b".toList).components =
      [".".toList, "v".toList, "a".toList, "b".toList] ∧
    (⟨some base⟩ : Origin).expand (files "1".toList) t =
      (⟨some base⟩ : Origin).expand (files "2".toList) t := by
  intro t base files
  have hlocal : ∀ x ∈ Token.inclusions t, ['.', '/'] <+: x.1 := by decide +kernel
  have hrelative : ∀ x ∈ Token.inclusions t, ¬ ['.', '/', '/'] <+: x.1 := by decide +kernel
  refine ⟨hlocal, hrelative, by decide +kernel, ?_⟩
  refine (expand_below_iff hlocal).2.2.mpr hrelative base (files _) (files _) fun p hp => ?_
  simp only [files, if_pos hp]

/-- With another slash behind the `./` a file that has nothing to do with the directory of the
template is read. -/
theorem expand_outside_base :
    let t := "\x7bFILE \".//etc/motd\"\x7d".toList
    let files : Files := fun p => if p = ⟨"/etc/motd".toList⟩ then .ok "m".toList
      else .error .notFound
    (∀ base, (⟨some base⟩ : Origin).expand files t = "m".toList) ∧
    ¬ ∀ base path, ['.', '/'] <+: path →
      base.components <+: ((⟨some base⟩ : Origin).locate path).components := by
  intro t files
  refine ⟨fun base => ?_, fun h => ?_⟩
  · have hpieces : Piece.ofText t = [⟨some (.inclusion ".//etc/motd".toList), t⟩] := by
      decide +kernel
    have hfile : (⟨some base⟩ : Origin).locate ".//etc/motd".toList = ⟨"/etc/motd".toList⟩ :=
      (locate_eq_join base "/etc/motd".toList).trans (Path.join_of_isAbsolute (by decide) base)
    have hread : (⟨some base⟩ : Origin).read? files ".//etc/motd".toList = some "m".toList := by
      rw [read?, hfile, Files.text?, show files ⟨"/etc/motd".toList⟩ = .ok _ from if_pos rfl]
      rfl
    rw [expand, hpieces, List.flatMap_singleton, splice]
    dsimp only
    rw [hread]
    rfl
  · have hviews := h ⟨"views".toList⟩ ".//etc/motd".toList (by decide)
    revert hviews
    decide +kernel

end Origin
end BlockTemplate
