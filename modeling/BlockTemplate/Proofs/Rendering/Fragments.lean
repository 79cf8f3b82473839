import BlockTemplate.Block.Snapshot
import BlockTemplate.Proofs.Rendering.Substituting
import Mathlib.Data.List.Chain

/-!
What substitution does to a template, told before any value is known. A template falls into text
that stays, placeholders that are left out, and keys that give way to their values. Which of them
stand where is decided by the names that are bound, not by their values. So whatever the values
are, nothing else of what is rendered changes with them.
-/
namespace BlockTemplate

open Text

/-- A stretch of a template: text that stays, a placeholder that is left out, or a key in whose
place its value is put. -/
inductive Fragment
  | literal (t : Text)
  | removed (name : Text)
  | filled (key : Text)
deriving DecidableEq, Repr

namespace Fragment

/-- The text of the template. -/
def written : Fragment → Text
  | literal t => t
  | removed name => '\x7b' :: name ++ ['\x7d']
  | filled key => '\x7b' :: key ++ ['\x7d']

/-- The text that is rendered. -/
def shown (value? : Text → Option Text) : Fragment → Text
  | literal t => t
  | removed _ => []
  | filled key => (value? key).getD []

def IsLiteral : Fragment → Prop
  | literal _ => True
  | removed _ => False
  | filled _ => False

/-- The fragments with a character in front that stays. -/
def keep (c : Char) : List Fragment → List Fragment
  | literal t :: fs => literal (c :: t) :: fs
  | fs => literal [c] :: fs

/-- The fragments of a template, by the names that are bound and by what becomes of placeholders
with other names. -/
def ofTemplate (bound : Text → Bool) (unbound : Unbound) : Text → List Fragment
  | [] => []
  | c :: t =>
    if c = '\x7b' then
      match h : cut? ['\x7d'] t with
      | none => keep c (ofTemplate bound unbound t)
      | some (key, rest) =>
        have := length_lt_of_cut? (List.cons_ne_nil _ _) h
        if bound key then filled key :: ofTemplate bound unbound rest
        else if unbound = .blank ∧ Token.isVariableName key then
          removed key :: ofTemplate bound unbound rest
        else keep c (ofTemplate bound unbound t)
    else keep c (ofTemplate bound unbound t)
termination_by t => t.length
decreasing_by all_goals simp only [List.length_cons]; omega

/-- A key between braces is taken out of the template, to be filled or left out. -/
def Taken (bound : Text → Bool) (unbound : Unbound) (key : Text) : Prop :=
  bound key = true ∨ (unbound = .blank ∧ Token.isVariableName key = true)

variable {bound : Text → Bool} {unbound : Unbound} {c : Char} {fs : List Fragment}

theorem flatMap_written_keep (c : Char) (fs : List Fragment) :
    (keep c fs).flatMap written = c :: fs.flatMap written := by
  rcases fs with _ | ⟨_ | _ | _, fs⟩ <;> rfl

theorem flatMap_shown_keep (value? : Text → Option Text) (c : Char) (fs : List Fragment) :
    (keep c fs).flatMap (shown value?) = c :: fs.flatMap (shown value?) := by
  rcases fs with _ | ⟨_ | _ | _, fs⟩ <;> rfl

/-- A fragment stays as it is, or it is text with the new character in front. -/
theorem mem_keep {f : Fragment} (h : f ∈ keep c fs) : f ∈ fs ∨
    ∃ s, f = literal (c :: s) ∧ s <+: fs.flatMap written ∧ (s = [] ∨ literal s ∈ fs) := by
  have hnew : f ∈ literal [c] :: fs → f ∈ fs ∨
      ∃ s, f = literal (c :: s) ∧ s <+: fs.flatMap written ∧ (s = [] ∨ literal s ∈ fs) := by
    intro hmem
    rcases List.mem_cons.mp hmem with rfl | hmem
    · exact Or.inr ⟨[], rfl, List.nil_prefix, Or.inl rfl⟩
    · exact Or.inl hmem
  cases fs with
  | nil => exact hnew h
  | cons g fs =>
    cases g with
    | literal t =>
      rcases List.mem_cons.mp h with rfl | hmem
      · exact Or.inr ⟨t, rfl, List.prefix_append t _, Or.inr List.mem_cons_self⟩
      · exact Or.inl (List.mem_cons_of_mem _ hmem)
    | removed name => exact hnew h
    | filled key => exact hnew h

/-- No text stands next to other text. -/
def Apart (fs : List Fragment) : Prop := fs.IsChain fun f g => ¬ (f.IsLiteral ∧ g.IsLiteral)

theorem Apart.cons {f : Fragment} (h : Apart fs) (hf : ¬ f.IsLiteral) : Apart (f :: fs) :=
  List.isChain_cons.mpr ⟨fun _ _ hboth => hf hboth.1, h⟩

theorem Apart.keep (h : Apart fs) (c : Char) : Apart (keep c fs) := by
  cases fs with
  | nil => exact List.isChain_singleton _
  | cons f fs =>
    cases f with
    | literal t => exact List.isChain_cons.mpr (List.isChain_cons.mp h)
    | removed name => exact List.isChain_cons.mpr ⟨by simp [IsLiteral], h⟩
    | filled key => exact List.isChain_cons.mpr ⟨by simp [IsLiteral], h⟩

/-- The fragments as they are written are the template. -/
theorem flatMap_written_ofTemplate (bound : Text → Bool) (unbound : Unbound) (t : Text) :
    (ofTemplate bound unbound t).flatMap written = t := by
  fun_induction ofTemplate bound unbound t with
  | case1 => rfl
  | case2 t h ih => rw [flatMap_written_keep, ih]
  | case3 t key rest h _ hkey ih =>
    rw [List.flatMap_cons, ih, (eq_of_cut?_singleton h).1]
    simp [written]
  | case4 t key rest h _ hkey hname ih =>
    rw [List.flatMap_cons, ih, (eq_of_cut?_singleton h).1]
    simp [written]
  | case5 t key rest h _ hkey hname ih => rw [flatMap_written_keep, ih]
  | case6 c t hc ih => rw [flatMap_written_keep, ih]

theorem apart_ofTemplate (bound : Text → Bool) (unbound : Unbound) (t : Text) :
    Apart (ofTemplate bound unbound t) := by
  fun_induction ofTemplate bound unbound t with
  | case1 => exact List.isChain_nil
  | case2 t h ih => exact ih.keep _
  | case3 t key rest h _ hkey ih => exact ih.cons id
  | case4 t key rest h _ hkey hname ih => exact ih.cons id
  | case5 t key rest h _ hkey hname ih => exact ih.keep _
  | case6 c t hc ih => exact ih.keep _

/-- Whatever the values of the bound names are, substitution shows each fragment by itself. -/
theorem substitute_eq_flatMap_shown {value? : Text → Option Text}
    (hbound : ∀ key, (value? key).isSome = bound key) (t : Text) :
    substitute value? unbound t = (ofTemplate bound unbound t).flatMap (shown value?) := by
  have hnone : ∀ key, ¬ bound key = true → value? key = none := by
    intro key hkey
    rwa [← hbound, Bool.not_eq_true, Option.isSome_eq_false_iff, Option.isNone_iff_eq_none] at hkey
  fun_induction ofTemplate bound unbound t with
  | case1 => exact substitute_of_notMem List.not_mem_nil
  | case2 t h ih =>
    have hclose : '\x7d' ∉ t := cut?_singleton_eq_none_iff.mp h
    have hopen : '\x7d' ∉ '\x7b' :: t := by simp [hclose]
    rw [flatMap_shown_keep, ← ih, substitute_of_notMem_close hclose,
      substitute_of_notMem_close hopen]
  | case3 t key rest h _ hkey ih =>
    obtain ⟨rfl, hclose⟩ := eq_of_cut?_singleton h
    obtain ⟨value, hvalue⟩ := Option.isSome_iff_exists.mp ((hbound key).trans hkey)
    rw [substitute_of_bound_key hvalue hclose, List.flatMap_cons, ← ih, shown, hvalue]
    rfl
  | case4 t key rest h _ hkey hname ih =>
    obtain ⟨rfl, hclose⟩ := eq_of_cut?_singleton h
    rw [substitute_of_unbound_key (hnone key hkey) hclose, if_pos hname, List.flatMap_cons, ← ih]
    rfl
  | case5 t key rest h _ hkey hname ih =>
    obtain ⟨rfl, hclose⟩ := eq_of_cut?_singleton h
    rw [substitute_of_unbound_key (hnone key hkey) hclose, if_neg hname, flatMap_shown_keep, ← ih]
  | case6 c t hc ih =>
    rw [flatMap_shown_keep, ← ih]
    exact substitute_append_of_notMem (s := [c]) (by simpa using Ne.symm hc) t

/-- What is filled is bound, what is left out is the name of an unbound placeholder, and in text
that stays no such key is written. -/
def Fits (bound : Text → Bool) (unbound : Unbound) : Fragment → Prop
  | literal t => ∀ key, Taken bound unbound key → '\x7d' ∉ key →
      ¬ '\x7b' :: key ++ ['\x7d'] <:+: t
  | removed name => unbound = .blank ∧ Token.isVariableName name = true ∧ bound name = false
  | filled key => bound key = true ∧ '\x7d' ∉ key

/-- A character with which no key begins can be put in front of text that stays. -/
theorem fits_keep {t : Text} (hstart : ∀ key, Taken bound unbound key → '\x7d' ∉ key →
      ¬ '\x7b' :: key ++ ['\x7d'] <+: c :: t)
    (hfits : ∀ f ∈ ofTemplate bound unbound t, f.Fits bound unbound) :
    ∀ f ∈ keep c (ofTemplate bound unbound t), f.Fits bound unbound := by
  intro f hf
  rcases mem_keep hf with hf | ⟨s, rfl, hs, hrest⟩
  · exact hfits f hf
  · rw [flatMap_written_ofTemplate] at hs
    intro key htaken hkey hinfix
    rcases List.infix_cons_iff.mp hinfix with hpre | hwithin
    · exact hstart key htaken hkey (hpre.trans (List.cons_prefix_cons.mpr ⟨rfl, hs⟩))
    · rcases hrest with rfl | hliteral
      · simp at hwithin
      · exact hfits _ hliteral key htaken hkey hwithin

theorem fits_of_mem_ofTemplate {t : Text} :
    ∀ f ∈ ofTemplate bound unbound t, f.Fits bound unbound := by
  fun_induction ofTemplate bound unbound t with
  | case1 => exact fun f hf => absurd hf List.not_mem_nil
  | case2 t h ih =>
    refine fits_keep (fun key _ _ hpre => ?_) ih
    have hclose : '\x7d' ∉ t := cut?_singleton_eq_none_iff.mp h
    rw [List.cons_append, List.cons_prefix_cons] at hpre
    exact hclose (hpre.2.subset (by simp))
  | case3 t key rest h _ hkey ih =>
    exact List.forall_mem_cons.mpr ⟨⟨hkey, (eq_of_cut?_singleton h).2⟩, ih⟩
  | case4 t key rest h _ hkey hname ih =>
    exact List.forall_mem_cons.mpr ⟨⟨hname.1, hname.2, Bool.not_eq_true _ ▸ hkey⟩, ih⟩
  | case5 t key rest h _ hkey hname ih =>
    refine fits_keep (fun key' htaken hkey' hpre => ?_) ih
    obtain ⟨after, hafter⟩ := hpre
    have ht : t = key' ++ '\x7d' :: after := by simpa using hafter.symm
    -- The next closing brace ends the key that was looked at.
    rw [ht, cut?_append_cons hkey'] at h
    obtain ⟨rfl, -⟩ := Prod.mk.inj (Option.some.inj h)
    exact htaken.elim hkey hname
  | case6 c t hc ih =>
    refine fits_keep (fun key _ _ hpre => ?_) ih
    rw [List.cons_append, List.cons_prefix_cons] at hpre
    exact hc hpre.1.symm

end Fragment

namespace Block

open Fragment

/-- A template falls into fragments by the names that are bound, and a block with these names bound
renders the text that stays and the values of the keys, whatever the values are. -/
theorem substituted_by_fragments (bound : Text → Bool) (unbound : Unbound) (t : Text) :
    let fs := Fragment.ofTemplate bound unbound t
    (∀ b : Block, b.template = t → b.style.unbound = unbound →
      (∀ key, (b.boundText? key).isSome = bound key) →
      b.substituted = fs.flatMap (shown b.boundText?)) ∧
    fs.flatMap written = t ∧
    (∀ key, filled key ∈ fs → bound key = true) ∧
    (∀ name, removed name ∈ fs →
      unbound = .blank ∧ Token.isVariableName name = true ∧ bound name = false) ∧
    (∀ s, literal s ∈ fs → ∀ key, Taken bound unbound key → '\x7d' ∉ key →
      ¬ '\x7b' :: key ++ ['\x7d'] <:+: s) ∧
    Apart fs := by
  refine ⟨?_, flatMap_written_ofTemplate bound unbound t, ?_, ?_, ?_, apart_ofTemplate _ _ t⟩
  · rintro b rfl rfl hbound
    exact substitute_eq_flatMap_shown hbound b.template
  · exact fun key hkey => (fits_of_mem_ofTemplate _ hkey).1
  · exact fun name hname => fits_of_mem_ofTemplate _ hname
  · exact fun s hs => fits_of_mem_ofTemplate _ hs

/-- Two bindings of the same names to a text that looks like a placeholder and to plain texts. A
brace that starts no key, a key with a brace in it and one that is not closed. -/
theorem substituted_by_fragments_two_bindings :
    let t := "\x7b\x7bx\x7d \x7ba\x7bb\x7d\x7by\x7d\x7bz".toList
    let bound : Text → Bool := fun key => key == "x".toList || key == "a\x7bb".toList
    let fs := [literal "\x7b".toList, filled "x".toList, literal " ".toList,
      filled "a\x7bb".toList, removed "y".toList, literal "\x7bz".toList]
    let b : Block := ⟨[], t, [], [("x".toList, "\x7by\x7d".toList), ("a\x7bb".toList, [])], [],
      { unbound := .blank }⟩
    let b' : Block := ⟨[], t, [], [("x".toList, "1".toList), ("a\x7bb".toList, "2".toList)], [],
      { unbound := .blank }⟩
    (∀ key, (b.boundText? key).isSome = bound key ∧ (b'.boundText? key).isSome = bound key) ∧
      b.substituted = fs.flatMap (shown b.boundText?) ∧
      b'.substituted = fs.flatMap (shown b'.boundText?) ∧
      b.substituted = "\x7b\x7by\x7d \x7bz".toList ∧ b'.substituted = "\x7b1 2\x7bz".toList := by
  intro t bound fs b b'
  have hbound : ∀ first second : Text, ∀ key, (Bindings.get?
      [("x".toList, first), ("a\x7bb".toList, second)] key).isSome = bound key := by
    intro first second key
    simp only [Bindings.get?, List.lookup_cons, List.lookup_nil, bound]
    cases key == "x".toList <;> cases key == "a\x7bb".toList <;> rfl
  obtain ⟨hshown, -⟩ := substituted_by_fragments bound .blank t
  have hfs : Fragment.ofTemplate bound .blank t = fs := by decide +kernel
  rw [hfs] at hshown
  have hb := hshown b rfl rfl (hbound _ _)
  have hb' := hshown b' rfl rfl (hbound _ _)
  refine ⟨fun key => ⟨hbound _ _ key, hbound _ _ key⟩, hb, hb', ?_, ?_⟩
  · rw [hb]
    decide
  · rw [hb']
    decide

end Block
end BlockTemplate
