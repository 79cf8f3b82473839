import BlockTemplate.Text.Blank
import Mathlib.Data.List.SplitBy

/-!
The runs of a text, which are white space throughout or have none. They take turns, and there is
one way to cut a text into runs that do.
-/
namespace BlockTemplate.Text

/-- The stretches of a text that are white space throughout or have none, as long as they go. -/
def runs (t : Text) : List Text := t.splitBy fun c d => isBlank c == isBlank d

/-- Runs one behind the other, the first of them white space or not: none is empty, and white
space and its absence take turns. -/
inductive Alternating : Bool → List Text → Prop
  | nil (blank : Bool) : Alternating blank []
  | cons {blank : Bool} {run : Text} {rest : List Text} (hne : run ≠ [])
      (hrun : ∀ c ∈ run, isBlank c = blank) (hrest : Alternating (!blank) rest) :
      Alternating blank (run :: rest)

namespace Alternating

variable {blank : Bool} {rs : List Text}

theorem isBlank_head (h : Alternating blank rs) : ∀ c ∈ rs.flatten.head?, isBlank c = blank := by
  cases h with
  | nil => simp
  | @cons _ run rest hne hrun _ =>
    obtain ⟨d, run, rfl⟩ := List.exists_cons_of_ne_nil hne
    simpa using hrun d List.mem_cons_self

theorem isBlank_of_mem (h : Alternating blank rs) {run : Text} (hrun : run ∈ rs) :
    ∃ blank, ∀ c ∈ run, isBlank c = blank := by
  induction h with
  | nil => cases hrun
  | cons _ hfirst _ ih =>
    rcases List.mem_cons.mp hrun with rfl | hrest
    · exact ⟨_, hfirst⟩
    · exact ih hrest

theorem map {f : Text → Text} (hne : ∀ run, run ≠ [] → f run ≠ []) (hsubset : ∀ run, f run ⊆ run)
    (h : Alternating blank rs) : Alternating blank (rs.map f) := by
  induction h with
  | nil => exact .nil _
  | cons hfirst hrun _ ih =>
    exact .cons (hne _ hfirst) (fun c hc => hrun c (hsubset _ hc)) ih

/-- There is one way to cut a text into runs. -/
theorem runs_flatten (h : Alternating blank rs) : runs rs.flatten = rs := by
  induction h with
  | nil => rfl
  | @cons blank run rest hne hrun hrest ih =>
    have hone : runs run = [run] := by
      refine List.splitBy_of_isChain hne (List.Pairwise.isChain ?_)
      refine List.Pairwise.imp_of_mem ?_ (List.pairwise_of_forall fun _ _ => trivial)
      intro c d hc hd _
      rw [hrun c hc, hrun d hd, beq_self_eq_true]
    have hparts : runs (run ++ rest.flatten) = runs run ++ runs rest.flatten := by
      refine List.splitBy_append fun c hc d hd => ?_
      rw [hrun c (List.mem_of_mem_getLast? hc), hrest.isBlank_head d hd]
      cases blank <;> rfl
    rw [List.flatten_cons, hparts, hone, ih, List.singleton_append]

/-- White space that stands in a text stands in one of its runs. -/
theorem exists_infix (h : Alternating blank rs) {s : Text} (hs : ∀ c ∈ s, isBlank c = true)
    (hne : s ≠ []) (hwithin : s <:+: rs.flatten) : ∃ run ∈ rs, s <:+: run := by
  induction h with
  | nil => exact absurd (List.infix_nil.mp hwithin) hne
  | @cons blank run rest _ hrun hrest ih =>
    have hlater : s <:+: rest.flatten → ∃ r ∈ run :: rest, s <:+: r := by
      intro hwithin
      obtain ⟨r, hr, hinfix⟩ := ih hwithin
      exact ⟨r, List.mem_cons_of_mem run hr, hinfix⟩
    rw [List.flatten_cons] at hwithin
    rcases List.infix_append_iff_ne_nil.mp hwithin with
      hfirst | hbehind | ⟨l, r, hl, hr, rfl, hsuffix, hprefix⟩
    · exact ⟨run, List.mem_cons_self, hfirst⟩
    · exact hlater hbehind
    · -- If white space went on behind the run, the next run would be white space as well.
      obtain ⟨c, l, rfl⟩ := List.exists_cons_of_ne_nil hl
      obtain ⟨d, r, rfl⟩ := List.exists_cons_of_ne_nil hr
      obtain ⟨u, hu⟩ := hprefix
      have hc := hrun c (hsuffix.subset List.mem_cons_self)
      have hd := hrest.isBlank_head d (by rw [← hu]; rfl)
      rw [hs c (by simp)] at hc
      rw [hs d (by simp), ← hc] at hd
      cases hd

end Alternating

theorem exists_alternating (t : Text) : ∃ blank rs, Alternating blank rs ∧ rs.flatten = t := by
  induction t with
  | nil => exact ⟨true, [], .nil true, rfl⟩
  | cons c t ih =>
    obtain ⟨blank, rs, h, rfl⟩ := ih
    have hsingle : ∀ d ∈ [c], isBlank d = isBlank c := by simp
    by_cases hc : isBlank c = blank
    · cases h with
      | nil => exact ⟨_, [[c]], .cons (List.cons_ne_nil _ _) hsingle (.nil _), rfl⟩
      | cons hne hrun hrest =>
        exact ⟨blank, _, .cons (List.cons_ne_nil c _) (List.forall_mem_cons.mpr ⟨hc, hrun⟩) hrest,
          rfl⟩
    · have hother : blank = !isBlank c := by
        cases blank <;> simpa using hc
      exact ⟨_, [c] :: rs, .cons (List.cons_ne_nil _ _) hsingle (hother ▸ h), rfl⟩

theorem flatten_runs (t : Text) : (runs t).flatten = t := List.flatten_splitBy _ t

/-- The runs of a text are white space and other characters in turn. -/
theorem alternating_runs (t : Text) : ∃ blank, Alternating blank (runs t) := by
  obtain ⟨blank, rs, h, rfl⟩ := exists_alternating t
  exact ⟨blank, h.runs_flatten.symm ▸ h⟩

end BlockTemplate.Text
