import BlockTemplate.Proofs.Text.Lines
import BlockTemplate.Proofs.Text.Runs
import BlockTemplate.Proofs.Text.Search
import BlockTemplate.Rendering.BlankLines
import Mathlib.Data.List.DropRight

/-!
Collapsing told run by run, and line by line. Collapsing looks at each run of white space alone: if
more than two line ends stand from its first line end to its last, one line end is left of all
this. What stands before the first line end and behind the last one stays, and so does every run
without white space. So lines are taken out, but none is changed.
-/
namespace BlockTemplate.Text

/-- The number of characters before the last line end of a text that has one. -/
def lastBreak (t : Text) : Nat := t.length - 1 - t.reverse.idxOf '\n'

/-- A run with one line end in the place of all that stands from its first line end to its last,
if anything stands between these two. -/
def collapseRun (run : Text) : Text :=
  if run.idxOf '\n' + 2 ≤ lastBreak run then
    run.take (run.idxOf '\n') ++ '\n' :: run.drop (lastBreak run + 1)
  else run

section collapse

variable {s t inner after : Text}

theorem collapse_of_notMem (ht : '\n' ∉ t) : collapse t = t := by
  rw [collapse]
  split
  · rfl
  · next h => simp [cut?_of_notMem ht] at h

theorem collapse_append_break (hs : '\n' ∉ s) (t : Text) :
    collapse (s ++ '\n' :: t) = s ++ '\n' :: collapse (afterBlankLines t) := by
  have hcut : cut? ['\n'] (s ++ '\n' :: t) = some (s, t) := cut?_append_cons hs t
  rw [collapse]
  split
  · next h => simp [hcut] at h
  · next line rest h =>
    obtain ⟨rfl, rfl⟩ : s = line ∧ t = rest := by simpa [hcut] using h
    rfl

theorem collapse_append_of_notMem (hs : '\n' ∉ s) (t : Text) :
    collapse (s ++ t) = s ++ collapse t := by
  by_cases ht : '\n' ∈ t
  · obtain ⟨line, rest, rfl, hline⟩ := List.eq_append_cons_of_mem ht
    have hjoin : '\n' ∉ s ++ line := by simp [hs, hline]
    rw [← List.append_assoc, collapse_append_break hjoin, collapse_append_break hline,
      List.append_assoc]
  · rw [collapse_of_notMem ht, collapse_of_notMem (by simp [hs, ht])]

theorem afterLastBreak?_append_of_notMem (hs : '\n' ∉ s) (ht : ∀ c ∈ t.head?, isBlank c = false) :
    afterLastBreak? (s ++ t) = none := by
  induction s with
  | nil =>
    cases t with
    | nil => rfl
    | cons c t => simp [afterLastBreak?, ht c rfl]
  | cons c s ih =>
    obtain ⟨hc, hs⟩ := List.ne_and_not_mem_of_not_mem_cons hs
    simp [afterLastBreak?, ih hs, hc.symm]

theorem afterLastBreak?_append_break (hs : ∀ c ∈ s, isBlank c = true) (hafter : '\n' ∉ after)
    (ht : ∀ c ∈ t.head?, isBlank c = false) :
    afterLastBreak? (s ++ '\n' :: (after ++ t)) = some (after ++ t) := by
  induction s with
  | nil =>
    have hblank : isBlank '\n' = true := by decide
    simp [afterLastBreak?, hblank, afterLastBreak?_append_of_notMem hafter ht]
  | cons c s ih =>
    obtain ⟨hc, hs⟩ := List.forall_mem_cons.mp hs
    simp [afterLastBreak?, hc, ih hs]

theorem afterBlankLines_append_of_notMem (hs : '\n' ∉ s.tail)
    (ht : ∀ c ∈ t.head?, isBlank c = false) : afterBlankLines (s ++ t) = s ++ t := by
  cases s with
  | nil =>
    cases t with
    | nil => rfl
    | cons c t => simp [afterBlankLines, ht c rfl]
  | cons c s =>
    have hnone : afterLastBreak? (s ++ t) = none := afterLastBreak?_append_of_notMem hs ht
    simp [afterBlankLines, hnone]

theorem afterBlankLines_append_break (hne : inner ≠ []) (hinner : ∀ c ∈ inner, isBlank c = true)
    (hafter : '\n' ∉ after) (ht : ∀ c ∈ t.head?, isBlank c = false) :
    afterBlankLines (inner ++ '\n' :: (after ++ t)) = after ++ t := by
  obtain ⟨c, inner, rfl⟩ := List.exists_cons_of_ne_nil hne
  obtain ⟨hc, hinner⟩ := List.forall_mem_cons.mp hinner
  simp [afterBlankLines, hc, afterLastBreak?_append_break hinner hafter ht]

end collapse

section collapseRun

variable {before inner after : Text}

/-- A text has no line end, or one, or a first and a last one. -/
theorem exists_breaks (t : Text) : '\n' ∉ t ∨ ∃ before after, '\n' ∉ before ∧ '\n' ∉ after ∧
    (t = before ++ '\n' :: after ∨ ∃ inner, t = before ++ '\n' :: (inner ++ '\n' :: after)) := by
  by_cases hfirst : '\n' ∈ t
  · obtain ⟨before, rest, rfl, hbefore⟩ := List.eq_append_cons_of_mem hfirst
    refine Or.inr ⟨before, ?_⟩
    by_cases hlast : '\n' ∈ rest
    · obtain ⟨after, inner, hrest, hafter⟩ :=
        List.eq_append_cons_of_mem (List.mem_reverse.mpr hlast)
      rw [List.reverse_eq_iff, List.reverse_append, List.reverse_cons] at hrest
      subst hrest
      exact ⟨after.reverse, hbefore, by simpa using hafter, Or.inr ⟨inner.reverse, by simp⟩⟩
    · exact ⟨rest, hbefore, hlast, Or.inl rfl⟩
  · exact Or.inl hfirst

theorem idxOf_append_break (hbefore : '\n' ∉ before) (t : Text) :
    (before ++ '\n' :: t).idxOf '\n' = before.length := by
  rw [List.idxOf_append_of_notMem hbefore, List.idxOf_cons_self, Nat.add_zero]

theorem lastBreak_append_break (hafter : '\n' ∉ after) (t : Text) :
    lastBreak (t ++ '\n' :: after) = t.length := by
  have hreverse : (t ++ '\n' :: after).reverse = after.reverse ++ '\n' :: t.reverse := by simp
  rw [lastBreak, hreverse, idxOf_append_break (by simpa using hafter)]
  simp only [List.length_append, List.length_cons, List.length_reverse]
  omega

theorem collapseRun_of_notMem {run : Text} (h : '\n' ∉ run) : collapseRun run = run := by
  rw [collapseRun, if_neg]
  rw [List.idxOf_eq_length h, lastBreak]
  omega

theorem collapseRun_break (hbefore : '\n' ∉ before) (hafter : '\n' ∉ after) :
    collapseRun (before ++ '\n' :: after) = before ++ '\n' :: after := by
  rw [collapseRun, if_neg]
  rw [idxOf_append_break hbefore, lastBreak_append_break hafter]
  omega

theorem collapseRun_breaks (hbefore : '\n' ∉ before) (hafter : '\n' ∉ after) (inner : Text) :
    collapseRun (before ++ '\n' :: (inner ++ '\n' :: after)) =
      if inner = [] then before ++ '\n' :: ('\n' :: after) else before ++ '\n' :: after := by
  have hlast : lastBreak (before ++ '\n' :: (inner ++ '\n' :: after)) =
      before.length + inner.length + 1 := by
    have h := lastBreak_append_break hafter (before ++ '\n' :: inner)
    simpa [Nat.add_assoc] using h
  have hpos : 0 < inner.length ↔ inner ≠ [] := List.length_pos_iff
  rw [collapseRun, idxOf_append_break hbefore, hlast]
  by_cases hinner : inner = []
  · subst hinner
    rw [if_pos rfl, if_neg (by simp)]
    rfl
  · rw [if_neg hinner, if_pos (by have := hpos.mpr hinner; omega)]
    have hdrop : (before ++ '\n' :: (inner ++ '\n' :: after)).drop
        (before.length + inner.length + 1 + 1) = after := by
      have htext : before ++ '\n' :: (inner ++ '\n' :: after) =
          (before ++ '\n' :: (inner ++ ['\n'])) ++ after := by simp
      rw [htext, List.drop_left' (by simp; omega)]
    rw [hdrop, List.take_left]

end collapseRun

/-- Collapsing goes on behind white space as if nothing stood before. -/
theorem collapse_append_of_blank {s t : Text} (hs : ∀ c ∈ s, isBlank c = true)
    (ht : ∀ c ∈ t.head?, isBlank c = false) :
    collapse (s ++ t) = collapseRun s ++ collapse t := by
  rcases exists_breaks s with hs' | ⟨before, after, hbefore, hafter, rfl | ⟨inner, rfl⟩⟩
  · rw [collapse_append_of_notMem hs', collapseRun_of_notMem hs']
  · rw [List.append_assoc, List.cons_append, collapse_append_break hbefore,
      afterBlankLines_append_of_notMem (fun h => hafter (List.mem_of_mem_tail h)) ht,
      collapse_append_of_notMem hafter, collapseRun_break hbefore hafter]
    simp
  · have hinner : ∀ c ∈ inner, isBlank c = true := fun c hc => hs c (by simp [hc])
    rw [List.append_assoc, List.cons_append, List.append_assoc, List.cons_append,
      collapse_append_break hbefore, collapseRun_breaks hbefore hafter]
    by_cases hne : inner = []
    · -- The second line end starts a blank line of its own, which is left alone.
      subst hne
      have hkept : afterBlankLines ('\n' :: (after ++ t)) = '\n' :: (after ++ t) :=
        afterBlankLines_append_of_notMem (s := '\n' :: after) hafter ht
      have hnext : collapse ([] ++ '\n' :: (after ++ t)) = [] ++ '\n' :: collapse _ :=
        collapse_append_break List.not_mem_nil _
      rw [List.nil_append, hkept, if_pos rfl]
      rw [List.nil_append, List.nil_append,
        afterBlankLines_append_of_notMem (fun h => hafter (List.mem_of_mem_tail h)) ht,
        collapse_append_of_notMem hafter] at hnext
      rw [hnext]
      simp
    · rw [afterBlankLines_append_break hne hinner hafter ht, collapse_append_of_notMem hafter,
        if_neg hne]
      simp

/-- Collapsing leaves a run alone, or it takes out what stands between two of its line ends
together with one of them. -/
theorem collapseRun_cases (run : Text) : collapseRun run = run ∨
    ∃ before inner after, run = before ++ '\n' :: (inner ++ '\n' :: after) ∧ '\n' ∉ before ∧
      '\n' ∉ after ∧ inner ≠ [] ∧ collapseRun run = before ++ '\n' :: after := by
  rcases exists_breaks run with hrun | ⟨before, after, hbefore, hafter, rfl | ⟨inner, rfl⟩⟩
  · exact Or.inl (collapseRun_of_notMem hrun)
  · exact Or.inl (collapseRun_break hbefore hafter)
  · have hbreaks := collapseRun_breaks hbefore hafter inner
    by_cases hinner : inner = []
    · rw [if_pos hinner] at hbreaks
      exact Or.inl (by rw [hbreaks, hinner]; rfl)
    · rw [if_neg hinner] at hbreaks
      exact Or.inr ⟨before, inner, after, rfl, hbefore, hafter, hinner, hbreaks⟩

theorem collapseRun_subset (run : Text) : collapseRun run ⊆ run := by
  rcases collapseRun_cases run with h | ⟨before, inner, after, rfl, -, -, -, h⟩
  · rw [h]
    exact List.Subset.refl run
  · rw [h]
    intro c hc
    simp only [List.mem_append, List.mem_cons] at hc ⊢
    rcases hc with hc | rfl | hc
    · exact Or.inl hc
    · exact Or.inr (Or.inl rfl)
    · exact Or.inr (Or.inr (Or.inr (Or.inr hc)))

theorem collapseRun_ne_nil {run : Text} (hne : run ≠ []) : collapseRun run ≠ [] := by
  rcases collapseRun_cases run with h | ⟨before, inner, after, -, -, -, -, h⟩
  · rwa [h]
  · simp [h]

theorem collapseRun_collapseRun (run : Text) : collapseRun (collapseRun run) = collapseRun run := by
  rcases collapseRun_cases run with h | ⟨before, inner, after, -, hbefore, hafter, -, h⟩
  · rw [h, h]
  · rw [h, collapseRun_break hbefore hafter]

/-- Runs are collapsed each by itself. -/
theorem Alternating.collapse_flatten {blank : Bool} {rs : List Text} (h : Alternating blank rs) :
    collapse rs.flatten = rs.flatMap collapseRun := by
  induction h with
  | nil => exact collapse_of_notMem List.not_mem_nil
  | @cons blank run rest hne hrun hrest ih =>
    rw [List.flatten_cons, List.flatMap_cons, ← ih]
    cases blank with
    | true => exact collapse_append_of_blank hrun hrest.isBlank_head
    | false =>
      have hbreak : '\n' ∉ run := fun hc => absurd (hrun _ hc) (by decide)
      rw [collapse_append_of_notMem hbreak, collapseRun_of_notMem hbreak]

theorem collapse_eq_flatMap_runs (t : Text) : collapse t = (runs t).flatMap collapseRun := by
  obtain ⟨blank, h⟩ := alternating_runs t
  conv_lhs => rw [← flatten_runs t]
  exact h.collapse_flatten

/-- The runs of a collapsed text are the collapsed runs. -/
theorem runs_collapse (t : Text) : runs (collapse t) = (runs t).map collapseRun := by
  obtain ⟨blank, h⟩ := alternating_runs t
  rw [collapse_eq_flatMap_runs, List.flatMap_def]
  exact (h.map (fun _ => collapseRun_ne_nil) collapseRun_subset).runs_flatten

theorem collapse_collapse (t : Text) : collapse (collapse t) = collapse t := by
  have hruns : collapseRun ∘ collapseRun = collapseRun := funext collapseRun_collapseRun
  rw [collapse_eq_flatMap_runs (collapse t), runs_collapse, List.flatMap_def, List.map_map, hruns,
    ← List.flatMap_def, ← collapse_eq_flatMap_runs]

theorem collapseRun_of_words {run : Text} (h : ∀ c ∈ run, isBlank c = false) :
    collapseRun run = run :=
  collapseRun_of_notMem fun hbreak => absurd (h _ hbreak) (by decide)

/-- All that is not white space stays, in its order. -/
theorem filter_collapse (t : Text) :
    (collapse t).filter (!isBlank ·) = t.filter (!isBlank ·) := by
  conv_rhs => rw [← flatten_runs t]
  rw [collapse_eq_flatMap_runs, List.filter_flatMap, List.filter_flatten, ← List.flatMap_def]
  refine List.flatMap_congr fun run hrun => ?_
  obtain ⟨_, h⟩ := alternating_runs t
  obtain ⟨blank, hblank⟩ := h.isBlank_of_mem hrun
  cases blank with
  | true =>
    have hnone : ∀ {u : Text}, u ⊆ run → u.filter (!isBlank ·) = [] := by
      intro u hu
      refine List.filter_eq_nil_iff.mpr fun c hc => ?_
      simp [hblank c (hu hc)]
    rw [hnone (collapseRun_subset run), hnone (List.Subset.refl run)]
  | false => rw [collapseRun_of_words hblank]

section lines

theorem exists_of_afterLastBreak? {t rest : Text} (h : afterLastBreak? t = some rest) :
    ∃ s, (∀ c ∈ s, isBlank c = true) ∧ t = s ++ '\n' :: rest := by
  induction t with
  | nil => cases h
  | cons c t ih =>
    simp only [afterLastBreak?, Option.ite_none_right_eq_some, Option.or_eq_some_iff,
      Option.some.injEq] at h
    obtain ⟨hc, h | ⟨-, rfl, rfl⟩⟩ := h
    · obtain ⟨s, hs, rfl⟩ := ih h
      exact ⟨c :: s, List.forall_mem_cons.mpr ⟨hc, hs⟩, rfl⟩
    · exact ⟨[], by simp, rfl⟩

/-- What is passed over are whole lines of white space. -/
theorem lines_afterBlankLines (t : Text) : ∃ blanks, lines t = blanks ++ lines (afterBlankLines t) ∧
    ∀ l ∈ blanks, ∀ c ∈ l, isBlank c = true := by
  have hstays : ∀ u, afterBlankLines u = u → ∃ blanks,
      lines u = blanks ++ lines (afterBlankLines u) ∧ ∀ l ∈ blanks, ∀ c ∈ l, isBlank c = true := by
    intro u hu
    exact ⟨[], by rw [hu, List.nil_append], by simp⟩
  cases t with
  | nil => exact hstays [] rfl
  | cons c t =>
    by_cases hc : isBlank c = true
    · cases hrest : afterLastBreak? t with
      | none => exact hstays _ (by simp [afterBlankLines, hrest])
      | some rest =>
        obtain ⟨s, hs, rfl⟩ := exists_of_afterLastBreak? hrest
        have hafter : afterBlankLines (c :: (s ++ '\n' :: rest)) = rest := by
          simp [afterBlankLines, hc, hrest]
        have hblank : ∀ d ∈ c :: s, isBlank d = true := List.forall_mem_cons.mpr ⟨hc, hs⟩
        refine ⟨lines (c :: s), ?_, fun l hl d hd => ?_⟩
        · rw [hafter]
          exact lines_append_break (c :: s) rest
        · exact hblank d ((infix_of_mem_lines hl).2.subset hd)
    · exact hstays _ (by simp [afterBlankLines, hc])

/-- Lines are taken out, but none is changed and no two are joined; lines with more than white
space on them all stay. -/
theorem lines_collapse (t : Text) : (lines (collapse t)).Sublist (lines t) ∧
    (lines (collapse t)).filter (·.any (!isBlank ·)) = (lines t).filter (·.any (!isBlank ·)) := by
  induction hn : t.length using Nat.strong_induction_on generalizing t with
  | h n ih =>
    by_cases ht : '\n' ∈ t
    · obtain ⟨line, rest, rfl, hline⟩ := List.eq_append_cons_of_mem ht
      have hlt : (afterBlankLines rest).length < n := by
        have hle := length_afterBlankLines rest
        simp only [List.length_append, List.length_cons] at hn
        omega
      obtain ⟨hsublist, hwords⟩ := ih _ hlt _ rfl
      obtain ⟨blanks, hblanks, hblank⟩ := lines_afterBlankLines rest
      have hnone : blanks.filter (·.any (!isBlank ·)) = [] := by
        refine List.filter_eq_nil_iff.mpr fun l hl => ?_
        simpa using hblank l hl
      rw [collapse_append_break hline, lines_append hline, lines_append hline, hblanks]
      refine ⟨(hsublist.trans (List.sublist_append_right _ _)).cons_cons line, ?_⟩
      simp only [List.filter_cons, List.filter_append, hnone, hwords, List.nil_append]
    · rw [collapse_of_notMem ht]
      exact ⟨List.Sublist.refl _, rfl⟩

end lines

section edges

variable {before after : Text}

theorem takeWhile_append_break (hbefore : '\n' ∉ before) (t : Text) :
    (before ++ '\n' :: t).takeWhile (· != '\n') = before := by
  have hpass : ∀ c ∈ before, (c != '\n') = true := by
    intro c hc
    simpa using fun h : c = '\n' => hbefore (h ▸ hc)
  rw [List.takeWhile_append_of_pos hpass, List.takeWhile_cons_of_neg (by simp), List.append_nil]

theorem rtakeWhile_append_break (hafter : '\n' ∉ after) (t : Text) :
    (t ++ '\n' :: after).rtakeWhile (· != '\n') = after := by
  have hreverse : (t ++ '\n' :: after).reverse = after.reverse ++ '\n' :: t.reverse := by simp
  rw [List.rtakeWhile, hreverse, takeWhile_append_break (by simpa using hafter),
    List.reverse_reverse]

/-- What stands in a run before its first line end or behind its last one stays. -/
theorem exists_collapseRun_eq {run : Text} (h : '\n' ∈ run) : ∃ breaks, '\n' ∈ breaks ∧
    collapseRun run = run.takeWhile (· != '\n') ++ breaks ++ run.rtakeWhile (· != '\n') := by
  rcases exists_breaks run with hrun | ⟨before, after, hbefore, hafter, rfl | ⟨inner, rfl⟩⟩
  · exact absurd h hrun
  · refine ⟨['\n'], List.mem_singleton_self _, ?_⟩
    rw [collapseRun_break hbefore hafter, takeWhile_append_break hbefore,
      rtakeWhile_append_break hafter]
    simp
  · have hafter' := rtakeWhile_append_break hafter (before ++ '\n' :: inner)
    rw [List.append_assoc, List.cons_append] at hafter'
    rw [collapseRun_breaks hbefore hafter, takeWhile_append_break hbefore, hafter']
    by_cases hinner : inner = []
    · exact ⟨['\n', '\n'], by simp, by simp [hinner]⟩
    · exact ⟨['\n'], by simp, by simp [hinner]⟩

end edges

/-- No line end with white space and another line end behind it stands in the text. -/
def WithoutBlankLines (t : Text) : Prop :=
  ∀ s, s ≠ [] → (∀ c ∈ s, isBlank c = true) → ¬ '\n' :: (s ++ ['\n']) <:+: t

theorem idxOf_append_cons_le (s : Text) (c : Char) (t : Text) :
    (s ++ c :: t).idxOf c ≤ s.length := by
  by_cases hc : c ∈ s
  · rw [List.idxOf_append_of_mem hc]
    exact List.idxOf_le_length
  · rw [List.idxOf_append_of_notMem hc, List.idxOf_cons_self, Nat.add_zero]

/-- A run with a blank line gets shorter. -/
theorem collapseRun_ne {run s : Text} (hs : s ≠ []) (h : '\n' :: (s ++ ['\n']) <:+: run) :
    collapseRun run ≠ run := by
  obtain ⟨x, y, rfl⟩ := h
  have htext : x ++ '\n' :: (s ++ ['\n']) ++ y = x ++ '\n' :: (s ++ '\n' :: y) := by simp
  have hreverse : (x ++ '\n' :: (s ++ '\n' :: y)).reverse =
      y.reverse ++ '\n' :: (x ++ '\n' :: s).reverse := by simp
  have hfirst := idxOf_append_cons_le x '\n' (s ++ '\n' :: y)
  have hlast := idxOf_append_cons_le y.reverse '\n' (x ++ '\n' :: s).reverse
  have hpos := List.length_pos_iff.mpr hs
  intro heq
  rw [htext] at heq
  have hlength := congrArg List.length heq
  rw [← hreverse, List.length_reverse] at hlast
  rw [collapseRun, lastBreak] at hlength
  split at hlength
  · simp only [List.length_append, List.length_cons, List.length_take, List.length_drop] at hlength
    omega
  · next hshort =>
    simp only [List.length_append, List.length_cons] at hshort
    omega

/-- Collapsing leaves a text alone if there are no blank lines in it, and only then. -/
theorem withoutBlankLines_iff {t : Text} : WithoutBlankLines t ↔ collapse t = t := by
  obtain ⟨_, halternating⟩ := alternating_runs t
  constructor
  · intro h
    have hruns : ∀ run ∈ runs t, collapseRun run = run := by
      intro run hrun
      rcases collapseRun_cases run with hrun' | ⟨before, inner, after, rfl, -, -, hinner, -⟩
      · exact hrun'
      · obtain ⟨blank, hblank⟩ := halternating.isBlank_of_mem hrun
        obtain rfl : true = blank := hblank '\n' (by simp)
        have hwithin := List.infix_of_mem_flatten hrun
        rw [flatten_runs] at hwithin
        refine absurd (List.IsInfix.trans ⟨before, after, by simp⟩ hwithin) (h inner hinner ?_)
        exact fun c hc => hblank c (by simp [hc])
    rw [collapse_eq_flatMap_runs, List.flatMap_congr hruns, List.flatMap_id', flatten_runs]
  · intro heq s hne hs hwithin
    have hblank : ∀ c ∈ '\n' :: (s ++ ['\n']), isBlank c = true := by
      have hbreak : isBlank '\n' = true := by decide
      simpa [or_imp, forall_and, hbreak] using hs
    rw [← flatten_runs t] at hwithin
    obtain ⟨run, hrun, hinfix⟩ :=
      halternating.exists_infix hblank (List.cons_ne_nil _ _) hwithin
    have hmap := runs_collapse t
    rw [heq] at hmap
    have hfixed : (runs t).map collapseRun = (runs t).map id := by rw [← hmap, List.map_id]
    exact collapseRun_ne hne hinfix (List.map_inj_left.mp hfixed run hrun)

/-- Collapsing rewrites each run of white space by itself and changes nothing else. -/
theorem collapse_by_runs (t : Text) :
    ((∃ blank, Alternating blank (runs t)) ∧ (runs t).flatten = t) ∧
    collapse t = (runs t).flatMap collapseRun ∧
    (∀ run ∈ runs t, (∀ c ∈ run, isBlank c = false) → collapseRun run = run) ∧
    (∀ run ∈ runs t, '\n' ∈ run → ∃ breaks, '\n' ∈ breaks ∧
      collapseRun run = run.takeWhile (· != '\n') ++ breaks ++ run.rtakeWhile (· != '\n')) ∧
    (collapse t).filter (!isBlank ·) = t.filter (!isBlank ·) ∧
    (lines (collapse t)).Sublist (lines t) ∧
    (lines (collapse t)).filter (·.any (!isBlank ·)) = (lines t).filter (·.any (!isBlank ·)) ∧
    collapse (collapse t) = collapse t := by
  refine ⟨⟨alternating_runs t, flatten_runs t⟩, collapse_eq_flatMap_runs t, ?_, ?_,
    filter_collapse t, (lines_collapse t).1, (lines_collapse t).2, collapse_collapse t⟩
  · exact fun run _ hwords => collapseRun_of_words hwords
  · exact fun run _ hbreak => exists_collapseRun_eq hbreak

/-- Blanks around collapsed line ends stay, and so do two line ends with nothing between them. -/
theorem collapse_by_runs_mixed :
    let t := "a \n\t\r\n \n  b\n\nc\n d".toList
    let run := " \n\t\r\n \n  ".toList
    run ∈ runs t ∧ '\n' ∈ run ∧ (∃ breaks, '\n' ∈ breaks ∧
      collapseRun run = " ".toList ++ breaks ++ "  ".toList) ∧
    collapse t = "a \n  b\n\nc\n d".toList := by
  intro t run
  have hrun : run ∈ runs t := by decide +kernel
  have hbreak : '\n' ∈ run := by decide
  obtain ⟨-, hcollapse, -, hedges, -⟩ := collapse_by_runs t
  refine ⟨hrun, hbreak, hedges run hrun hbreak, ?_⟩
  rw [hcollapse]
  decide +kernel

end BlockTemplate.Text
