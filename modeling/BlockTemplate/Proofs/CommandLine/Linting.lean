import BlockTemplate.Proofs.CommandLine.Outcome
import BlockTemplate.Proofs.CommandLine.Understood

/-!
The flag that asks for warnings. Wherever it is added to a command line, as long as both lines are
understood they ask for the same but for the warnings. A run reads the template for the warnings
and once more to render it, and puts nothing out before both: with and without the flag it has
the same exit code and the same output.
-/
namespace BlockTemplate.CommandLine

def lintArgument : Text := "--lint".toList

/-- The second options are the first with the flag for warnings. -/
structure Options.AddsLint (o o' : Options) : Prop where
  data : o'.data = o.data
  config : o'.config = o.config
  assignments : o'.assignments = o.assignments
  has : ∀ f, o'.has f = (o.has f || f == .lint)

namespace Options.AddsLint

variable {o o' : Options} (h : o.AddsLint o')

include h

theorem has_of_ne {f : Flag} (hf : f ≠ .lint) : o'.has f = o.has f := by
  rw [h.has, beq_eq_false_iff_ne.mpr hf, Bool.or_false]

theorem adapt (s : Settings) : o'.adapt s = o.adapt s := by
  rw [Options.adapt, Options.adapt, h.has_of_ne (by decide), h.has_of_ne (by decide)]

theorem settings (files : Files) : o'.settings files = o.settings files := by
  have hadapt : o'.adapt = o.adapt := funext h.adapt
  rw [Options.settings, Options.settings, h.config, hadapt]

theorem values (files : Files) : o'.values files = o.values files := by
  rw [Options.values, Options.values, Options.dataValues, Options.dataValues, h.data,
    h.assignments]

theorem printed? (files : Files) (template : Path) :
    printed? files template o' = CommandLine.printed? files template o := by
  rw [CommandLine.printed?, CommandLine.printed?, h.settings, h.values, h.has_of_ne (by decide)]

end Options.AddsLint

namespace Invocation

inductive AddsLint : Invocation → Invocation → Prop
  | help : AddsLint help help
  | render {template : Path} {o o' : Options} (h : o.AddsLint o') :
      AddsLint (render template o) (render template o')

structure Draft.AddsLint (d d' : Draft) : Prop where
  template : d'.template = d.template
  options : d.options.AddsLint d'.options

/-- Either nothing comes of two drafts, or the second is the first with the flag. -/
inductive Alike : Except UsageError Draft → Except UsageError Draft → Prop
  | error (e : UsageError) : Alike (.error e) (.error e)
  | ok {d d' : Draft} (h : d.AddsLint d') : Alike (.ok d) (.ok d')

theorem Alike.map {α : Type} {f g : α → Draft} (h : ∀ a, (f a).AddsLint (g a))
    (x : Except UsageError α) : Alike (x.map f) (x.map g) := by
  cases x with
  | error e => exact .error e
  | ok a => exact .ok (h a)

variable {d d' : Draft}

theorem addsLint_of_add_lint (h : d.add (.flag .lint) = .ok d') : d.AddsLint d' := by
  rw [Draft.add] at h
  split at h
  · cases h
  · obtain rfl := Except.ok.inj h
    refine ⟨rfl, rfl, rfl, rfl, fun f => ?_⟩
    rw [Options.has, List.contains_cons, Bool.or_comm]
    rfl

theorem add_lint_of_addsLint (h : d.AddsLint d') :
    d'.add (.flag .lint) = .error (.repeated (.flag .lint)) := by
  have hgiven : d'.options.has .lint = true := by simp [h.options.has]
  exact if_pos hgiven

/-- An item other than the flag is taken or refused by both drafts. -/
theorem Draft.AddsLint.add (h : d.AddsLint d') {item : Item} (hitem : item ≠ .flag .lint) :
    Alike (d.add item) (d'.add item) := by
  have ho := h.options
  cases item with
  | wrong e => exact .error e
  | flag f =>
    have hf : f ≠ .lint := fun heq => hitem (heq ▸ rfl)
    simp only [Draft.add, ho.has_of_ne hf]
    split
    · exact .error _
    · refine .ok ⟨h.template, ho.data, ho.config, ho.assignments, fun g => ?_⟩
      have hg := ho.has g
      simp only [Options.has, List.contains_cons] at hg ⊢
      rw [hg, Bool.or_assoc]
  | word t =>
    rw [Draft.add, Draft.add, h.template]
    refine .map (fun p => ?_) _
    exact ⟨rfl, ho⟩
  | parameter p t =>
    cases p with
    | data =>
      rw [Draft.add, Draft.add, ho.data]
      refine .map (fun p => ?_) _
      exact ⟨h.template, rfl, ho.config, ho.assignments, ho.has⟩
    | assignment =>
      rw [Draft.add, Draft.add]
      refine .map (fun a => ?_) _
      exact ⟨h.template, ho.data, ho.config, by rw [ho.assignments], ho.has⟩
    | config =>
      rw [Draft.add, Draft.add, ho.config]
      refine .map (fun p => ?_) _
      exact ⟨h.template, ho.data, rfl, ho.assignments, ho.has⟩

/-- Whatever was given before, if both lists of items are understood the second asks for what the
first asks for, with the flag. -/
def Agreeing (ys zs : List Item) : Prop :=
  ∀ d inv inv', Understood d ys inv → Understood d zs inv' → inv.AddsLint inv'

theorem Agreeing.cons {ys zs : List Item} (h : Agreeing ys zs) (item : Item) :
    Agreeing (item :: ys) (item :: zs) := by
  intro d inv inv' hinv hinv'
  cases hinv with
  | help =>
    cases hinv' with
    | help => exact .help
    | add hitem => exact absurd rfl hitem
  | @add _ e _ _ _ hitem hadd hrest =>
    cases hinv' with
    | help => exact absurd rfl hitem
    | add _ hadd' hrest' =>
      obtain rfl := Except.ok.inj (hadd.symm.trans hadd')
      exact h e inv inv' hrest hrest'

theorem Agreeing.append {ys zs : List Item} (h : Agreeing ys zs) (xs : List Item) :
    Agreeing (xs ++ ys) (xs ++ zs) := by
  induction xs with
  | nil => exact h
  | cons x xs ih => exact ih.cons x

theorem agreeing_wrong (ys : List Item) (e : UsageError) : Agreeing ys [.wrong e] := by
  intro d inv inv' _ hinv'
  cases hinv' with
  | add _ hadd _ => cases hadd

/-- Drafts that differ in the flag only go through the same items alike. -/
theorem Understood.addsLint {ys : List Item} {inv inv' : Invocation} (hinv : Understood d ys inv)
    (hinv' : Understood d' ys inv') (h : d.AddsLint d') : inv.AddsLint inv' := by
  induction hinv generalizing d' with
  | done htemplate =>
    cases hinv' with
    | done htemplate' =>
      rw [h.template, htemplate] at htemplate'
      obtain rfl := Option.some.inj htemplate'
      exact .render h.options
  | help =>
    cases hinv' with
    | help => exact .help
    | add hitem => exact absurd rfl hitem
  | @add d e item rest inv hitem hadd _ ih =>
    cases hinv' with
    | help => exact absurd rfl hitem
    | @add _ e' _ _ _ _ hadd' hrest' =>
      by_cases hlint : item = .flag .lint
      · rw [hlint, add_lint_of_addsLint h] at hadd'
        cases hadd'
      · have halike := h.add hlint
        rw [hadd, hadd'] at halike
        cases halike with
        | ok h => exact ih hrest' h

theorem agreeing_lint (ys : List Item) : Agreeing ys (.flag .lint :: ys) := by
  intro d inv inv' hinv hinv'
  cases hinv' with
  | add _ hadd hrest => exact hinv.addsLint hrest (addsLint_of_add_lint hadd)

/-- Words alone are understood only if there is one template among them and what was given. -/
theorem Understood.length_words {words : List Text} {inv : Invocation}
    (h : Understood d (words.map .word) inv) :
    d.template.toList.length + words.length = 1 := by
  induction words generalizing d with
  | nil =>
    cases h with
    | done htemplate =>
      rw [htemplate]
      rfl
  | cons w words ih =>
    cases h with
    | add _ hadd hrest =>
      obtain ⟨p, hpath, rfl⟩ := exists_of_map_eq_ok hadd
      have hlength := ih hrest
      rw [firstPath] at hpath
      split at hpath
      · cases hpath
      · next hgiven =>
        obtain ⟨q, -, rfl⟩ := exists_of_map_eq_ok hpath
        rw [Option.not_isSome_iff_eq_none] at hgiven
        rw [hgiven, List.length_cons]
        simp only [Option.toList_some, List.length_singleton] at hlength
        simp only [Option.toList_none, List.length_nil]
        omega

theorem agreeing_words {ys zs : List Text} (h : ys.length ≠ zs.length) :
    Agreeing (ys.map .word) (zs.map .word) := by
  intro d inv inv' hinv hinv'
  have hy := hinv.length_words
  have hz := hinv'.length_words
  omega

/-- The items of a line and those of the line with the flag added. -/
theorem agreeing_itemsFrom (awaiting : Option Parameter) (before after : List Text) :
    Agreeing (itemsFrom awaiting (before ++ after))
      (itemsFrom awaiting (before ++ lintArgument :: after)) := by
  induction before generalizing awaiting with
  | nil =>
    cases awaiting with
    | none => exact agreeing_lint (itemsFrom none after)
    | some p => exact agreeing_wrong _ (.missingValue p)
  | cons a before ih =>
    simp only [List.cons_append, itemsFrom]
    split
    · exact (ih none).cons _
    · exact agreeing_wrong _ _
    · exact (ih none).cons _
    · exact agreeing_words (by simp)
    · exact (ih _).append _
    · exact (ih _).append _

/-- Items that the flag is not among are understood after the flag as well. -/
theorem Understood.exists_of_addsLint {ys : List Item} {inv : Invocation}
    (hinv : Understood d ys inv) (h : d.AddsLint d') (hys : .flag .lint ∉ ys) :
    ∃ inv', Understood d' ys inv' := by
  induction hinv generalizing d' with
  | done htemplate => exact ⟨_, .done (h.template.trans htemplate)⟩
  | help => exact ⟨.help, .help⟩
  | @add d e item rest inv hitem hadd _ ih =>
    rw [List.mem_cons, not_or] at hys
    have halike := h.add (Ne.symm hys.1)
    rw [hadd] at halike
    generalize hadd' : d'.add item = x at halike
    cases halike with
    | ok h =>
      obtain ⟨inv', hrest⟩ := ih h hys.2
      exact ⟨inv', .add hitem hadd' hrest⟩

theorem exists_ofArguments_lint {arguments : List Text} (h : .flag .lint ∉ items arguments)
    {inv : Invocation} (hinv : ofArguments arguments = .ok inv) :
    ∃ inv', ofArguments (lintArgument :: arguments) = .ok inv' := by
  have htaken : Draft.add {} (.flag .lint) = .ok { options := { flags := [.lint] } } := rfl
  obtain ⟨inv', hinv'⟩ :=
    (understood_iff.mpr hinv).exists_of_addsLint (addsLint_of_add_lint htaken) h
  have hadded : Understood {} (.flag .lint :: items arguments) inv' :=
    .add (by decide) htaken hinv'
  exact ⟨inv', understood_iff.mp hadded⟩

end Invocation

open Invocation

theorem run_of_addsLint (files : Files) {arguments arguments' : List Text}
    {inv inv' : Invocation} (hinv : ofArguments arguments = .ok inv)
    (hinv' : ofArguments arguments' = .ok inv') (h : inv.AddsLint inv') :
    (run files arguments').code = (run files arguments).code ∧
      (run files arguments').output = (run files arguments).output := by
  rw [run, run, hinv, hinv']
  cases h with
  | help => exact ⟨rfl, rfl⟩
  | @render template o o' h =>
    obtain ⟨errors, hrender⟩ := exists_render_eq files template o
    obtain ⟨errors', hrender'⟩ := exists_render_eq files template o'
    dsimp only
    rw [hrender, hrender', h.printed?]
    exact ⟨rfl, rfl⟩

theorem output_of_code_eq_one {files : Files} {arguments : List Text}
    (h : (run files arguments).code = 1) : (run files arguments).output = [] := by
  rw [run] at h ⊢
  cases hinv : ofArguments arguments with
  | error e => rfl
  | ok inv =>
    rw [hinv] at h
    cases inv with
    | help => cases h
    | render template o =>
      obtain ⟨errors, hrender⟩ := exists_render_eq files template o
      dsimp only at h ⊢
      rw [hrender] at h ⊢
      exact Outcome.output_ofPrinted h

/-- Wherever the flag for warnings is added to a command line, exit code and output stay the same
as long as both lines are understood, and a line without the flag is still understood with the
flag in front. A run with exit code 1 puts nothing out, with the flag or without it. -/
theorem run_with_lint (files : Files) :
    (∀ before after inv inv', ofArguments (before ++ after) = .ok inv →
      ofArguments (before ++ lintArgument :: after) = .ok inv' →
      inv.AddsLint inv' ∧
      (run files (before ++ lintArgument :: after)).code = (run files (before ++ after)).code ∧
      (run files (before ++ lintArgument :: after)).output =
        (run files (before ++ after)).output) ∧
    (∀ arguments inv, ofArguments arguments = .ok inv → .flag .lint ∉ items arguments →
      ∃ inv', ofArguments (lintArgument :: arguments) = .ok inv') ∧
    ∀ arguments, (run files arguments).code = 1 → (run files arguments).output = [] := by
  refine ⟨?_, fun arguments inv hinv h => exists_ofArguments_lint h hinv,
    fun arguments h => output_of_code_eq_one h⟩
  intro before after inv inv' hinv hinv'
  have h : inv.AddsLint inv' := agreeing_itemsFrom none before after {} inv inv'
    (understood_iff.mpr hinv) (understood_iff.mpr hinv')
  exact ⟨h, run_of_addsLint files hinv hinv' h⟩

/-- A page with an end marker that closes nothing, and a page that is not there. -/
theorem run_with_lint_stray_end :
    let page : Path := ⟨"page".toList⟩
    let files : Files := fun p =>
      if p = page then .ok "\x7bx\x7d<!--end:a-->".toList else .error .notFound
    let before := ["--set".toList, "x=1".toList]
    let after := ["page".toList]
    let absent := ["--tree".toList, "absent".toList, lintArgument]
    (∃ inv inv', ofArguments (before ++ after) = .ok inv ∧
      ofArguments (before ++ lintArgument :: after) = .ok inv' ∧ inv.AddsLint inv') ∧
    (run files (before ++ lintArgument :: after)).code = 0 ∧
    (run files (before ++ lintArgument :: after)).output = "1<!--end:a-->".toList ∧
    .flag .lint ∉ items (before ++ after) ∧
    (∃ inv, ofArguments (lintArgument :: (before ++ after)) = .ok inv) ∧
    (run files absent).code = 1 ∧ (run files absent).output = [] := by
  intro page files before after absent
  obtain ⟨hsame, hadded, hfailed⟩ := run_with_lint files
  have hplain : ofArguments (before ++ after) =
      .ok (.render page { assignments := [("x".toList, "1".toList)] }) := rfl
  have hlint : ofArguments (before ++ lintArgument :: after) =
      .ok (.render page { assignments := [("x".toList, "1".toList)], flags := [.lint] }) := rfl
  have hwithout : .flag .lint ∉ items (before ++ after) := by decide +kernel
  have hrun : (run files (before ++ after)).code = 0 ∧
      (run files (before ++ after)).output = "1<!--end:a-->".toList := by decide +kernel
  have hcode : (run files absent).code = 1 := by decide +kernel
  obtain ⟨h, hsamecode, hsameoutput⟩ := hsame before after _ _ hplain hlint
  exact ⟨⟨_, _, hplain, hlint, h⟩, hsamecode.trans hrun.1, hsameoutput.trans hrun.2, hwithout,
    hadded _ _ hplain hwithout, hcode, hfailed absent hcode⟩

end BlockTemplate.CommandLine
