import BlockTemplate.CommandLine.Run

/-!
The outcome of a run for a template, but for what goes to the error output. The exit code and the
standard output come from one text: the run puts it out and succeeds if there is such a text, and
puts out nothing and fails if there is none.
-/
namespace BlockTemplate.CommandLine

/-- What a run for a template puts out, if it comes so far: the outline of the template if this
was asked for, otherwise the template printed with all values assigned. -/
def printed? (files : Files) (template : Path) (o : Options) : Option Text :=
  (o.settings files).toOption.bind fun s =>
    (files.text? template).bind fun text =>
      let t := (Template.ofText files (Origin.ofFile template) s text).1
      if o.has .tree then some t.root.outline
      else (o.values files).toOption.map fun values => (t.assignAll values).print.1

/-- The outcome that has this text as its output, if there is one. -/
def Outcome.ofPrinted (printed : Option Text) (errors : Text) : Outcome :=
  ⟨if printed.isSome then 0 else 1, printed.getD [], errors⟩

/-- The diagrams fail only where the template cannot be read. -/
theorem Options.diagrams_eq_ok (o : Options) {files : Files} (s : Settings) {template : Path}
    {text : Text} (h : files template = .ok text) : ∃ drawn,
      o.diagrams files s template = .ok drawn := by
  unfold diagrams
  rw [h]
  split
  · exact ⟨_, rfl⟩
  · exact ⟨_, rfl⟩

theorem exists_render_eq (files : Files) (template : Path) (o : Options) :
    ∃ errors, render files template o = .ofPrinted (printed? files template o) errors := by
  unfold render printed? Files.text?
  cases o.settings files with
  | error e => exact ⟨_, rfl⟩
  | ok s =>
    dsimp only
    cases htext : files template with
    | error cause =>
      have hload : Template.ofFile files s template = .error (.sourceNotFound template cause) := by
        rw [Template.ofFile, htext]
      rw [hload]
      cases o.diagrams files s template with
      | error e => exact ⟨_, rfl⟩
      | ok drawn => exact ⟨_, rfl⟩
    | ok text =>
      obtain ⟨drawn, hdrawn⟩ := o.diagrams_eq_ok s htext
      have hload : Template.ofFile files s template =
          .ok ((Template.ofText files (Origin.ofFile template) s text).1,
            .loaded template text.byteSize ::
              (Template.ofText files (Origin.ofFile template) s text).2) := by
        rw [Template.ofFile, htext]
      rw [hdrawn, hload]
      dsimp only [Except.toOption, Option.bind_some]
      split
      · exact ⟨_, rfl⟩
      · cases o.values files with
        | error e => exact ⟨_, rfl⟩
        | ok values => exact ⟨_, rfl⟩

/-- A failed run puts nothing out. -/
theorem Outcome.output_ofPrinted {printed : Option Text} {errors : Text}
    (h : (ofPrinted printed errors).code = 1) : (ofPrinted printed errors).output = [] := by
  cases printed with
  | none => rfl
  | some text => cases h

end BlockTemplate.CommandLine
