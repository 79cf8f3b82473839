import BlockTemplate.Proofs.Block.Fresh
import BlockTemplate.Proofs.CommandLine.Outcome
import BlockTemplate.Proofs.CommandLine.Understood
import BlockTemplate.Proofs.Toml.KeyOrder

/-!
Which value wins when a key is given more than once. The assignments of the command line come
after the data, and of several assignments the last one counts. Within the data the entries are
taken in the order of their keys, so that a key that is written with a dot in it and a path of
keys that leads to the same name do not depend on where they stand in the file.
-/
namespace BlockTemplate.CommandLine

open Text Block

/-- The key and the value that an item assigns, parted by the first equals sign. -/
def Item.assigned? : Item → Option (Text × Text)
  | .parameter .assignment t => cut? ['='] t
  | _ => none

/-- The assignments of a command line, in their order. -/
def assigned (arguments : List Text) : List (Text × Text) :=
  (items arguments).filterMap Item.assigned?

namespace Invocation

theorem cut?_of_assignment {t : Text} {a : Text × Text} (h : assignment t = .ok a) :
    cut? ['='] t = some a := by
  rw [assignment] at h
  split at h
  · next key value hcut =>
    split at h
    · cases h
    · obtain rfl := Except.ok.inj h
      exact hcut
  · cases h

/-- An item that assigns something adds this behind the assignments before it, and no other item
changes them. -/
theorem Draft.assignments_of_add {d d' : Draft} {item : Item} (h : d.add item = .ok d') :
    d'.options.assignments = d.options.assignments ++ item.assigned?.toList := by
  cases item with
  | wrong e => cases h
  | flag f =>
    rw [Draft.add] at h
    split at h
    · cases h
    · obtain rfl := Except.ok.inj h
      exact (List.append_nil _).symm
  | word t =>
    obtain ⟨p, -, rfl⟩ := exists_of_map_eq_ok h
    exact (List.append_nil _).symm
  | parameter p t =>
    cases p with
    | assignment =>
      obtain ⟨a, ha, rfl⟩ := exists_of_map_eq_ok h
      rw [Item.assigned?, cut?_of_assignment ha]
      rfl
    | data | config =>
      obtain ⟨p, -, rfl⟩ := exists_of_map_eq_ok h
      exact (List.append_nil _).symm

theorem Understood.assignments_eq {d : Draft} {is : List Item} {template : Path} {o : Options}
    (h : Understood d is (.render template o)) :
    o.assignments = d.options.assignments ++ is.filterMap Item.assigned? := by
  generalize hinv : render template o = inv at h
  induction h with
  | done =>
    obtain ⟨rfl, rfl⟩ := render.inj hinv
    exact (List.append_nil _).symm
  | help => cases hinv
  | @add d e item rest inv hitem hadd hrest ih =>
    rw [ih hinv, Draft.assignments_of_add hadd, List.append_assoc]
    cases hassigned : item.assigned? with
    | none => simp [hassigned]
    | some a => simp [hassigned]

theorem assignments_eq_assigned {arguments : List Text} {template : Path} {o : Options}
    (h : ofArguments arguments = .ok (.render template o)) :
    o.assignments = assigned arguments :=
  (understood_iff.mpr h).assignments_eq

end Invocation

/-- The entries of the data file as they are written, if it holds a document. Without a data file
there are none. -/
def Options.writtenData? (o : Options) (files : Files) : Option (List (Text × Value)) :=
  match o.data with
  | none => some []
  | some p => (files.text? p).bind fun t => (Toml.parse? t).bind Toml.entryValues?

section Data

variable {files : Files} {o : Options} {written : List (Text × Value)}

theorem Options.inKeyOrder_writtenData (h : o.writtenData? files = some written) :
    Value.InKeyOrder written (Value.sortByKey written) := by
  apply Value.inKeyOrder_sortByKey
  unfold writtenData? at h
  split at h
  · obtain rfl := Option.some.inj h
    simp
  · obtain ⟨t, -, h⟩ := Option.bind_eq_some_iff.mp h
    obtain ⟨es, -, h⟩ := Option.bind_eq_some_iff.mp h
    exact Toml.ordered_entryValues? es written h

theorem Options.dataValues_of_writtenData (h : o.writtenData? files = some written) :
    o.dataValues files = .ok (Value.sortByKey written) := by
  unfold writtenData? at h
  unfold dataValues
  cases hpath : o.data with
  | none =>
    rw [hpath] at h
    obtain rfl := Option.some.inj h
    rfl
  | some p =>
    rw [hpath] at h
    obtain ⟨t, ht, h⟩ := Option.bind_eq_some_iff.mp h
    obtain ⟨es, hes, h⟩ := Option.bind_eq_some_iff.mp h
    have hread : files p = .ok t := by
      cases hfile : files p with
      | error cause => simp [Files.text?, hfile, Except.toOption] at ht
      | ok t' => simpa [Files.text?, hfile, Except.toOption] using ht
    have hvalues : Toml.values? t = some (Value.sortByKey written) := by
      rw [Toml.values?, hes, Option.bind_some, h, Option.map_some]
    simp only [hread, hvalues]

/-- The values that are assigned in a run for a template. -/
theorem Options.values_of_writtenData (h : o.writtenData? files = some written) :
    o.values files =
      .ok (Value.sortByKey written ++ o.assignments.map fun a => (a.1, .scalar a.2)) := by
  rw [values, dataValues_of_writtenData h]
  rfl

theorem scalars_append (values values' : List (Text × Value)) :
    scalars (values ++ values') = scalars values ++ scalars values' :=
  List.flatMap_append ..

theorem scalars_map_scalar (as : List (Text × Text)) :
    scalars (as.map fun a => (a.1, .scalar a.2)) = as := by
  induction as with
  | nil => rfl
  | cons a as ih =>
    rw [List.map_cons, scalars, List.flatMap_cons, ← scalars, ih]
    rfl

theorem run_eq_ofPrinted {arguments : List Text} {template : Path} {s : Settings} {text : Text}
    {values : List (Text × Value)}
    (hinv : Invocation.ofArguments arguments = .ok (.render template o))
    (htree : o.has .tree = false) (hsettings : o.settings files = .ok s)
    (htext : files template = .ok text) (hvalues : o.values files = .ok values) :
    ∃ errors, run files arguments = .ofPrinted (some
      ((Template.ofText files (Origin.ofFile template) s text).1.assignAll values).print.1)
      errors := by
  obtain ⟨errors, hrender⟩ := exists_render_eq files template o
  refine ⟨errors, ?_⟩
  rw [run, hinv]
  dsimp only
  rw [hrender, printed?, hsettings, Files.text?, htext, hvalues, htree]
  rfl

end Data

/-- When a template is rendered for a command line, in every block each key stands for the value
of the last assignment of the command line, and if there is none for the last scalar of the data
in the order of their keys. The output is what the root reads then, with nothing in the slots of
its children. -/
theorem render_by_precedence {files : Files} {arguments : List Text} {template : Path}
    {o : Options} {s : Settings} {text : Text} {written : List (Text × Value)}
    (hinv : Invocation.ofArguments arguments = .ok (.render template o))
    (htree : o.has .tree = false) (hsettings : o.settings files = .ok s)
    (htext : files template = .ok text) (hdata : o.writtenData? files = some written) :
    let entries := Value.sortByKey written
    let values := entries ++ (assigned arguments).map fun a => (a.1, Value.scalar a.2)
    let bound := (Template.ofText files (Origin.ofFile template) s text).1.assignAll values
    Value.InKeyOrder written entries ∧ o.values files = .ok values ∧
      (∀ c ∈ bound.root.nodes, ∀ key, c.boundText? key =
        (lastOf? key (assigned arguments)).or (lastOf? key (scalars entries))) ∧
      (run files arguments).code = 0 ∧ (run files arguments).output = bound.print.1 ∧
      bound.print.1 = bound.root.snapshotWith fun _ => [] := by
  intro entries values bound
  have hassigned := Invocation.assignments_eq_assigned hinv
  have hvalues : o.values files = .ok values := by
    rw [Options.values_of_writtenData hdata, hassigned]
  have hfresh : (Template.ofText files (Origin.ofFile template) s text).1.root.Fresh :=
    fresh_build files (Origin.ofFile template) s text
  obtain ⟨errors, hrun⟩ := run_eq_ofPrinted hinv htree hsettings htext hvalues
  refine ⟨Options.inKeyOrder_writtenData hdata, hvalues, ?_, ?_, ?_, ?_⟩
  · intro c hc key
    rw [Template.root_assignAll] at hc
    rw [hfresh.boundText?_of_mem_nodes values hc, scalars_append, scalars_map_scalar,
      lastOf?_append]
  · rw [hrun]
    rfl
  · rw [hrun]
    rfl
  · exact Template.print_assignAll hfresh values

/-- A key with a dot in it that a table leads to as well, and a key that is assigned twice. -/
theorem render_by_precedence_collisions :
    let page : Path := ⟨"page".toList⟩
    let data : Path := ⟨"data".toList⟩
    let files : Files := fun p =>
      if p = page then .ok "\x7ba.x\x7d,\x7bb\x7d,\x7bc\x7d<!--begin:r-->\x7bb\x7d<!--end:r-->".toList
      else if p = data then .ok "b = 1\n\"a.x\" = \"quoted\"\n[a]\nx = \"nested\"".toList
      else .error .notFound
    let arguments := ["--set".toList, "b=2".toList, "-d".toList, "data".toList,
      "--set=b=3=4".toList, "page".toList]
    let o : Options := ⟨some data, none, [("b".toList, "2".toList), ("b".toList, "3=4".toList)], []⟩
    let built := (Template.ofText files (Origin.ofFile page) (o.adapt {})
      ((files.text? page).getD [])).1
    Invocation.ofArguments arguments = .ok (.render page o) ∧ o.has .tree = false ∧
      o.settings files = .ok (o.adapt {}) ∧ (files page).isOk = true ∧
      ∃ written, o.writtenData? files = some written ∧
        (∀ c ∈ (built.assignAll (Value.sortByKey written ++
            (assigned arguments).map fun a => (a.1, Value.scalar a.2))).root.nodes,
          c.boundText? "a.x".toList = some "quoted".toList ∧
          c.boundText? "b".toList = some "3=4".toList ∧ c.boundText? "c".toList = none) ∧
        (run files arguments).output = "quoted,3=4,\x7bc\x7d".toList := by
  intro page data files arguments o built
  have hinv : Invocation.ofArguments arguments = .ok (.render page o) := rfl
  have hsome : (o.writtenData? files).isSome = true := by decide +kernel
  have hquoted : (o.writtenData? files).map
      (fun w => lastOf? "a.x".toList (scalars (Value.sortByKey w))) = some (some "quoted".toList) := by
    decide +kernel
  have hnone : (o.writtenData? files).map
      (fun w => lastOf? "c".toList (scalars (Value.sortByKey w))) = some none := by
    decide +kernel
  obtain ⟨written, hwritten⟩ := Option.isSome_iff_exists.mp hsome
  rw [hwritten, Option.map_some] at hquoted hnone
  obtain ⟨-, -, hbound, -⟩ := render_by_precedence hinv rfl rfl rfl hwritten
  refine ⟨hinv, rfl, rfl, rfl, written, hwritten, fun c hc => ⟨?_, ?_, ?_⟩, by decide +kernel⟩
  · have hassigned : lastOf? "a.x".toList (assigned arguments) = none := by decide +kernel
    rw [hbound c hc, hassigned, Option.some.inj hquoted]
    rfl
  · have hassigned : lastOf? "b".toList (assigned arguments) = some "3=4".toList := by
      decide +kernel
    rw [hbound c hc, hassigned]
    rfl
  · have hassigned : lastOf? "c".toList (assigned arguments) = none := by decide +kernel
    rw [hbound c hc, hassigned, Option.some.inj hnone]
    rfl

end BlockTemplate.CommandLine
