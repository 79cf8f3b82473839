import BlockTemplate.CommandLine.Options

/-!
How a command line is understood, item by item. Each item is added to the draft of what was given
before it, up to the end or to a request for help. At the end the draft must have a template.
-/
namespace BlockTemplate.CommandLine.Invocation

/-- With `d` given before them, the items ask for `inv`. -/
inductive Understood : Draft → List Item → Invocation → Prop
  | done {d : Draft} {template : Path} (h : d.template = some template) :
      Understood d [] (render template d.options)
  | help {d : Draft} {rest : List Item} : Understood d (.flag .help :: rest) help
  | add {d e : Draft} {item : Item} {rest : List Item} {inv : Invocation}
      (hitem : item ≠ .flag .help) (h : d.add item = .ok e) (hrest : Understood e rest inv) :
      Understood d (item :: rest) inv

theorem ofItems_cons {item : Item} (hitem : item ≠ .flag .help) (d : Draft) (rest : List Item) :
    ofItems d (item :: rest) = (d.add item).bind fun d => ofItems d rest := by
  rw [ofItems]
  simpa using hitem

theorem understood_iff {d : Draft} {is : List Item} {inv : Invocation} :
    Understood d is inv ↔ ofItems d is = .ok inv := by
  constructor
  · intro h
    induction h with
    | done h => rw [ofItems, h]
    | help => rfl
    | add hitem h _ ih =>
      rw [ofItems_cons hitem, h]
      exact ih
  · intro h
    induction is generalizing d with
    | nil =>
      rw [ofItems] at h
      split at h
      · next template htemplate =>
        obtain rfl := Except.ok.inj h
        exact .done htemplate
      · cases h
    | cons item rest ih =>
      by_cases hitem : item = .flag .help
      · subst hitem
        obtain rfl := Except.ok.inj h
        exact .help
      · rw [ofItems_cons hitem] at h
        cases hadd : d.add item with
        | error e =>
          rw [hadd] at h
          cases h
        | ok e =>
          rw [hadd] at h
          exact .add hitem hadd (ih h)

theorem exists_of_map_eq_ok {ε α β : Type} {x : Except ε α} {f : α → β} {y : β}
    (h : x.map f = .ok y) : ∃ a, x = .ok a ∧ f a = y := by
  cases x with
  | error e => cases h
  | ok a => exact ⟨a, rfl, Except.ok.inj h⟩

end BlockTemplate.CommandLine.Invocation
