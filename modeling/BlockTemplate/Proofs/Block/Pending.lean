import BlockTemplate.Proofs.Block.Step
import BlockTemplate.Proofs.Rendering.Filling
import Mathlib.Data.List.DropRight

/-!
What is pending at a block, told by the history of a run. A block is drained by itself or by a
commit of its parent, and a commit of its own adds a snapshot. What is pending are then the
snapshots since the last drain, so that each snapshot goes to exactly one drain or is still there
at the end.
-/
namespace BlockTemplate.Block

open Text

/-- The address of the parent of a block other than the root. -/
def parent? : Address → Option Address
  | [] => none
  | i :: rest => some (i :: rest).dropLast

theorem parent?_eq_some_iff {a p : Address} : parent? a = some p ↔ ∃ i, a = p ++ [i] := by
  constructor
  · intro h
    cases a with
    | nil => cases h
    | cons i rest =>
      have hp := Option.some.inj h
      refine ⟨(i :: rest).getLast (List.cons_ne_nil i rest), ?_⟩
      rw [← hp, List.dropLast_append_getLast]
  · rintro ⟨i, rfl⟩
    cases p with
    | nil => rfl
    | cons j p =>
      show some (j :: p ++ [i]).dropLast = some (j :: p)
      rw [List.dropLast_concat]

/-- The step commits the block at `a`. -/
def commitsAt (a : Address) : Step → Bool
  | (p, .commit) => p == a
  | _ => false

/-- The step drains the block at `a`: as the operation itself, or as a commit of its parent. -/
def drainsAt (a : Address) : Step → Bool
  | (p, .drain) => p == a
  | (p, .commit) => parent? a == some p
  | _ => false

theorem drainsAt_commit {a p : Address} :
    drainsAt a (p, .commit) = true ↔ ∃ i, a = p ++ [i] := by
  rw [drainsAt, beq_iff_eq, parent?_eq_some_iff]

/-- A step has to stand at the block or above it to drain it. -/
theorem prefix_of_drainsAt {a : Address} {s : Step} (h : drainsAt a s = true) : s.1 <+: a := by
  obtain ⟨p, op⟩ := s
  cases op with
  | assign => cases h
  | commit =>
    obtain ⟨i, rfl⟩ := drainsAt_commit.mp h
    exact List.prefix_append p [i]
  | drain =>
    obtain rfl : p = a := by simpa [drainsAt] using h
    exact List.prefix_refl p

theorem prefix_of_commitsAt {a : Address} {s : Step} (h : commitsAt a s = true) : s.1 <+: a := by
  obtain ⟨p, op⟩ := s
  cases op with
  | assign => cases h
  | commit =>
    obtain rfl : p = a := by simpa [commitsAt] using h
    exact List.prefix_refl p
  | drain => cases h

theorem commitsAt_of_drainsAt {a : Address} {s : Step} (h : drainsAt a s = true) :
    commitsAt a s = false := by
  obtain ⟨p, op⟩ := s
  cases op with
  | assign => cases h
  | commit =>
    obtain ⟨i, rfl⟩ := drainsAt_commit.mp h
    simp [commitsAt]
  | drain => rfl

/-- What is pending below a block after an operation on it. -/
theorem map_pending_at?_apply (p e : Address) (op : Operation) (b : Block) :
    ((op.apply b).at? e).map pending = (b.at? e).map fun c =>
      if drainsAt (p ++ e) (p, op) then []
      else c.pending ++ if commitsAt (p ++ e) (p, op) then [c.snapshot] else [] := by
  cases op with
  | assign key value =>
    simp [Operation.apply, at?_assign, drainsAt, commitsAt, Function.comp_def]
  | commit =>
    cases e with
    | nil =>
      have hnot : drainsAt p (p, .commit) = false := by
        rw [← Bool.not_eq_true, drainsAt_commit]
        simp
      simp [Operation.apply, commit, commitsAt, hnot]
    | cons i rest =>
      have hcommits : commitsAt (p ++ i :: rest) (p, .commit) = false := by simp [commitsAt]
      rw [Operation.apply, at?_commit_cons, at?_cons]
      cases rest with
      | nil =>
        have hdrains : drainsAt (p ++ [i]) (p, .commit) = true := drainsAt_commit.mpr ⟨i, rfl⟩
        cases b.children[i]? with
        | none => rfl
        | some c => simp [hdrains, emptied]
      | cons j rest =>
        have hdrains : drainsAt (p ++ i :: j :: rest) (p, .commit) = false := by
          rw [← Bool.not_eq_true, drainsAt_commit]
          simp
        cases b.children[i]? with
        | none => rfl
        | some c => simp [hdrains, hcommits, at?_emptied_cons]
  | drain =>
    cases e with
    | nil => simp [Operation.apply, emptied, drainsAt]
    | cons i rest => simp [Operation.apply, at?_emptied_cons, drainsAt, commitsAt]

/-- A drain leaves nothing pending, a commit adds its snapshot, and nothing else is added or
taken. -/
theorem map_pending_at?_step (a : Address) (s : Step) (b : Block) :
    ((b.update s.2.apply s.1).at? a).map pending = (b.at? a).map fun c =>
      if drainsAt a s then [] else c.pending ++ if commitsAt a s then [c.snapshot] else [] := by
  by_cases h : s.1 <+: a
  · obtain ⟨e, rfl⟩ := h
    rw [at?_update_append, at?_append]
    cases b.at? s.1 with
    | none => rfl
    | some c => exact map_pending_at?_apply s.1 e s.2 c
  · have hdrains : drainsAt a s = false := Bool.eq_false_iff.mpr fun hs => h (prefix_of_drainsAt hs)
    have hcommits : commitsAt a s = false :=
      Bool.eq_false_iff.mpr fun hs => h (prefix_of_commitsAt hs)
    rw [map_at?_update (fun _ => rfl) h]
    simp [hdrains, hcommits]

/-- The snapshots that a run takes of the block at `a`, in their order. -/
def snapshotsAt (a : Address) : List Step → Block → List Text
  | [], _ => []
  | s :: steps, b =>
    (if commitsAt a s then ((b.at? a).map snapshot).toList else []) ++
      snapshotsAt a steps (b.update s.2.apply s.1)

/-- What each drain of the block at `a` takes, drain by drain. -/
def takenAt (a : Address) : List Step → Block → List (List Text)
  | [], _ => []
  | s :: steps, b =>
    (if drainsAt a s then ((b.at? a).map pending).toList else []) ++
      takenAt a steps (b.update s.2.apply s.1)

/-- The steps after the last drain of the block at `a`. -/
def sinceDrain (a : Address) (steps : List Step) : List Step :=
  steps.rtakeWhile fun s => !drainsAt a s

/-- The steps up to the last drain of the block at `a`. -/
def untilDrain (a : Address) (steps : List Step) : List Step :=
  steps.rdropWhile fun s => !drainsAt a s

/-- The snapshots taken of the block at `a` since it was drained last. -/
def waiting (a : Address) (steps : List Step) (b : Block) : List Text :=
  snapshotsAt a (sinceDrain a steps) (run (untilDrain a steps) b)

variable {a : Address} {steps : List Step} {b : Block}

theorem snapshotsAt_append (a : Address) (steps steps' : List Step) (b : Block) :
    snapshotsAt a (steps ++ steps') b =
      snapshotsAt a steps b ++ snapshotsAt a steps' (run steps b) := by
  induction steps generalizing b with
  | nil => rfl
  | cons s steps ih =>
    rw [List.cons_append, snapshotsAt, snapshotsAt, ih, run_cons, List.append_assoc]

theorem waiting_of_drains (steps : List Step) (b : Block) {s : Step} (h : drainsAt a s = true) :
    waiting a (steps ++ [s]) b = [] := by
  have hnone : sinceDrain a (steps ++ [s]) = [] := by
    apply List.rtakeWhile_concat_neg
    simp [h]
  rw [waiting, hnone]
  rfl

theorem waiting_of_not_drains (steps : List Step) (b : Block) {s : Step}
    (h : drainsAt a s = false) : waiting a (steps ++ [s]) b =
      waiting a steps b ++ snapshotsAt a [s] (run steps b) := by
  have hnot : (!drainsAt a s) = true := by simp [h]
  have hsince : sinceDrain a (steps ++ [s]) = sinceDrain a steps ++ [s] :=
    List.rtakeWhile_concat_pos _ _ _ hnot
  have huntil : untilDrain a (steps ++ [s]) = untilDrain a steps :=
    List.rdropWhile_concat_pos _ _ _ hnot
  have hsplit : untilDrain a steps ++ sinceDrain a steps = steps :=
    List.rdropWhile_append_rtakeWhile ..
  have hrun : run (sinceDrain a steps) (run (untilDrain a steps) b) = run steps b := by
    rw [← run_append, hsplit]
  rw [waiting, hsince, huntil, snapshotsAt_append, hrun, waiting]

/-- The block at an address after a step, by the one that stood there before. -/
theorem exists_of_at?_step {s : Step} {c : Block}
    (h : (b.update s.2.apply s.1).at? a = some c) : ∃ d, b.at? a = some d ∧ c.pending =
      if drainsAt a s then [] else d.pending ++ if commitsAt a s then [d.snapshot] else [] := by
  have hstep := map_pending_at?_step a s b
  rw [h, Option.map_some] at hstep
  obtain ⟨d, hd, hpending⟩ := Option.map_eq_some_iff.mp hstep.symm
  exact ⟨d, hd, hpending.symm⟩

/-- If nothing is pending at the start, then later the snapshots since the last drain are. -/
theorem pending_run (hfresh : ∀ d ∈ b.nodes, d.pending = []) {c : Block}
    (hc : (run steps b).at? a = some c) : c.pending = waiting a steps b := by
  induction steps using List.reverseRecOn generalizing c with
  | nil => exact hfresh c (mem_nodes_of_at? hc)
  | append_singleton steps s ih =>
    rw [run_append, run_cons, run_nil] at hc
    obtain ⟨d, hd, hpending⟩ := exists_of_at?_step hc
    by_cases hdrains : drainsAt a s = true
    · rw [hpending, if_pos hdrains, waiting_of_drains steps b hdrains]
    · have hnot : drainsAt a s = false := Bool.eq_false_iff.mpr hdrains
      have hone : snapshotsAt a [s] (run steps b) =
          if commitsAt a s then [d.snapshot] else [] := by
        simp [snapshotsAt, hd]
      rw [hpending, if_neg hdrains, ih hd, waiting_of_not_drains steps b hnot, hone]

/-- Nothing gets lost and nothing is handed out twice: what was pending first and all snapshots
are what the drains have taken, one after the other, and what is pending at the end. -/
theorem flatten_takenAt_append {c d : Block} (hc : (run steps b).at? a = some c)
    (hd : b.at? a = some d) :
    (takenAt a steps b).flatten ++ c.pending = d.pending ++ snapshotsAt a steps b := by
  induction steps generalizing b d with
  | nil =>
    obtain rfl : d = c := Option.some.inj (hd.symm.trans hc)
    simp [takenAt, snapshotsAt]
  | cons s steps ih =>
    have hstep := map_pending_at?_step a s b
    rw [hd, Option.map_some] at hstep
    obtain ⟨d', hd', hpending⟩ := Option.map_eq_some_iff.mp hstep
    rw [run_cons] at hc
    rw [takenAt, snapshotsAt, List.flatten_append, List.append_assoc, ih hc hd', hpending, hd]
    by_cases hdrains : drainsAt a s = true
    · simp [hdrains, commitsAt_of_drainsAt hdrains]
    · simp [hdrains]

theorem isSome_at?_run (a : Address) (steps : List Step) (b : Block) :
    ((run steps b).at? a).isSome = (b.at? a).isSome := by
  induction steps generalizing b with
  | nil => rfl
  | cons s steps ih =>
    have hstep := congrArg Option.isSome (map_pending_at?_step a s b)
    rw [Option.isSome_map, Option.isSome_map] at hstep
    rw [run_cons, ih, hstep]

theorem snapshotsAt_eq_nil_iff (h : (b.at? a).isSome = true) :
    snapshotsAt a steps b = [] ↔ ∀ s ∈ steps, commitsAt a s = false := by
  induction steps generalizing b with
  | nil => simp [snapshotsAt]
  | cons s steps ih =>
    have hrest : ((b.update s.2.apply s.1).at? a).isSome = true := by
      rw [← h]
      exact isSome_at?_run a [s] b
    obtain ⟨c, hc⟩ := Option.isSome_iff_exists.mp h
    rw [snapshotsAt, List.append_eq_nil_iff, ih hrest, List.forall_mem_cons, hc]
    by_cases hcommits : commitsAt a s = true
    · simp [hcommits]
    · simp [hcommits]

theorem waiting_eq_nil_iff (h : ((run steps b).at? a).isSome = true) :
    waiting a steps b = [] ↔ ∀ s ∈ sinceDrain a steps, commitsAt a s = false := by
  apply snapshotsAt_eq_nil_iff
  rw [isSome_at?_run, ← isSome_at?_run a steps b, h]

/-- What the block reads with these texts in the slots of its children. -/
def snapshotWith (b : Block) (texts : Nat → Text) : Text :=
  let t := Slot.clear (Slot.fill (b.children.mapIdx fun i c => (c.name, texts i)) b.substituted)
  if b.style.collapseBlankLines then collapse t else t

theorem snapshot_eq_snapshotWith {texts : Nat → Text}
    (h : ∀ i c, b.children[i]? = some c → c.output = texts i) :
    b.snapshot = b.snapshotWith texts := by
  have hentries : b.children.map entry = b.children.mapIdx fun i c => (c.name, texts i) := by
    apply List.ext_getElem?
    intro i
    rw [List.getElem?_map, List.getElem?_mapIdx]
    cases hchild : b.children[i]? with
    | none => rfl
    | some c => simp [entry, h i c hchild]
  rw [snapshot, snapshotWith, fillSlots_eq_fill, hentries]

/-- The history of a run accounts for what is pending at the block `c`, which stands at `a` after
the steps. -/
structure Accounted (b : Block) (steps : List Step) (a : Address) (c : Block) : Prop where
  /-- Pending are the snapshots since the last drain, in their order. -/
  pending_eq : c.pending = waiting a steps b
  /-- Nothing is pending just if there was no commit since the last drain. -/
  pending_eq_nil_iff : c.pending = [] ↔ ∀ s ∈ sinceDrain a steps, commitsAt a s = false
  /-- A drain of the block itself hands out these snapshots put together. -/
  text?_drain : Operation.drain.text? c = some (waiting a steps b).flatten
  /-- A commit reads them in the slots of the children. -/
  snapshot_eq : c.snapshot = c.snapshotWith fun i => (waiting (a ++ [i]) steps b).flatten
  /-- A step that drains the block leaves nothing pending. -/
  drained : ∀ s, drainsAt a s = true →
    ((run (steps ++ [s]) b).at? a).map pending = some []
  /-- The drains so far have taken all other snapshots, each of them once and in their order. -/
  taken : (takenAt a steps b).flatten ++ c.pending = snapshotsAt a steps b
  /-- A commit of another block that is not the parent leaves what is pending alone. -/
  untouched : ∀ p, p ≠ a → parent? a ≠ some p →
    ((run (steps ++ [(p, .commit)]) b).at? a).map pending = some c.pending
  /-- A commit of any block leaves the bindings alone. -/
  unbound : ∀ p, ((run (steps ++ [(p, .commit)]) b).at? a).map bindings = some c.bindings

theorem accounted (hfresh : ∀ d ∈ b.nodes, d.pending = []) {c : Block}
    (hc : (run steps b).at? a = some c) : Accounted b steps a c where
  pending_eq := pending_run hfresh hc
  pending_eq_nil_iff := by
    rw [pending_run hfresh hc]
    exact waiting_eq_nil_iff (Option.isSome_iff_exists.mpr ⟨c, hc⟩)
  text?_drain := by
    show some c.pending.flatten = some (waiting a steps b).flatten
    rw [pending_run hfresh hc]
  snapshot_eq := by
    apply snapshot_eq_snapshotWith
    intro i d hd
    have hchild : (run steps b).at? (a ++ [i]) = some d := by
      rw [at?_append, hc]
      simp [at?, hd]
    rw [output, pending_run hfresh hchild]
  drained := by
    intro s hs
    rw [run_append, run_cons, run_nil, map_pending_at?_step, hc]
    simp [hs]
  taken := by
    have hsome : (b.at? a).isSome = true := by
      rw [← isSome_at?_run a steps b, hc]
      rfl
    obtain ⟨d, hd⟩ := Option.isSome_iff_exists.mp hsome
    rw [flatten_takenAt_append hc hd, hfresh d (mem_nodes_of_at? hd), List.nil_append]
  untouched := by
    intro p hp hparent
    have hdrains : drainsAt a (p, .commit) = false := by simp [drainsAt, hparent]
    have hcommits : commitsAt a (p, .commit) = false := by simp [commitsAt, hp]
    rw [run_append, run_cons, run_nil, map_pending_at?_step, hc]
    simp [hdrains, hcommits]
  unbound := by
    intro p
    rw [run_append, run_cons, run_nil,
      map_at?_step_of_kept (fun _ => rfl) (fun _ => rfl) (fun _ => rfl) p a (Or.inl rfl), hc]
    rfl

/-- In a tree with nothing pending, whatever is assigned, committed and drained and in whatever
order, the history accounts at any time for what is pending at every block. The blocks, their
names, templates, styles and children are at any time those of the start. -/
theorem pending_accounted (b : Block) (hfresh : ∀ d ∈ b.nodes, d.pending = [])
    (steps : List Step) : (run steps b).pristine = b.pristine ∧
      ∀ a c, (run steps b).at? a = some c → Accounted b steps a c :=
  ⟨pristine_run steps b, fun _ _ hc => accounted hfresh hc⟩

/-- A row committed twice, handed to the root, and committed once more. -/
theorem pending_accounted_rows :
    let cell := new "c".toList "\x7bx\x7d".toList [] {}
    let row := new "r".toList "\x7bx\x7d##c##".toList [cell] {}
    let root := new [] "[##r##]".toList [row] {}
    let x := "x".toList
    let steps : List Step := [([0], .assign x (.scalar "1".toList)), ([0, 0], .commit),
      ([0], .commit), ([0], .assign x (.scalar "2".toList)), ([0], .commit), ([], .commit),
      ([0, 0], .commit), ([0], .commit), ([0, 0], .commit)]
    (∀ d ∈ root.nodes, d.pending = []) ∧
      ((run steps root).at? []).map pending = some ["[112]".toList] ∧
      takenAt [0] steps root = [["11".toList, "2".toList]] ∧
      ∃ c, (run steps root).at? [0] = some c ∧ c.pending = ["22".toList] ∧
        Accounted root steps [0] c := by
  intro cell row root x steps
  have hfresh : ∀ d ∈ root.nodes, d.pending = [] := by decide +kernel
  have hroot : ((run steps root).at? []).map pending = some ["[112]".toList] := by decide +kernel
  have htaken : takenAt [0] steps root = [["11".toList, "2".toList]] := by decide +kernel
  have hrow : ((run steps root).at? [0]).map pending = some ["22".toList] := by decide +kernel
  obtain ⟨c, hc, hpending⟩ := Option.map_eq_some_iff.mp hrow
  exact ⟨hfresh, hroot, htaken, c, hc, hpending,
    (pending_accounted root hfresh steps).2 [0] c hc⟩

end BlockTemplate.Block
