import BlockTemplate.Proofs.Block.ChildrenFirst
import BlockTemplate.Proofs.Block.Placing
import BlockTemplate.Proofs.Block.Unread
import BlockTemplate.Proofs.Level.Row
import BlockTemplate.Proofs.Rendering.Substituting

/-!
Rendering without any data. If every block of a template is committed once, children before
their parents, the root renders the text of the template without the markers of its regions.
This needs separated levels: a text between two regions that is the name of an earlier region is
taken for a slot of that name.
-/
namespace BlockTemplate

open Text

/-- The text without the markers of its regions, at so many levels. -/
def stripped (mode : MatchMode) : Nat → Text → Text
  | 0, t => t
  | levels + 1, t =>
    (Level.ofText mode t).fillWith fun r => stripped mode levels r.bodyText

namespace Block

variable {files : Files} {origin : Origin} {settings : Settings} {levels : Nat} {name t : Text}

/-- With nothing bound, no placeholder taken out and no line collapsed, a snapshot is the
template with its slots filled and cleared. -/
theorem snapshot_of_bindings_nil {b : Block} (hbindings : b.bindings = [])
    (hcollapse : b.style.collapseBlankLines = false) (hunbound : b.style.unbound = .keep) :
    b.snapshot = Slot.clear (Slot.fill (b.children.map entry) b.template) := by
  have hsubstituted : b.substituted = b.template := by
    rw [substituted, hunbound]
    exact substitute_of_unbound (fun key => by rw [boundText?, hbindings]; rfl) _
  rw [snapshot, hcollapse, hsubstituted, fillSlots_eq_fill]
  rfl

theorem pending_settle_new {style : Style} (hcollapse : style.collapseBlankLines = false)
    (hunbound : style.unbound = .keep) (name template : Text) (children : List Block) :
    (settle (new name template children style)).pending =
      [Slot.clear (Slot.fill (children.map fun c => (c.name, (settle c).output)) template)] := by
  have hentry : entry ∘ settle = fun c => (c.name, (settle c).output) := by
    funext c
    simp [entry]
  have hsnapshot : (new name template (children.map settle) style).snapshot =
      Slot.clear (Slot.fill ((children.map settle).map entry) template) :=
    snapshot_of_bindings_nil rfl hcollapse hunbound
  rw [List.map_map, hentry] at hsnapshot
  rw [settle_eq, ← hsnapshot]
  rfl

/-- The blocks of the regions of a level. -/
def regionBlocks (files : Files) (origin : Origin) (settings : Settings) (levels : Nat)
    (level : Level) : List Block :=
  (level.filterMap Part.region?).map fun r =>
    (buildWithin files origin settings levels r.name r.bodyText).block

theorem map_name_regionBlocks (level : Level) :
    (regionBlocks files origin settings levels level).map Block.name =
      (level.filterMap Part.region?).map Region.name := by
  rw [regionBlocks, List.map_map]
  exact List.map_congr_left fun r _ => name_buildWithin ..

/-- The block of a level with distinct regions has a child for each of them. -/
theorem block_buildWithin_succ (hunread : origin.Unread files t)
    (hdistinct : (Level.ofText settings.matchMode t).Distinct) (name : Text) :
    (buildWithin files origin settings (levels + 1) name t).block =
      new name (slotted (Level.ofText settings.matchMode t))
        (regionBlocks files origin settings levels (Level.ofText settings.matchMode t))
        settings.style := by
  have hnodup : ((regionBlocks files origin settings levels
      (Level.ofText settings.matchMode t)).map Block.name).Nodup := by
    rw [map_name_regionBlocks]
    exact hdistinct.2
  simp only [buildWithin, hunread.expand_eq, List.map_map]
  rw [← placeAll_of_nodup hnodup, regionBlocks, ← Level.map_fst_regions, List.map_map]
  rfl

/-- What is rendered of one level, if `out` is what is rendered of the bodies in it. -/
theorem pending_settle_level (hunread : origin.Unread files t)
    (hdistinct : (Level.ofText settings.matchMode t).Distinct)
    (hcollapse : settings.style.collapseBlankLines = false)
    (hunbound : settings.style.unbound = .keep) {out : Region → Text}
    (hout : ∀ r, Part.region r ∈ Level.ofText settings.matchMode t →
      (settle (buildWithin files origin settings levels r.name r.bodyText).block).output = out r)
    (name : Text) :
    (settle (buildWithin files origin settings (levels + 1) name t).block).pending =
      [Slot.clear (Slot.fill (((Level.ofText settings.matchMode t).entries out).map Slot.pair)
        (Slot.rowTemplate (Level.ofText settings.matchMode t).lead
          ((Level.ofText settings.matchMode t).entries out)))] := by
  have hpairs : (regionBlocks files origin settings levels (Level.ofText settings.matchMode t)).map
      (fun c => (c.name, (settle c).output)) =
        ((Level.ofText settings.matchMode t).entries out).map Slot.pair := by
    rw [Level.map_pair_entries, regionBlocks, List.map_map]
    refine List.map_congr_left fun r hr => ?_
    have houtput := hout r (Level.mem_filterMap_region?.mp hr)
    simp only [Function.comp_apply, name_buildWithin, houtput]
  rw [block_buildWithin_succ hunread hdistinct, pending_settle_new hcollapse hunbound, hpairs,
    Level.slotted_eq_rowTemplate out]

end Block

namespace Level

variable {mode : MatchMode} {t : Text} {out : Region → Text}

/-- The entries of a text without number signs have none either. -/
theorem plain_of_mem_entries (ht : '#' ∉ t) (hdistinct : (ofText mode t).Distinct)
    (hout : ∀ r, Part.region r ∈ ofText mode t → '#' ∉ out r) {e : Slot.Entry}
    (he : e ∈ entries out (ofText mode t)) : e.Plain := by
  obtain ⟨before, r, after, hlevel, rfl⟩ := exists_of_mem_entries he
  have hr : Part.region r ∈ ofText mode t := by simp [hlevel]
  have hafter : ∀ p, Part.kept p ∈ after → '#' ∉ p.text := by
    intro p hp
    have hmem : Part.kept p ∈ ofText mode t := by simp [hlevel, hp]
    exact Piece.notMem_of_mem_ofText ht (mem_of_kept_mem hmem)
  exact ⟨notMem_name ht hr, hdistinct.1 r (mem_filterMap_region?.mpr hr), hout r hr,
    notMem_lead hafter⟩

theorem notMem_lead_ofText {c : Char} (ht : c ∉ t) : c ∉ lead (ofText mode t) :=
  notMem_lead fun _ hp => Piece.notMem_of_mem_ofText ht (mem_of_kept_mem hp)

theorem notMem_fillWith {c : Char} (ht : c ∉ t)
    (hout : ∀ r, Part.region r ∈ ofText mode t → c ∉ out r) : c ∉ fillWith out (ofText mode t) := by
  intro hc
  obtain ⟨part, hpart, hmem⟩ := List.mem_flatMap.mp hc
  cases part with
  | kept p => exact Piece.notMem_of_mem_ofText ht (mem_of_kept_mem hpart) hmem
  | region r => exact hout r hpart hmem

end Level

theorem notMem_stripped {c : Char} {t : Text} (ht : c ∉ t) (mode : MatchMode) (levels : Nat) :
    c ∉ stripped mode levels t := by
  induction levels generalizing t with
  | zero => exact ht
  | succ levels ih =>
    exact Level.notMem_fillWith ht fun r hr => ih (Level.notMem_bodyText ht hr)

namespace Block

variable {files : Files} {origin : Origin} {settings : Settings} {t : Text}

/-- A text that is separated throughout is rendered without the markers of its regions. -/
theorem pending_settle (hcollapse : settings.style.collapseBlankLines = false)
    (hunbound : settings.style.unbound = .keep) (hunread : origin.Unread files t) (ht : '#' ∉ t)
    (levels : Nat) (hdistinct : Level.Throughout Level.Distinct settings.matchMode levels t)
    (hsep : Level.Throughout Level.Separated settings.matchMode levels t) (name : Text) :
    (settle (buildWithin files origin settings levels name t).block).pending =
      [stripped settings.matchMode levels t] := by
  induction levels generalizing t name with
  | zero =>
    have hblock : (buildWithin files origin settings 0 name t).block =
        new name t [] settings.style := by
      rw [buildWithin, hunread.expand_eq]
    rw [hblock, pending_settle_new hcollapse hunbound, List.map_nil, Slot.fill_nil,
      Slot.clear_of_free (Slot.free_of_notMem ht), stripped]
  | succ levels ih =>
    obtain ⟨hdistinct, hdistinct'⟩ := hdistinct
    obtain ⟨hsep, hsep'⟩ := hsep
    let out : Region → Text := fun r => stripped settings.matchMode levels r.bodyText
    have hout : ∀ r, Part.region r ∈ Level.ofText settings.matchMode t →
        (settle (buildWithin files origin settings levels r.name r.bodyText).block).output =
          out r := by
      intro r hr
      have hmem := Level.mem_filterMap_region?.mpr hr
      have hpending := ih (hunread.bodyText hr) (Level.notMem_bodyText ht hr)
        (hdistinct' r hmem) (hsep' r hmem) r.name
      rw [output, hpending]
      simp [out]
    have hplain : ∀ e ∈ (Level.ofText settings.matchMode t).entries out, e.Plain :=
      fun e he => Level.plain_of_mem_entries ht hdistinct
        (fun r hr => notMem_stripped (Level.notMem_bodyText ht hr) _ _) he
    have hlead : '#' ∉ (Level.ofText settings.matchMode t).lead := Level.notMem_lead_ofText ht
    have hnodup : (((Level.ofText settings.matchMode t).entries out).map
        Slot.Entry.name).Nodup := by
      rw [Level.map_name_entries]
      exact hdistinct.2
    rw [pending_settle_level hunread hdistinct hcollapse hunbound hout,
      Slot.fill_rowTemplate hlead hplain hnodup (Level.separated_entries hsep out),
      Slot.clear_of_free (Slot.free_of_notMem (Slot.notMem_rowFilled hlead hplain)), stripped,
      Level.fillWith_eq_rowFilled]

/-- What is asked of a text that is to be rendered whole: there is nothing in it that a file or
the marks of a slot could stand for, and its regions have names of their own. -/
structure Unmarked (files : Files) (origin : Origin) (mode : MatchMode) (t : Text) : Prop where
  unread : origin.Unread files t
  signless : '#' ∉ t
  distinct : Level.Throughout Level.Distinct mode (maxDepth + 1) t

/-- Whatever the order in which the blocks of a text are committed, once each and children
before their parents, the root hands out the text without the markers of its regions. -/
def Lossless (files : Files) (origin : Origin) (settings : Settings) (t : Text) : Prop :=
  ∀ order, ChildrenFirst (build files origin settings t).block order →
    (run (commits order) (build files origin settings t).block).drain.1 =
      stripped settings.matchMode (maxDepth + 1) t

theorem lossless_iff : Lossless files origin settings t ↔
    (settle (build files origin settings t).block).output =
      stripped settings.matchMode (maxDepth + 1) t := by
  constructor
  · intro h
    rw [← h _ (childrenFirst_postorder _), run_commits _ _ (childrenFirst_postorder _)]
    rfl
  · intro h order horder
    rw [run_commits _ _ horder]
    exact h

theorem Unmarked.lossless (h : Unmarked files origin settings.matchMode t)
    (hcollapse : settings.style.collapseBlankLines = false)
    (hunbound : settings.style.unbound = .keep)
    (hsep : Level.Throughout Level.Separated settings.matchMode (maxDepth + 1) t) :
    Lossless files origin settings t := by
  rw [lossless_iff, output, build, pending_settle hcollapse hunbound h.unread h.signless
    (maxDepth + 1) h.distinct hsep]
  simp

end Block
end BlockTemplate
