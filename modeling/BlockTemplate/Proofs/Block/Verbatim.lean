import BlockTemplate.Block.Snapshot
import BlockTemplate.Proofs.Block.Unread
import BlockTemplate.Proofs.Level.Pairing
import BlockTemplate.Proofs.Rendering.Blanking
import BlockTemplate.Proofs.Rendering.Filling

/-!
What is rendered of inclusions that cannot be read. They are left in the template as text, and
substitution knows nothing of inclusions: if unbound placeholders are left out, those in the path
of an inclusion go as well. All else of the inclusion stays, in its place.
-/
namespace BlockTemplate

open Text

/-- What is rendered of a text with nothing bound: the text, or the text without placeholders. -/
def Unbound.Shows : Unbound → Text → Text → Prop
  | keep, t, u => u = t
  | blank, t, u => Bared t u

namespace Unbound

variable {value? : Text → Option Text} {unbound : Unbound} {t u : Text}

theorem shows_substitute (h : ∀ key, value? key = none) (unbound : Unbound) (t : Text) :
    unbound.Shows t (substitute value? unbound t) := by
  cases unbound with
  | keep => exact substitute_of_unbound h t
  | blank =>
    obtain ⟨u, hu⟩ := exists_bared t
    rw [hu.substitute_eq h]
    exact hu

theorem Shows.substitute_eq (ht : unbound.Shows t u) (value? : Text → Option Text)
    (h : ∀ key, value? key = none) : substitute value? unbound t = u := by
  cases unbound with
  | keep => exact (substitute_of_unbound h t).trans ht.symm
  | blank => exact ht.substitute_eq h

theorem Shows.sublist (h : unbound.Shows t u) : u.Sublist t := by
  cases unbound with
  | keep => exact h ▸ List.Sublist.refl t
  | blank => exact Bared.sublist h

theorem Shows.eq_iff (h : unbound.Shows t u) : u = t ↔ (unbound = .blank → Bare t) := by
  cases unbound with
  | keep =>
    refine iff_of_true h fun hblank => ?_
    cases hblank
  | blank => simpa using Bared.eq_iff h

theorem shows_textOf {ps : List Piece} (h : Piece.Stretch ps) {shown : Piece → Text}
    (hshown : ∀ p ∈ ps, unbound.Shows p.text (shown p)) :
    unbound.Shows (Piece.textOf ps) (ps.flatMap shown) := by
  cases unbound with
  | keep => exact List.flatMap_congr hshown
  | blank => exact Piece.bared_textOf h hshown

theorem Shows.inclusion (h : unbound.Shows t u) :
    unbound.Shows (Token.inclusionStart ++ t ++ Token.inclusionEnd)
      (Token.inclusionStart ++ u ++ Token.inclusionEnd) := by
  cases unbound with
  | keep => exact congrArg (fun t => Token.inclusionStart ++ t ++ Token.inclusionEnd) h
  | blank => exact Bared.inclusion h

end Unbound

namespace Block

variable {files : Files} {origin : Origin} {settings : Settings} {t : Text}

/-- The block of a text without markers and without readable inclusions is the text itself. -/
theorem block_build_of_markers_eq_nil (hmarkers : Token.markers t = [])
    (hunread : origin.Unread files t) :
    (build files origin settings t).block = new [] t [] settings.style := by
  have hlevel : Level.ofText settings.matchMode t = (Piece.ofText t).map .kept :=
    Level.ofPieces_eq_map_kept fun p hp name hname =>
      absurd (Token.markerName?_eq_none hmarkers hp hname) (Option.some_ne_none name)
  have hslotted : slotted ((Piece.ofText t).map .kept) = t := by
    conv_rhs => rw [← Piece.textOf_ofText t]
    rw [slotted, List.flatMap_map]
    rfl
  have hregions : Level.regions ((Piece.ofText t).map .kept) = [] := by
    have hfst := Level.map_fst_regions ((Piece.ofText t).map .kept)
    rw [List.filterMap_map] at hfst
    simpa [Function.comp_def] using hfst
  simp only [build, buildWithin, hunread.expand_eq, hlevel, hslotted, hregions]
  rfl

/-- A block without children and bindings renders its template, but for unbound placeholders. -/
theorem drain_commit_new {style : Style} (hcollapse : style.collapseBlankLines = false)
    (ht : '#' ∉ t) (name : Text) :
    style.unbound.Shows t (new name t [] style).commit.drain.1 := by
  have hshows : style.unbound.Shows t (new name t [] style).substituted :=
    Unbound.shows_substitute (fun _ => rfl) style.unbound t
  have hfree : Slot.Free (new name t [] style).substituted :=
    Slot.free_of_notMem fun hmem => ht (hshows.sublist.subset hmem)
  have hsnapshot : (new name t [] style).snapshot = (new name t [] style).substituted := by
    have hstyle : (new name t [] style).style.collapseBlankLines = false := hcollapse
    rw [snapshot, hstyle, fillSlots_eq_fill, Slot.fill_of_free hfree, Slot.clear_of_free hfree]
    rfl
  have hdrain : (new name t [] style).commit.drain.1 = (new name t [] style).snapshot := by
    simp [commit, drain, output, new]
  rwa [hdrain, hsnapshot]

/-- A text without markers, none of whose inclusions can be read, is rendered piece by piece. An
inclusion keeps all but the placeholders in its path, and keeps these too unless unbound ones are
left out. -/
theorem drain_build_by_pieces (hcollapse : settings.style.collapseBlankLines = false)
    (hsign : '#' ∉ t) (hmarkers : Token.markers t = []) (hunread : origin.Unread files t) :
    ∃ shown : Piece → Text,
      (build files origin settings t).block.commit.drain.1 = (Piece.ofText t).flatMap shown ∧
      ∀ p ∈ Piece.ofText t, settings.style.unbound.Shows p.text (shown p) ∧
        ∀ path, p.token = some (.inclusion path) →
          (∃ path', settings.style.unbound.Shows path path' ∧
            shown p = Token.inclusionStart ++ path' ++ Token.inclusionEnd) ∧
          (shown p = p.text ↔ (settings.style.unbound = .blank → Bare path)) := by
  let shown : Piece → Text := fun p => substitute (fun _ => none) settings.style.unbound p.text
  have hshown : ∀ p, settings.style.unbound.Shows p.text (shown p) := fun p =>
    Unbound.shows_substitute (fun _ => rfl) _ _
  have hdrain := drain_commit_new hcollapse hsign []
  refine ⟨shown, ?_, fun p hp => ⟨hshown p, fun path hpath => ?_⟩⟩
  · have hpieces := Unbound.shows_textOf (Piece.stretch_ofText t) fun p _ => hshown p
    rw [Piece.textOf_ofText] at hpieces
    rw [block_build_of_markers_eq_nil hmarkers hunread,
      ← hdrain.substitute_eq (fun _ => none) fun _ => rfl]
    exact hpieces.substitute_eq _ fun _ => rfl
  · have htext := (Piece.written_of_mem_ofText hp hpath).eq_of_inclusion
    have hpath' : settings.style.unbound.Shows path
        (substitute (fun _ => none) settings.style.unbound path) :=
      Unbound.shows_substitute (fun _ => rfl) _ _
    have hinclusion := hpath'.inclusion.substitute_eq (fun _ => none) fun _ => rfl
    rw [← htext] at hinclusion
    refine ⟨⟨_, hpath', hinclusion⟩, ?_⟩
    rw [← hpath'.eq_iff, htext]
    exact ⟨fun heq => by simpa using hinclusion.symm.trans heq,
      fun heq => hinclusion.trans (by rw [heq])⟩

/-- Two inclusions that cannot be read stay whole between placeholders that are left out. The path
of the second has a brace that starts no placeholder. -/
theorem drain_build_by_pieces_blank :
    let files : Files := fun _ => .error .notFound
    let settings : Settings := { style := { collapseBlankLines := false, unbound := .blank } }
    let first : Piece := ⟨some (.inclusion "a".toList), "\x7bFILE \"a\"\x7d".toList⟩
    let second : Piece := ⟨some (.inclusion "\x7bb".toList), "\x7bFILE \"\x7bb\"\x7d".toList⟩
    let t := "\x7bx\x7d".toList ++ first.text ++ "\x7by\x7d".toList ++ second.text
    '#' ∉ t ∧ Token.markers t = [] ∧ Origin.Unread {} files t ∧ ∃ shown : Piece → Text,
      (build files {} settings t).block.commit.drain.1 = (Piece.ofText t).flatMap shown ∧
        first ∈ Piece.ofText t ∧ shown first = first.text ∧
        second ∈ Piece.ofText t ∧ shown second = second.text := by
  intro files settings first second t
  have hcollapse : settings.style.collapseBlankLines = false := rfl
  have hsign : '#' ∉ t := by decide
  have hmarkers : Token.markers t = [] := by decide +kernel
  have hunread : Origin.Unread {} files t := fun _ _ => rfl
  have hfirst : first ∈ Piece.ofText t := by decide +kernel
  have hsecond : second ∈ Piece.ofText t := by decide +kernel
  obtain ⟨shown, hdrain, hshown⟩ :=
    drain_build_by_pieces hcollapse hsign hmarkers hunread
  refine ⟨hsign, hmarkers, hunread, shown, hdrain, hfirst, ?_, hsecond, ?_⟩
  · have hpath : Bare "a".toList := bare_of_notMem (Or.inl rfl) (by decide)
    exact ((hshown first hfirst).2 _ rfl).2.mpr fun _ => hpath
  · have hpath : Bare "\x7bb".toList := bare_of_notMem (Or.inr rfl) (by decide)
    exact ((hshown second hsecond).2 _ rfl).2.mpr fun _ => hpath

/-- A placeholder in the path of an inclusion is taken out of the inclusion. -/
theorem drain_build_blanked_path :
    let files : Files := fun _ => .error .notFound
    let settings : Settings := { style := { collapseBlankLines := false, unbound := .blank } }
    let t := "\x7bFILE \"\x7bx\x7d\"\x7d".toList
    ((build files {} settings t).block.commit.drain.1 = "\x7bFILE \"\"\x7d".toList ∧
      Token.inclusions t = [("\x7bx\x7d".toList, ⟨0, 12⟩)]) ∧
    ¬ ∀ (files : Files) (origin : Origin) (settings : Settings) (t : Text),
      settings.style.collapseBlankLines = false → '#' ∉ t → Token.markers t = [] →
      origin.Unread files t → ∀ p ∈ Piece.ofText t, ∀ path, p.token = some (.inclusion path) →
        p.text <:+: (build files origin settings t).block.commit.drain.1 := by
  intro files settings t
  have hdrain : (build files {} settings t).block.commit.drain.1 =
      "\x7bFILE \"\"\x7d".toList := by
    decide +kernel
  have hpieces : Piece.ofText t = [⟨some (.inclusion "\x7bx\x7d".toList), t⟩] := by
    decide +kernel
  have hunread : Origin.Unread {} files t := fun _ _ => rfl
  refine ⟨⟨hdrain, by decide +kernel⟩, fun hall => ?_⟩
  have hwithin := hall files {} settings t rfl (by decide) (by decide +kernel) hunread
  rw [hpieces, hdrain] at hwithin
  have hlength := (hwithin _ List.mem_cons_self _ rfl).length_le
  exact absurd hlength (by decide)

end Block
end BlockTemplate
