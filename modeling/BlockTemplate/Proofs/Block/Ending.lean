import BlockTemplate.Proofs.Block.Source
import Mathlib.Data.List.Forall2

/-!
Building comes to an end, whatever is included. Texts do not get shorter on the way down, since
every level expands inclusions again, and files may include themselves. It is the depth alone that
ends the recursion: the texts at the last level are kept, and every text above them is scanned.
-/
namespace BlockTemplate

namespace Source

/-- How a text is built into a block at a depth. A text past the greatest depth is kept; any other
text is scanned, and its block is there when those of all its bodies are. -/
inductive Builds (files : Files) (origin : Origin) (settings : Settings) :
    Nat → Source → Block → Prop
  | kept {depth : Nat} {s : Source} (hdepth : maxDepth < depth) :
      Builds files origin settings depth s
        (Block.new s.name (origin.expand files s.text) [] settings.style)
  | scanned {depth : Nat} {s : Source} {built : List Block} (hdepth : depth ≤ maxDepth)
      (hlength : (s.bodies files origin settings.matchMode).length = built.length)
      (hbuilt : ∀ x ∈ (s.bodies files origin settings.matchMode).zip built,
        Builds files origin settings (depth + 1) x.1 x.2) :
      Builds files origin settings depth s
        (Block.new s.name
          (Block.slotted (Level.ofText settings.matchMode (origin.expand files s.text)))
          (Block.placeAll built) settings.style)

variable {files : Files} {origin : Origin} {settings : Settings} {depth : Nat} {s : Source}
  {b : Block}

/-- A text has no other block than the one that counting the levels down gives. -/
theorem Builds.eq_block (h : Builds files origin settings depth s b) :
    b = s.block files origin settings (maxDepth + 1 - depth) := by
  induction h with
  | kept hdepth =>
    rw [Nat.sub_eq_zero_of_le hdepth, block_zero]
  | @scanned depth s built hdepth hlength hbuilt ih =>
    have hlevels : maxDepth + 1 - depth = (maxDepth + 1 - (depth + 1)) + 1 := by omega
    have hmap : (s.bodies files origin settings.matchMode).map
        (block files origin settings (maxDepth + 1 - (depth + 1))) = built := by
      rw [← List.forall₂_eq_eq_eq, List.forall₂_map_left_iff, List.forall₂_iff_zip]
      exact ⟨hlength, fun hmem => (ih _ hmem).symm⟩
    rw [hlevels, block_succ, ← placeAll_map_block, hmap]

/-- Every text has a block at every depth. The induction is on the levels that are left. -/
theorem builds_block (depth : Nat) (s : Source) :
    Builds files origin settings depth s
      (s.block files origin settings (maxDepth + 1 - depth)) := by
  induction hlevels : maxDepth + 1 - depth generalizing depth s with
  | zero => exact Builds.kept (by omega)
  | succ levels ih =>
    rw [block_succ, ← placeAll_map_block]
    have hbuilt : List.Forall₂ (Builds files origin settings (depth + 1))
        (s.bodies files origin settings.matchMode)
        ((s.bodies files origin settings.matchMode).map (block files origin settings levels)) := by
      rw [List.forall₂_map_right_iff, List.forall₂_same]
      exact fun body _ => ih (depth + 1) body (by omega)
    obtain ⟨hlength, hzip⟩ := List.forall₂_iff_zip.mp hbuilt
    exact Builds.scanned (by omega) hlength fun x hx => hzip hx

theorem builds_iff : Builds files origin settings depth s b ↔
    b = s.block files origin settings (maxDepth + 1 - depth) :=
  ⟨Builds.eq_block, fun h => h ▸ builds_block depth s⟩

end Source

namespace Block

/-- Building ends with one tree for every text, also if files include themselves. No block stands
deeper than one level below the greatest depth; those that stand there keep their text, with its
inclusions expanded once, and all others have one child for each name among their regions. -/
theorem build_ends (files : Files) (origin : Origin) (settings : Settings) (t : Text) :
    (∀ b, Source.Builds files origin settings 0 ⟨[], t⟩ b ↔
        b = (build files origin settings t).block) ∧
      ∀ a b, (build files origin settings t).block.at? a = some b →
        a.length ≤ maxDepth + 1 ∧
        ∃ s, (⟨[], t⟩ : Source).at? files origin settings.matchMode a = some s ∧
          b.name = s.name ∧
          (a.length = maxDepth + 1 →
            b.children = [] ∧ b.template = origin.expand files s.text) ∧
          (a.length ≤ maxDepth → b.childNames.Nodup ∧ ∀ name, name ∈ b.childNames ↔
            ∃ r, Part.region r ∈ Level.ofText settings.matchMode (origin.expand files s.text) ∧
              r.name = name) := by
  refine ⟨fun b => Source.builds_iff, fun a b hb => ?_⟩
  obtain ⟨hle, s, hs, rfl⟩ := Source.exists_of_at?_build hb
  refine ⟨hle, s, hs, Source.name_block .., fun heq => ?_, fun hlt => ?_⟩
  · rw [heq, Nat.sub_self, Source.block_zero]
    exact ⟨rfl, rfl⟩
  · have hlevels : maxDepth + 1 - a.length = maxDepth - a.length + 1 := by omega
    rw [hlevels]
    exact ⟨Source.nodup_childNames_block .., fun name => Source.mem_childNames_block_succ⟩

/-- A file that includes itself within a region. There are 129 blocks below the root, one below
the other, and the last of them keeps what the file holds. -/
theorem build_ends_cyclic :
    let t := "\x7bFILE \"f\"\x7d".toList
    let file := "<!--begin:a-->".toList ++ t ++ "<!--end:a-->".toList
    let files : Files := fun _ => .ok file
    let root := (build files {} {} t).block
    Source.Builds files {} {} 0 ⟨[], t⟩ root ∧
      (∃ b, root.at? (List.replicate 128 0) = some b ∧ "a".toList ∈ b.childNames) ∧
      (∃ b, root.at? (List.replicate 129 0) = some b ∧ b.children = [] ∧ b.template = file) ∧
      root.at? (List.replicate 130 0) = none := by
  intro t file files root
  have hbelow : Source.lastOfEachName ((⟨[], t⟩ : Source).bodies files {} .greedy) =
      [⟨"a".toList, t⟩] := by
    decide +kernel
  have hexpand : Origin.expand {} files t = file := by decide +kernel
  have hregion : ∃ r ∈ (Level.ofText .greedy file).filterMap Part.region?, r.name = "a".toList := by
    decide +kernel
  have hsource : ∀ n name, (⟨name, t⟩ : Source).at? files {} .greedy (List.replicate (n + 1) 0) =
      some ⟨"a".toList, t⟩ := by
    intro n
    induction n with
    | zero => exact fun _ => congrArg (fun ss : List Source => ss[0]?.bind some) hbelow
    | succ n ih =>
      intro name
      have hstep : (⟨name, t⟩ : Source).at? files {} .greedy (List.replicate (n + 2) 0) =
          ([⟨"a".toList, t⟩] : List Source)[0]?.bind
            (Source.at? files {} .greedy (List.replicate (n + 1) 0)) := by
        rw [← hbelow]
        rfl
      rw [hstep]
      exact ih _
  have hroot : root = (⟨[], t⟩ : Source).block files {} {} (maxDepth + 1) := rfl
  have hblock : ∀ n, n < 129 → ∃ b, root.at? (List.replicate (n + 1) 0) = some b := by
    intro n hn
    have hle : (List.replicate (n + 1) 0).length ≤ maxDepth + 1 := by
      rw [List.length_replicate]
      exact hn
    rw [hroot, Source.at?_block, if_pos hle, hsource]
    exact ⟨_, rfl⟩
  obtain ⟨hbuilds, hat⟩ := build_ends files {} {} t
  refine ⟨(hbuilds root).mpr rfl, ?_, ?_, ?_⟩
  · obtain ⟨b, hb⟩ := hblock 127 (by decide)
    obtain ⟨-, s, hs, -, -, hscanned⟩ := hat _ b hb
    obtain rfl := Option.some.inj ((hsource 127 []).symm.trans hs)
    obtain ⟨r, hr, hname⟩ := hregion
    refine ⟨b, hb, ((hscanned (by simp [maxDepth])).2 _).mpr ⟨r, ?_, hname⟩⟩
    rw [hexpand]
    exact Level.mem_filterMap_region?.mp hr
  · obtain ⟨b, hb⟩ := hblock 128 (by decide)
    obtain ⟨-, s, hs, -, hkept, -⟩ := hat _ b hb
    obtain rfl := Option.some.inj ((hsource 128 []).symm.trans hs)
    obtain ⟨hchildren, htemplate⟩ := hkept (by simp [maxDepth])
    exact ⟨b, hb, hchildren, htemplate.trans hexpand⟩
  · cases hb : root.at? (List.replicate 130 0) with
    | none => rfl
    | some b => exact absurd (hat _ b hb).1 (by simp [maxDepth])

end Block
end BlockTemplate
