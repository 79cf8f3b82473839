import BlockTemplate.Proofs.Block.Unread
import BlockTemplate.Proofs.Document.Pieces
import BlockTemplate.Proofs.Level.Pairing

/-!
Printing a document and building the template gives the blocks of the document back. Every
block of a printed document is balanced for every name, which is what counting needs; the last
closing marker of a name is the right one if the name is not used again behind the block.
-/
namespace BlockTemplate

namespace Document

open Piece

/-- The region between the markers of a block. -/
def regionOf (name : Text) (body : Document) : Region :=
  ⟨name, openingPiece name, piecesFrom [] body, closingPiece name⟩

/-- The parts of a printed document at its outermost level. -/
def partsFrom (before : Text) : Document → Level
  | nil => (plain before).map .kept
  | text t rest => partsFrom (before ++ t) rest
  | block name body rest =>
    (plain before).map .kept ++ .region (regionOf name body) :: partsFrom [] rest

variable {mode : MatchMode} {d : Document} {before name : Text}

theorem token_of_mem_plain {p : Piece} (h : p ∈ plain before) : p.token = none := by
  unfold plain at h
  split at h
  · cases h
  · obtain rfl := List.mem_singleton.mp h
    rfl

theorem balanced_plain : Closing.Balanced name (plain before) := by
  unfold plain
  split
  · exact Closing.balanced_nil
  · exact Closing.balanced_singleton rfl rfl

theorem balanced_piecesFrom : Closing.Balanced name (piecesFrom before d) := by
  fun_induction piecesFrom before d with
  | case1 before => exact balanced_plain
  | case2 before t rest ih => exact ih
  | case3 before n body rest ihbody ihrest =>
    have hblock : Closing.Balanced name
        (openingPiece n :: piecesFrom [] body ++ [closingPiece n]) :=
      Closing.Balanced.wrap rfl rfl ihbody
    have h : Closing.Balanced name
        (plain before ++ (openingPiece n :: piecesFrom [] body ++ [closingPiece n]) ++
          piecesFrom [] rest) := (balanced_plain.append hblock).append ihrest
    simpa using h

/-- Only the names of a document are closed by its pieces. -/
theorem closes_eq_false (h : ∀ n ∈ names d, Text.sameFolded n name = false) :
    ∀ p ∈ piecesFrom before d, p.closes name = false := by
  have hplain : ∀ s, ∀ p ∈ plain s, p.closes name = false := by
    intro s p hp
    simp [closes, token_of_mem_plain hp]
  fun_induction piecesFrom before d with
  | case1 before => exact hplain before
  | case2 before t rest ih => exact ih h
  | case3 before n body rest ihbody ihrest =>
    simp only [names, List.mem_cons, List.mem_append] at h
    intro p hp
    simp only [List.mem_append, List.mem_cons] at hp
    rcases hp with (hp | rfl | hp) | rfl | hp
    · exact hplain before p hp
    · rfl
    · exact ihbody (fun m hm => h m (Or.inl (Or.inr hm))) p hp
    · exact h n (Or.inl (Or.inl rfl))
    · exact ihrest (fun m hm => h m (Or.inr hm)) p hp

theorem find?_block {body rest : Document}
    (hapart : mode = .greedy → ∀ n ∈ names rest, Text.sameFolded n name = false) :
    Closing.find? mode name (piecesFrom [] body ++ closingPiece name :: piecesFrom [] rest) =
      some ⟨piecesFrom [] body, closingPiece name, piecesFrom [] rest⟩ := by
  cases mode with
  | greedy => exact Closing.last?_append rfl (closes_eq_false (hapart rfl))
  | nested => exact balanced_piecesFrom.balanced?_eq rfl

theorem ofPieces_plain_append (ps : List Piece) :
    Level.ofPieces mode (plain before ++ ps) =
      (plain before).map .kept ++ Level.ofPieces mode ps := by
  by_cases h : before = []
  · simp [plain, h]
  · rw [plain, if_neg h]
    exact Level.ofPieces_cons_of_token_eq_none rfl

/-- Scanning the pieces of a document parts each of its blocks at its own closing marker. -/
theorem ofPieces_piecesFrom (hapart : mode = .greedy → d.Apart) :
    Level.ofPieces mode (piecesFrom before d) = partsFrom before d := by
  induction d generalizing before with
  | nil =>
    have h : Level.ofPieces mode (plain before ++ []) = (plain before).map .kept ++ _ :=
      ofPieces_plain_append []
    simpa [piecesFrom, partsFrom, Level.ofPieces] using h
  | text t rest ih => exact ih hapart
  | block name body rest _ ihrest =>
    have hfind : Closing.find? mode name (piecesFrom [] body ++ _) = _ :=
      find?_block fun hmode => (hapart hmode).1
    simp only [piecesFrom, partsFrom, List.append_assoc, List.cons_append]
    rw [ofPieces_plain_append, Level.ofPieces_cons_of_find? rfl hfind,
      ihrest fun hmode => (hapart hmode).2.2, regionOf]

theorem ofText_print_eq (hd : d.Writable) (hapart : mode = .greedy → d.Apart) :
    Level.ofText mode (print d) = partsFrom [] d := by
  rw [Level.ofText, ofText_print hd, ofPieces_piecesFrom hapart]

theorem flatMap_text_plain (t : Text) : (plain t).flatMap Piece.text = t := by
  unfold plain
  split <;> simp [*]

theorem slotted_partsFrom : Block.slotted (partsFrom before d) = before ++ slots d := by
  have hplain : ∀ s, Block.slotted ((plain s).map .kept) = s := by
    intro s
    conv_rhs => rw [← flatMap_text_plain s]
    simp [Block.slotted, List.flatMap_map]
  have happend : ∀ l l' : Level, Block.slotted (l ++ l') = Block.slotted l ++ Block.slotted l' :=
    fun l l' => List.flatMap_append
  induction d generalizing before with
  | nil => simp [partsFrom, slots, hplain]
  | text t rest ih => simp [partsFrom, slots, ih]
  | block name body rest _ ih =>
    have hrest : Block.slotted (partsFrom [] rest) = [] ++ slots rest := ih
    simp only [partsFrom, slots, happend, hplain]
    simp only [Block.slotted, List.flatMap_cons] at hrest ⊢
    rw [hrest, List.nil_append, regionOf]

/-- A printed document includes no file. -/
theorem unread_print (hd : d.Writable) (files : Files) (origin : Origin) :
    origin.Unread files (print d) := by
  have hplain : ∀ s, ∀ p ∈ plain s, ∀ path, p.token ≠ some (.inclusion path) := by
    intro s p hp path h
    simp [token_of_mem_plain hp] at h
  have hnone : ∀ p ∈ piecesFrom [] d, ∀ path, p.token ≠ some (.inclusion path) := by
    fun_induction piecesFrom [] d with
    | case1 before => exact hplain before
    | case2 before t rest ih => exact ih hd.2.2
    | case3 before n body rest ihbody ihrest =>
      obtain ⟨-, -, -, hbody, hrest⟩ := hd
      intro p hp
      simp only [List.mem_append, List.mem_cons] at hp
      rcases hp with (hp | rfl | hp) | rfl | hp
      · exact hplain before p hp
      · simp [openingPiece]
      · exact ihbody hbody p hp
      · simp [closingPiece]
      · exact ihrest hrest p hp
  rw [Origin.unread_iff, ofText_print hd]
  exact fun p hp path hpath => absurd hpath (hnone p hp path)

variable {files : Files} {origin : Origin} {settings : Settings} {levels : Nat}

/-- The regions of a document are built as its blocks, if each body is. -/
theorem map_build_regions (hd : d.Writable) (hapart : settings.matchMode = .greedy → d.Apart)
    (hdepth : d.depth ≤ levels + 1)
    (hbody : ∀ n body, Writable body → (settings.matchMode = .greedy → Apart body) →
      depth body ≤ levels →
      (Block.buildWithin files origin settings levels n (print body)).block =
        toBlock settings.style n body) :
    ((partsFrom before d).filterMap Part.region?).map
        (fun r => (Block.buildWithin files origin settings levels r.name r.bodyText).block) =
      blocks settings.style d := by
  have hplain : ∀ s, ((plain s).map Part.kept).filterMap Part.region? = [] := by
    intro s
    simp [List.filterMap_map, Function.comp_def, Part.region?]
  induction d generalizing before with
  | nil => simp [partsFrom, blocks, hplain]
  | text t rest ih => exact ih hd.2.2 hapart hdepth
  | block name body rest _ ihrest =>
    obtain ⟨-, -, -, hwritable, hrest⟩ := hd
    simp only [depth] at hdepth
    have hinner := hbody name body hwritable (fun hmode => (hapart hmode).2.1) (by omega)
    have houter : _ = blocks settings.style rest :=
      @ihrest [] hrest (fun hmode => (hapart hmode).2.2) (by omega)
    have htext : (regionOf name body).bodyText = print body := textOf_piecesFrom hwritable
    have hregion : Part.region? (.region (regionOf name body)) = some (regionOf name body) := rfl
    rw [partsFrom, List.filterMap_append, hplain, List.nil_append,
      List.filterMap_cons_some hregion, List.map_cons, houter, htext]
    exact congrArg (· :: blocks settings.style rest) hinner

theorem print_eq_slots (h : d.depth = 0) : print d = slots d ∧ ∀ style, blocks style d = [] := by
  induction d with
  | nil => exact ⟨rfl, fun _ => rfl⟩
  | text t rest ih =>
    obtain ⟨hprint, hblocks⟩ := ih h
    exact ⟨by rw [print, slots, hprint], hblocks⟩
  | block name body rest => simp [depth] at h

theorem buildWithin_print (hd : d.Writable) (hapart : settings.matchMode = .greedy → d.Apart)
    (hdepth : d.depth ≤ levels) (name : Text) :
    (Block.buildWithin files origin settings levels name (print d)).block =
      toBlock settings.style name d := by
  induction levels generalizing d name with
  | zero =>
    obtain ⟨hprint, hblocks⟩ := print_eq_slots (Nat.le_zero.mp hdepth)
    rw [Block.buildWithin, (unread_print hd files origin).expand_eq, toBlock, hprint, hblocks]
    rfl
  | succ levels ih =>
    have hbuilt : ((partsFrom [] d).filterMap Part.region?).map
        (fun r => (Block.buildWithin files origin settings levels r.name r.bodyText).block) =
          blocks settings.style d :=
      map_build_regions hd hapart hdepth fun n body hbody hbodyapart hle =>
        ih hbody hbodyapart hle n
    rw [← ofText_print_eq hd hapart, ← Level.map_fst_regions, List.map_map] at hbuilt
    simp only [Block.buildWithin, (unread_print hd files origin).expand_eq, List.map_map,
      toBlock, ← hbuilt, Block.placeAll_eq_lastOfEachName]
    rw [ofText_print_eq hd hapart, slotted_partsFrom, List.nil_append]
    rfl

/-- Building a printed document gives the blocks of the document, in either way of matching. -/
theorem build_print (files : Files) (origin : Origin) (settings : Settings) {d : Document}
    (hd : d.Writable) (hdepth : d.depth ≤ maxDepth)
    (hapart : settings.matchMode = .greedy → d.Apart) :
    (Block.build files origin settings d.print).block = d.toBlock settings.style [] :=
  buildWithin_print hd hapart (Nat.le_succ_of_le hdepth) []

/-- Blocks that repeat the name of a sibling in another case, of a parent and of a sibling. -/
theorem build_print_repeated :
    let d := block "a".toList (block "A".toList (text "1".toList nil) nil)
      (text "#".toList (block "b".toList nil (block "a".toList (text "2".toList nil) nil)))
    let apart := block "a".toList (block "A".toList (text "1".toList nil) nil)
      (text "#".toList (block "b".toList (block "B".toList nil nil) nil))
    (d.Writable ∧ d.depth ≤ maxDepth ∧
      (Block.build (fun _ => .error .notFound) {} { matchMode := .nested } d.print).block =
        Block.new [] "##a#####b####a##".toList
          [Block.new "a".toList "2".toList [] {}, Block.new "b".toList [] [] {}] {}) ∧
    apart.Writable ∧ apart.depth ≤ maxDepth ∧ apart.Apart ∧
      (Block.build (fun _ => .error .notFound) {} { matchMode := .greedy } apart.print).block =
        Block.new [] "##a#####b##".toList
          [Block.new "a".toList "##A##".toList [Block.new "A".toList "1".toList [] {}] {},
            Block.new "b".toList "##B##".toList [Block.new "B".toList [] [] {}] {}] {} := by
  intro d apart
  have hd : d.Writable := by decide +kernel
  have hapart : apart.Writable := by decide +kernel
  have hnames : apart.Apart := by decide +kernel
  refine ⟨⟨hd, by decide, ?_⟩, hapart, by decide, hnames, ?_⟩
  · rw [build_print _ _ _ hd (by decide) (by simp)]
    rfl
  · rw [build_print _ _ _ hapart (by decide) fun _ => hnames]
    rfl

end Document
end BlockTemplate
