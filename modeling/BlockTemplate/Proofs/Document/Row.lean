import BlockTemplate.Proofs.Block.Stripped
import BlockTemplate.Proofs.Document.RoundTrip
import BlockTemplate.Proofs.Rendering.Unseparated

/-!
Rows printed as templates: blocks that hold nothing but a text, with text before, between and
after them. If such a row is not separated, there is a text that cannot be the body of its blocks:
what is rendered then is not the template without its markers. So the separation that rendering
needs cannot be replaced by a weaker condition on names and texts.
-/
namespace BlockTemplate

open Text

namespace Level

variable {mode : MatchMode} {t : Text} {P : Level → Prop}

theorem throughout_of_regions_nil (h : (ofText mode t).filterMap Part.region? = [])
    (hP : P (ofText mode t)) (levels : Nat) : Throughout P mode levels t := by
  cases levels with
  | zero => trivial
  | succ levels => exact ⟨hP, by simp [h]⟩

theorem distinct_of_regions_nil {level : Level} (h : level.filterMap Part.region? = []) :
    Distinct level := by
  simp [Distinct, h]

theorem separated_of_regions_nil {level : Level} (h : level.filterMap Part.region? = []) :
    Separated level := by
  have hnames := map_name_entries Region.bodyText level
  rw [h, List.map_nil, List.map_eq_nil_iff] at hnames
  rw [Separated, hnames]
  exact List.Pairwise.nil

theorem fillWith_congr {out out' : Region → Text} {level : Level}
    (h : ∀ r, Part.region r ∈ level → out r = out' r) :
    fillWith out level = fillWith out' level := by
  refine List.flatMap_congr fun part hpart => ?_
  cases part with
  | kept p => rfl
  | region r => exact h r hpart

theorem stripped_of_regions_nil (h : (ofText mode t).filterMap Part.region? = []) (levels : Nat) :
    stripped mode levels t = t := by
  cases levels with
  | zero => rfl
  | succ levels =>
    have hnone : ∀ r, Part.region r ∉ ofText mode t := by
      intro r hr
      simpa [h] using mem_filterMap_region?.mpr hr
    have htext : fillWith Region.text (ofText mode t) = (ofText mode t).flatMap Part.text :=
      List.flatMap_congr fun part _ => by cases part <;> rfl
    rw [stripped, fillWith_congr fun r hr => absurd hr (hnone r), htext, text_ofText]

end Level

namespace Document

/-- A row with its contents as the bodies of blocks. -/
def ofRow (x : Text) : List Slot.Entry → Document
  | [] => text x nil
  | e :: row => text x (block e.name (text e.content nil) (ofRow e.after row))

variable {mode : MatchMode} {before x : Text} {row : List Slot.Entry}

theorem lead_plain_append (before : Text) (level : Level) :
    Level.lead ((plain before).map .kept ++ level) = before ++ Level.lead level := by
  unfold plain
  split <;> simp [Level.lead, *]

theorem entries_plain_append (out : Region → Text) (before : Text) (level : Level) :
    Level.entries out ((plain before).map .kept ++ level) = Level.entries out level := by
  unfold plain
  split <;> simp [Level.entries]

theorem lead_partsFrom_ofRow (before x : Text) (row : List Slot.Entry) :
    Level.lead (partsFrom before (ofRow x row)) = before ++ x := by
  cases row with
  | nil =>
    have h := lead_plain_append (before ++ x) []
    simpa [ofRow, partsFrom, Level.lead] using h
  | cons e row => simp [ofRow, partsFrom, lead_plain_append, Level.lead]

theorem entries_partsFrom_ofRow (hrow : (ofRow x row).Writable) (before : Text) :
    Level.entries Region.bodyText (partsFrom before (ofRow x row)) = row := by
  induction row generalizing before x with
  | nil =>
    have h := entries_plain_append Region.bodyText (before ++ x) []
    simpa [ofRow, partsFrom, Level.entries] using h
  | cons e row ih =>
    obtain ⟨-, -, -, -, -, hbody, hrest⟩ := hrow
    have htext : (regionOf e.name (text e.content nil)).bodyText = e.content := by
      have h : (regionOf e.name (text e.content nil)).bodyText = print (text e.content nil) :=
        textOf_piecesFrom hbody
      simpa [print] using h
    rw [ofRow, partsFrom, partsFrom, entries_plain_append, Level.entries, ih hrest, htext,
      lead_partsFrom_ofRow, List.nil_append]
    rfl

theorem filterMap_region?_text {c : Text} (hopen : '<' ∉ c) (hbrace : '\x7b' ∉ c) :
    (Level.ofText mode c).filterMap Part.region? = [] := by
  have hprint : print (text c nil) = c := by simp [print]
  have hlevel : Level.ofText mode (print (text c nil)) = partsFrom [] (text c nil) :=
    ofText_print_eq ⟨hopen, hbrace, trivial⟩ fun _ => trivial
  rw [hprint] at hlevel
  rw [hlevel]
  simp [partsFrom, List.filterMap_map, Function.comp_def]

variable {files : Files} {origin : Origin} {settings : Settings}

/-- The regions of a printed row are its entries. -/
theorem exists_of_region_mem {r : Region} (hrow : (ofRow x row).Writable)
    (hapart : mode = .greedy → (ofRow x row).Apart)
    (hr : Part.region r ∈ Level.ofText mode (print (ofRow x row))) :
    ∃ e ∈ row, e.name = r.name ∧ e.content = r.bodyText := by
  have hpairs := Level.map_pair_entries Region.bodyText (Level.ofText mode (print (ofRow x row)))
  rw [ofText_print_eq hrow hapart, entries_partsFrom_ofRow hrow,
    ← ofText_print_eq hrow hapart] at hpairs
  have hmem : (r.name, r.bodyText) ∈ row.map Slot.pair := by
    rw [hpairs]
    exact List.mem_map.mpr ⟨r, Level.mem_filterMap_region?.mpr hr, rfl⟩
  obtain ⟨e, he, heq⟩ := List.mem_map.mp hmem
  obtain ⟨hname, hcontent⟩ := Prod.mk.inj heq
  exact ⟨e, he, hname, hcontent⟩

theorem content_of_writable (hrow : (ofRow x row).Writable) :
    ∀ e ∈ row, '<' ∉ e.content ∧ '\x7b' ∉ e.content := by
  induction row generalizing x with
  | nil => simp
  | cons e row ih =>
    obtain ⟨-, -, -, -, -, ⟨hopen, hbrace, -⟩, hrest⟩ := hrow
    exact List.forall_mem_cons.mpr ⟨⟨hopen, hbrace⟩, ih hrest⟩

theorem notMem_print_ofRow (hx : '#' ∉ x) (hplain : ∀ e ∈ row, e.Plain) :
    '#' ∉ print (ofRow x row) := by
  induction row generalizing x with
  | nil => simpa [ofRow, print] using hx
  | cons e row ih =>
    obtain ⟨he, hrest⟩ := List.forall_mem_cons.mp hplain
    have hafter := ih he.after hrest
    simp only [ofRow, print, openingMarker, closingMarker, Token.openingWord_eq,
      Token.closingWord_eq, Token.markerEnd, List.mem_append, not_or]
    simp [hx, he.name, he.content, hafter]

theorem unmarked_print_ofRow (hrow : (ofRow x row).Writable)
    (hapart : mode = .greedy → (ofRow x row).Apart) (hx : '#' ∉ x)
    (hplain : ∀ e ∈ row, e.Plain) (hnodup : (row.map Slot.Entry.name).Nodup) :
    Block.Unmarked files origin mode (print (ofRow x row)) := by
  refine ⟨unread_print hrow files origin, notMem_print_ofRow hx hplain, ⟨?_, ?_⟩, ?_⟩
  · intro r hr
    obtain ⟨e, he, hname, -⟩ :=
      exists_of_region_mem hrow hapart (Level.mem_filterMap_region?.mp hr)
    exact hname ▸ (hplain e he).name_ne_nil
  · rw [← Level.map_name_entries Region.bodyText, ofText_print_eq hrow hapart,
      entries_partsFrom_ofRow hrow]
    exact hnodup
  · intro r hr
    obtain ⟨e, he, -, hcontent⟩ :=
      exists_of_region_mem hrow hapart (Level.mem_filterMap_region?.mp hr)
    obtain ⟨hopen, hbrace⟩ := content_of_writable hrow e he
    have hregions : (Level.ofText mode e.content).filterMap Part.region? = [] :=
      filterMap_region?_text hopen hbrace
    rw [← hcontent]
    exact Level.throughout_of_regions_nil hregions (Level.distinct_of_regions_nil hregions) _

/-- What a printed row renders to, and what it should. -/
theorem lossless_print_ofRow_iff (hcollapse : settings.style.collapseBlankLines = false)
    (hunbound : settings.style.unbound = .keep) (hrow : (ofRow x row).Writable)
    (hapart : settings.matchMode = .greedy → (ofRow x row).Apart) (hx : '#' ∉ x)
    (hplain : ∀ e ∈ row, e.Plain) (hnodup : (row.map Slot.Entry.name).Nodup) :
    Block.Lossless files origin settings (print (ofRow x row)) ↔
      Slot.clear (Slot.fill (row.map Slot.pair) (Slot.rowTemplate x row)) =
        Slot.rowFilled x row := by
  have hunmarked : Block.Unmarked files origin settings.matchMode (print (ofRow x row)) :=
    unmarked_print_ofRow hrow hapart hx hplain hnodup
  have hlead : (Level.ofText settings.matchMode (print (ofRow x row))).lead = x := by
    rw [ofText_print_eq hrow hapart, lead_partsFrom_ofRow, List.nil_append]
  have hentries : (Level.ofText settings.matchMode (print (ofRow x row))).entries
      Region.bodyText = row := by
    rw [ofText_print_eq hrow hapart, entries_partsFrom_ofRow hrow]
  have hbody : ∀ r, Part.region r ∈ Level.ofText settings.matchMode (print (ofRow x row)) →
      (Level.ofText settings.matchMode r.bodyText).filterMap Part.region? = [] := by
    intro r hr
    obtain ⟨e, he, -, hcontent⟩ := exists_of_region_mem hrow hapart hr
    obtain ⟨hopen, hbrace⟩ := content_of_writable hrow e he
    exact hcontent ▸ filterMap_region?_text hopen hbrace
  have hout : ∀ r, Part.region r ∈ Level.ofText settings.matchMode (print (ofRow x row)) →
      (Block.settle
        (Block.buildWithin files origin settings maxDepth r.name r.bodyText).block).output =
          r.bodyText := by
    intro r hr
    have hregions := hbody r hr
    have hpending := Block.pending_settle hcollapse hunbound (hunmarked.unread.bodyText hr)
      (Level.notMem_bodyText hunmarked.signless hr) maxDepth
      (Level.throughout_of_regions_nil hregions (Level.distinct_of_regions_nil hregions) _)
      (Level.throughout_of_regions_nil hregions (Level.separated_of_regions_nil hregions) _) r.name
    rw [Block.output, hpending, Level.stripped_of_regions_nil hregions]
    simp
  have hpending := Block.pending_settle_level hunmarked.unread hunmarked.distinct.1 hcollapse
    hunbound hout []
  have hstripped : stripped settings.matchMode (maxDepth + 1) (print (ofRow x row)) =
      Slot.rowFilled x row := by
    rw [stripped, Level.fillWith_congr fun r hr => Level.stripped_of_regions_nil (hbody r hr) _,
      Level.fillWith_eq_rowFilled, hlead, hentries]
  rw [hlead, hentries] at hpending
  rw [Block.lossless_iff, hstripped, Block.output, Block.build, hpending]
  simp

/-- The row with the same text in the place of every slot. -/
def withContent (body : Text) (row : List Slot.Entry) : List Slot.Entry :=
  row.map fun e => { e with content := body }

theorem writable_withContent {body : Text} (hopen : '<' ∉ body) (hbrace : '\x7b' ∉ body)
    (hrow : (ofRow x row).Writable) : (ofRow x (withContent body row)).Writable := by
  induction row generalizing x with
  | nil => exact hrow
  | cons e row ih =>
    obtain ⟨hx, hx', hname, hname', htrim, -, hrest⟩ := hrow
    exact ⟨hx, hx', hname, hname', htrim, ⟨hopen, hbrace, trivial⟩, ih hrest⟩

theorem names_withContent (body x : Text) (row : List Slot.Entry) :
    names (ofRow x (withContent body row)) = names (ofRow x row) := by
  induction row generalizing x with
  | nil => rfl
  | cons e row ih =>
    have h := ih e.after
    simp only [withContent] at h
    simp [withContent, ofRow, names, h]

theorem apart_withContent (body : Text) (h : (ofRow x row).Apart) :
    (ofRow x (withContent body row)).Apart := by
  induction row generalizing x with
  | nil => exact h
  | cons e row ih =>
    obtain ⟨hnames, -, hrest⟩ := h
    rw [← names_withContent body] at hnames
    exact ⟨hnames, trivial, ih hrest⟩

theorem plain_withContent {body : Text} (hbody : '#' ∉ body) (hplain : ∀ e ∈ row, e.Plain) :
    ∀ e ∈ withContent body row, e.Plain := by
  intro e he
  obtain ⟨e', he', rfl⟩ := List.mem_map.mp he
  obtain ⟨hname, hne, -, hafter⟩ := hplain e' he'
  exact ⟨hname, hne, hbody, hafter⟩

theorem map_name_withContent (body : Text) (row : List Slot.Entry) :
    (withContent body row).map Slot.Entry.name = row.map Slot.Entry.name := by
  simp [withContent, Function.comp_def]

theorem separated_withContent (body : Text) (row : List Slot.Entry) :
    Slot.Separated (withContent body row) ↔ Slot.Separated row := by
  rw [Slot.Separated, withContent, ← List.map_dropLast, List.pairwise_map]
  rfl

theorem exists_length_name_le (row : List Slot.Entry) : ∃ m, ∀ e ∈ row, e.name.length ≤ m := by
  induction row with
  | nil => exact ⟨0, by simp⟩
  | cons e row ih =>
    obtain ⟨m, hm⟩ := ih
    refine ⟨max e.name.length m, List.forall_mem_cons.mpr ⟨Nat.le_max_left _ _, ?_⟩⟩
    exact fun e' he' => (hm e' he').trans (Nat.le_max_right _ _)

/-- A printed row that is not separated is rendered with a loss for some contents. -/
theorem exists_not_lossless (files : Files) (origin : Origin)
    (hcollapse : settings.style.collapseBlankLines = false)
    (hunbound : settings.style.unbound = .keep) (hrow : (ofRow x row).Writable)
    (hapart : settings.matchMode = .greedy → (ofRow x row).Apart) (hx : '#' ∉ x)
    (hplain : ∀ e ∈ row, e.Plain) (hnodup : (row.map Slot.Entry.name).Nodup)
    (hsep : ¬ Slot.Separated row) :
    ∃ body, '#' ∉ body ∧ '<' ∉ body ∧ '\x7b' ∉ body ∧
      ¬ Block.Lossless files origin settings (print (ofRow x (withContent body row))) := by
  obtain ⟨m, hm⟩ := exists_length_name_le row
  let n := 2 * Slot.breaks (x :: Slot.rowCells row) + m + 1
  let body := List.replicate n '\n'
  have hbody : ∀ c, c ≠ '\n' → c ∉ body := by
    intro c hc hmem
    exact hc (List.eq_of_mem_replicate hmem)
  have hwritable := writable_withContent (hbody '<' (by decide)) (hbody '\x7b' (by decide)) hrow
  have hapart' : settings.matchMode = .greedy → (ofRow x (withContent body row)).Apart :=
    fun hmode => apart_withContent body (hapart hmode)
  have hplain' := plain_withContent (hbody '#' (by decide)) hplain
  have hnodup' : ((withContent body row).map Slot.Entry.name).Nodup := by
    rwa [map_name_withContent]
  have hcells : Slot.rowCells (withContent body row) = Slot.rowCells row := by
    simp [withContent, Slot.rowCells, List.flatMap_map]
  have hsep' : ¬ Slot.Separated (withContent body row) := by
    rwa [separated_withContent]
  refine ⟨body, hbody '#' (by decide), hbody '<' (by decide), hbody '\x7b' (by decide), ?_⟩
  rw [lossless_print_ofRow_iff hcollapse hunbound hwritable hapart' hx hplain' hnodup']
  refine @Slot.clear_fill_ne m n x (withContent body row) hx hplain' hnodup' hsep' ?_ ?_ ?_ ?_
  · intro e he
    obtain ⟨e', he', rfl⟩ := List.mem_map.mp he
    exact hm e' he'
  · omega
  · rw [hcells]
    omega
  · intro e he
    obtain ⟨e', -, rfl⟩ := List.mem_map.mp he
    rfl

end Document

namespace Block

open Document

/-- A text that is separated throughout is rendered without the markers of its regions and with
nothing else lost. The condition cannot be weakened: the names and texts of a row of blocks are
separated if and only if the row is rendered so with every plain text as body. -/
theorem lossless_of_separated (files : Files) (origin : Origin) (settings : Settings)
    (hcollapse : settings.style.collapseBlankLines = false)
    (hunbound : settings.style.unbound = .keep) :
    (∀ t, Unmarked files origin settings.matchMode t →
      Level.Throughout Level.Separated settings.matchMode (maxDepth + 1) t →
      Lossless files origin settings t) ∧
    ∀ x row, (ofRow x row).Writable → (settings.matchMode = .greedy → (ofRow x row).Apart) →
      '#' ∉ x → (∀ e ∈ row, e.Plain) → (row.map Slot.Entry.name).Nodup →
      ((∀ body, '#' ∉ body → '<' ∉ body → '\x7b' ∉ body →
        Lossless files origin settings (print (ofRow x (withContent body row)))) ↔
          Slot.Separated row) := by
  refine ⟨fun t h hsep => h.lossless hcollapse hunbound hsep, ?_⟩
  intro x row hrow hapart hx hplain hnodup
  constructor
  · intro h
    by_contra hsep
    obtain ⟨body, hsign, hopen, hbrace, hnot⟩ :=
      exists_not_lossless files origin hcollapse hunbound hrow hapart hx hplain hnodup hsep
    exact hnot (h body hsign hopen hbrace)
  · intro hsep body hsign hopen hbrace
    have hwritable := writable_withContent hopen hbrace hrow
    have hplain' := plain_withContent hsign hplain
    have hnodup' : ((withContent body row).map Slot.Entry.name).Nodup := by
      rwa [map_name_withContent]
    rw [lossless_print_ofRow_iff hcollapse hunbound hwritable
      (fun hmode => apart_withContent body (hapart hmode)) hx hplain' hnodup',
      Slot.fill_rowTemplate hx hplain' hnodup' ((separated_withContent body row).mpr hsep)]
    exact Slot.clear_of_free (Slot.free_of_notMem (Slot.notMem_rowFilled hx hplain'))

/-- Nested regions, names used again at another level and behind their own region, a file that
cannot be read and a marker without an end. -/
theorem lossless_of_separated_nested :
    let files : Files := fun _ => .error .notFound
    let settings : Settings := { style := { collapseBlankLines := false }, matchMode := .nested }
    let t := ("x<!--begin:a-->1<!--begin:b-->2<!--end:b-->\x7bFILE \"f\"\x7d<!--end:a-->a" ++
      "<!--begin:b-->3<!--end:b-->b<!--begin:q-->").toList
    let root := (build files {} settings t).block
    Unmarked files {} .nested t ∧ ChildrenFirst root [[0, 0], [0], [1], []] ∧
      (run (commits [[0, 0], [0], [1], []]) root).drain.1 =
        "x12\x7bFILE \"f\"\x7da3b<!--begin:q-->".toList := by
  intro files settings t root
  have hunread : Origin.Unread {} files t := by
    unfold Origin.Unread
    decide +kernel
  have hlevels : Level.Throughout Level.Distinct .nested (maxDepth + 1) t ∧
      Level.Throughout Level.Separated .nested (maxDepth + 1) t ∧
      stripped .nested (maxDepth + 1) t = "x12\x7bFILE \"f\"\x7da3b<!--begin:q-->".toList := by
    decide +kernel
  obtain ⟨hdistinct, hsep, hstripped⟩ := hlevels
  have hunmarked : Unmarked files {} .nested t := ⟨hunread, by decide +kernel, hdistinct⟩
  have horder : postorder root = [[0, 0], [0], [1], []] := by decide +kernel
  have hfirst : ChildrenFirst root [[0, 0], [0], [1], []] := horder ▸ childrenFirst_postorder root
  have hlossless : Lossless files {} settings t :=
    (lossless_of_separated files {} settings rfl rfl).1 t hunmarked hsep
  exact ⟨hunmarked, hfirst, (hlossless _ hfirst).trans hstripped⟩

/-- The text between the second and the third region is the name of the first. It is taken for a
slot of that name, and all but the first body is lost. -/
theorem not_lossless_name_between :
    let files : Files := fun _ => .error .notFound
    let settings : Settings := { style := { collapseBlankLines := false } }
    let t := ("<!--begin:a-->1<!--end:a--><!--begin:b-->2<!--end:b-->a" ++
      "<!--begin:c-->3<!--end:c-->").toList
    let root := (build files {} settings t).block
    Unmarked files {} .greedy t ∧ ChildrenFirst root [[0], [1], [2], []] ∧
      (run (commits [[0], [1], [2], []]) root).drain.1 = "1".toList ∧
      stripped .greedy (maxDepth + 1) t = "12a3".toList ∧ ¬ Lossless files {} settings t := by
  intro files settings t root
  have hunread : Origin.Unread {} files t := by
    unfold Origin.Unread
    decide +kernel
  have hlevels : Level.Throughout Level.Distinct .greedy (maxDepth + 1) t ∧
      stripped .greedy (maxDepth + 1) t = "12a3".toList := by
    decide +kernel
  obtain ⟨hdistinct, hstripped⟩ := hlevels
  have hunmarked : Unmarked files {} .greedy t := ⟨hunread, by decide +kernel, hdistinct⟩
  have hrun : postorder root = [[0], [1], [2], []] ∧
      (run (commits [[0], [1], [2], []]) root).drain.1 = "1".toList := by
    decide +kernel
  obtain ⟨horder, hrendered⟩ := hrun
  have hfirst : ChildrenFirst root [[0], [1], [2], []] := horder ▸ childrenFirst_postorder root
  refine ⟨hunmarked, hfirst, hrendered, hstripped, fun h => ?_⟩
  have hwhole : (run (commits [[0], [1], [2], []]) root).drain.1 =
      stripped .greedy (maxDepth + 1) t := h _ hfirst
  rw [hrendered, hstripped] at hwhole
  exact absurd hwhole (by decide)

end Block
end BlockTemplate
