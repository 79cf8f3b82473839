import BlockTemplate.Lint.Diagram
import BlockTemplate.Proofs.Level.Slices
import BlockTemplate.Proofs.Lint.Standing
import BlockTemplate.Proofs.Text.Utf8
import Mathlib.Data.List.Basic

/-!
The place that the diagram of a warning names. What stands behind a text is on the line after the
last line end of the text, in the column after the characters that follow this line end. A diagram
takes the number of bytes in front of a marker as a number of characters, so that it names the
place of the marker just if all of these characters take one byte each.
-/
namespace BlockTemplate

open Text

namespace Diagram

/-- Line and column of what stands behind a text that starts at the given line and column. -/
def behindFrom (line column : Nat) : Text → Nat × Nat
  | [] => (line, column)
  | '\r' :: '\n' :: t => behindFrom (line + 1) 1 t
  | c :: t => if endsLine c then behindFrom (line + 1) 1 t else behindFrom line (column + 1) t

/-- Line and column of what stands behind a text, counted from one. -/
def behind (t : Text) : Nat × Nat := behindFrom 1 1 t

/-- Line and column of a position by the starts of the lines, the first of which has the given
number. -/
inductive Placed : Nat → List Line → Nat → Nat × Nat → Prop
  | here {row position : Nat} {l : Line} {below : List Line} (hl : l.start ≤ position)
      (hbelow : ∀ k ∈ below, position < k.start) :
      Placed row (l :: below) position (row, position - l.start + 1)
  | later {row position : Nat} {l : Line} {below : List Line} {location : Nat × Nat}
      (hl : l.start ≤ position) (h : Placed (row + 1) below position location) :
      Placed row (l :: below) position location

namespace Placed

variable {row position : Nat} {ls : List Line} {location : Nat × Nat}

/-- The line of a position is found by the number of lines that start no later. -/
theorem exists_getElem? (h : Placed row ls position location) :
    ∃ index l, (ls.filter fun l => l.start ≤ position).length = index + 1 ∧
      ls[index]? = some l ∧ l.start ≤ position ∧
      location = (row + index, position - l.start + 1) := by
  induction h with
  | @here row position l below hl hbelow =>
    have hnone : below.filter (fun l => l.start ≤ position) = [] :=
      List.filter_eq_nil_iff.mpr fun k hk => by simpa using hbelow k hk
    exact ⟨0, l, by simp [hl, hnone], rfl, hl, rfl⟩
  | @later row position k ls location hk h ih =>
    obtain ⟨index, l, hcount, hl, hle, rfl⟩ := ih
    refine ⟨index + 1, l, by simp [hk, hcount], hl, hle, ?_⟩
    rw [Nat.add_right_comm, Nat.add_assoc]

/-- No two positions are in the same line and column. -/
theorem position_eq {other : Nat} (h : Placed row ls position location)
    (h' : Placed row ls other location) : position = other := by
  obtain ⟨index, l, -, hl, hle, heq⟩ := h.exists_getElem?
  obtain ⟨index', l', -, hl', hle', heq'⟩ := h'.exists_getElem?
  obtain ⟨hindex, hcolumn⟩ := Prod.mk.inj (heq.symm.trans heq')
  obtain rfl : index = index' := Nat.add_left_cancel hindex
  obtain rfl : l = l' := Option.some.inj (hl.symm.trans hl')
  omega

/-- A position that the first line starts no later than is on one of the lines. -/
theorem exists_of_pairwise {l : Line} (hl : l.start ≤ position)
    (h : (l :: ls).Pairwise fun k l => k.start < l.start) (row : Nat) :
    ∃ location, Placed row (l :: ls) position location := by
  induction ls generalizing l row with
  | nil => exact ⟨_, .here hl (by simp)⟩
  | cons k ks ih =>
    have hks := (List.pairwise_cons.mp h).2
    by_cases hk : k.start ≤ position
    · obtain ⟨location, hplaced⟩ := ih hk hks (row + 1)
      exact ⟨location, hplaced.later hl⟩
    · refine ⟨_, .here hl fun j hj => ?_⟩
      rcases List.mem_cons.mp hj with rfl | hj
      · omega
      · have hlt := (List.pairwise_cons.mp hks).1 j hj
        omega

end Placed

/-! Positions in the lines of a text -/

variable {m : Nat} {line t : Text}

theorem linesFrom_cons {c : Char} (h : ∀ t', c = '\r' → t ≠ '\n' :: t') :
    linesFrom m line (c :: t) =
      if endsLine c then ⟨m, (c :: line).reverse⟩ :: linesFrom (m + (line.length + 1)) [] t
      else linesFrom m (c :: line) t := by
  rw [linesFrom]
  · simp
  · exact h

theorem linesFrom_crlf : linesFrom m line ('\r' :: '\n' :: t) =
    ⟨m, ('\n' :: '\r' :: line).reverse⟩ :: linesFrom (m + (line.length + 2)) [] t := by
  rw [linesFrom, List.length_reverse, List.length_cons, List.length_cons]

theorem le_start_of_mem_linesFrom {l : Line} (h : l ∈ linesFrom m line t) : m ≤ l.start := by
  fun_induction linesFrom m line t with
  | case1 => cases h
  | case2 m line => exact Nat.le_of_eq (congrArg Line.start (List.mem_singleton.mp h)).symm
  | case3 m line t text ih =>
    rcases List.mem_cons.mp h with rfl | h
    · exact Nat.le_refl m
    · exact Nat.le_trans (Nat.le_add_right m _) (ih h)
  | case4 m line c t hcrlf hc text ih =>
    rcases List.mem_cons.mp h with rfl | h
    · exact Nat.le_refl m
    · exact Nat.le_trans (Nat.le_add_right m _) (ih h)
  | case5 m line c t hcrlf hc ih => exact ih h

/-- The lines of a text start one behind the other. -/
theorem pairwise_linesFrom (m : Nat) (line t : Text) :
    (linesFrom m line t).Pairwise fun k l => k.start < l.start := by
  have hcons : ∀ (m n : Nat) (text t : Text), 0 < n →
      (linesFrom (m + n) [] t).Pairwise (fun k l => k.start < l.start) →
      (⟨m, text⟩ :: linesFrom (m + n) [] t).Pairwise fun k l => k.start < l.start := by
    intro m n text t hn ih
    refine List.pairwise_cons.mpr ⟨fun l hl => ?_, ih⟩
    have hle := le_start_of_mem_linesFrom hl
    dsimp only
    omega
  fun_induction linesFrom m line t with
  | case1 => exact List.Pairwise.nil
  | case2 m line => exact List.pairwise_singleton _ _
  | case3 m line t text ih => exact hcons m _ _ t (by simp [text]) ih
  | case4 m line c t hcrlf hc text ih => exact hcons m _ _ t (by simp [text]) ih
  | case5 m line c t hcrlf hc ih => exact ih

/-- The next character is on the line that was begun, and all other lines start behind it. -/
theorem exists_linesFrom_cons (m : Nat) (line : Text) (c : Char) (t : Text) :
    ∃ text below, linesFrom m line (c :: t) = ⟨m, text⟩ :: below ∧
      ∀ k ∈ below, m + line.length < k.start := by
  induction t generalizing line c with
  | nil =>
    rw [linesFrom_cons (by simp)]
    split
    · exact ⟨_, [], rfl, by simp⟩
    · exact ⟨_, [], rfl, by simp⟩
  | cons d t ih =>
    by_cases hcrlf : c = '\r' ∧ d = '\n'
    · obtain ⟨rfl, rfl⟩ := hcrlf
      refine ⟨_, _, linesFrom_crlf, fun k hk => ?_⟩
      have hle := le_start_of_mem_linesFrom hk
      omega
    · rw [linesFrom_cons (by simp_all)]
      split
      · refine ⟨_, _, rfl, fun k hk => ?_⟩
        have hle := le_start_of_mem_linesFrom hk
        omega
      · obtain ⟨text, below, heq, hbelow⟩ := ih (c :: line) d
        refine ⟨text, below, heq, fun k hk => ?_⟩
        have hlt := hbelow k hk
        rw [List.length_cons] at hlt
        omega

/-- What follows a text is on the line and in the column behind it. A line end of two characters
must not be torn apart. -/
theorem placed_behindFrom {row column position : Nat} {before rest : Text} {c : Char}
    (hc : c ≠ '\n') (hcolumn : column = line.length + 1)
    (hposition : position = m + line.length + before.length) :
    Placed row (linesFrom m line (before ++ c :: rest)) position
      (behindFrom row column before) := by
  have htorn : ∀ (d : Char) (t : Text), (∀ t', d = '\r' → t = '\n' :: t' → False) →
      ∀ t', d = '\r' → t ++ c :: rest ≠ '\n' :: t' := by
    intro d t hcrlf t' hd heq
    cases t with
    | nil => exact hc (List.cons.inj heq).1
    | cons e t => exact hcrlf t hd (congrArg (· :: t) (List.cons.inj heq).1)
  fun_induction behindFrom row column before generalizing m line with
  | case1 row column =>
    obtain ⟨text, below, heq, hbelow⟩ := exists_linesFrom_cons m line c rest
    obtain rfl : position = m + line.length := hposition
    have hhere : Placed row (⟨m, text⟩ :: below) (m + line.length) (row, _) :=
      .here (Nat.le_add_right m _) hbelow
    rw [hcolumn, List.nil_append, heq]
    rwa [Nat.add_sub_cancel_left] at hhere
  | case2 row column t ih =>
    rw [List.cons_append, List.cons_append, linesFrom_crlf]
    simp only [List.length_cons] at hposition
    exact .later (by dsimp only; omega) (ih rfl (by rw [List.length_nil]; omega))
  | case3 row column d t hcrlf hd ih =>
    rw [List.cons_append, linesFrom_cons (htorn d t hcrlf), if_pos hd]
    rw [List.length_cons] at hposition
    exact .later (by dsimp only; omega) (ih rfl (by rw [List.length_nil]; omega))
  | case4 row column d t hcrlf hd ih =>
    rw [List.cons_append, linesFrom_cons (htorn d t hcrlf), if_neg hd]
    rw [List.length_cons] at hposition
    exact ih (by rw [hcolumn, List.length_cons]) (by rw [List.length_cons]; omega)

/-! The place in a text -/

theorem place_of_placed {position : Nat} {location : Nat × Nat} (hle : position ≤ t.length)
    (h : Placed 1 (lines t) position location) : place t position = some location := by
  obtain ⟨index, l, hcount, hl, -, rfl⟩ := h.exists_getElem?
  simp [place, lineIndex?, hle, hcount, hl, Nat.add_comm 1 index]

theorem exists_placed {position : Nat} (t : Text) (hle : position ≤ t.length) :
    ∃ location, Placed 1 (lines t) position location := by
  cases t with
  | nil => exact ⟨_, .here (Nat.zero_le _) (by simp)⟩
  | cons c t =>
    obtain ⟨text, below, heq, -⟩ := exists_linesFrom_cons 0 [] c t
    have hsorted := pairwise_linesFrom 0 [] (c :: t)
    rw [show lines (c :: t) = linesFrom 0 [] (c :: t) from rfl]
    rw [heq] at hsorted ⊢
    exact Placed.exists_of_pairwise (Nat.zero_le position) hsorted 1

theorem placed_of_place {position : Nat} {location : Nat × Nat}
    (h : place t position = some location) :
    position ≤ t.length ∧ Placed 1 (lines t) position location := by
  by_cases hle : position ≤ t.length
  · obtain ⟨location', h'⟩ := exists_placed t hle
    obtain rfl := Option.some.inj (h.symm.trans (place_of_placed hle h'))
    exact ⟨hle, h'⟩
  · simp [place, lineIndex?, hle] at h

/-- A character has the place that is behind the text in front of it. -/
theorem place_behind {before rest : Text} {c : Char} (hc : c ≠ '\n') :
    place (before ++ c :: rest) before.length = some (behind before) := by
  have hplaced : Placed 1 (linesFrom 0 [] (before ++ c :: rest)) before.length (behind before) :=
    placed_behindFrom hc rfl (by simp)
  refine place_of_placed (by simp) ?_
  obtain ⟨d, t, ht⟩ := List.exists_cons_of_ne_nil
    (List.append_ne_nil_of_right_ne_nil before (List.cons_ne_nil c rest))
  rw [ht] at hplaced ⊢
  exact hplaced

/-! What a diagram names -/

/-- The first row of a frame: the name of the file and a line and column. -/
def frameTop (n : Nat) (file : Text) (location : Nat × Nat) : Text :=
  spaces n ++ paintEach .frame "╭─[".toList ++
    (file ++ ':' :: Text.ofNat location.1 ++ ':' :: Text.ofNat location.2) ++ paint .frame [']']

/-- What stands above the frame of a warning. -/
def headline (w : Warning) : Text :=
  paint .label "Warning:".toList ++ " [".toList ++ w.finding.category ++ "] ".toList ++
    w.finding.message

/-- The report of a warning has a line and column as the location in the file. -/
def Names (report : Text) (w : Warning) (file : Text) (location : Nat × Nat) : Prop :=
  ∃ n rest, report = headline w ++ '\n' :: (frameTop n file location ++ rest)

theorem notMem_ofNat {c : Char} (hc : c.isDigit = false) (n : Nat) : c ∉ Text.ofNat n := by
  intro hmem
  rw [Text.isDigit_of_mem_ofNat hmem] at hc
  cases hc

theorem escape_notMem_spaces (n : Nat) : '\x1b' ∉ spaces n :=
  fun hmem => absurd (List.eq_of_mem_replicate hmem) (by decide)

/-- The first row of a frame shows one line and column. -/
theorem frameTop_append_inj {n n' : Nat} {file rest rest' : Text} {location location' : Nat × Nat}
    (h : frameTop n file location ++ rest = frameTop n' file location' ++ rest') :
    location = location' := by
  obtain ⟨line, column⟩ := location
  obtain ⟨line', column'⟩ := location'
  -- Each of the parts ends where a character stands that is not in it.
  obtain ⟨corner, hcorner⟩ : ∃ t, paintEach .frame "╭─[".toList = '\x1b' :: t := ⟨_, rfl⟩
  obtain ⟨edge, hedge⟩ : ∃ t, paint .frame [']'] = '\x1b' :: t := ⟨_, rfl⟩
  simp only [frameTop, hcorner, hedge, List.append_assoc, List.cons_append] at h
  obtain ⟨-, hcorner⟩ := append_cons_inj (escape_notMem_spaces n) (escape_notMem_spaces n') h
  have hline := List.tail_eq_of_cons_eq
    (List.append_cancel_left (List.append_cancel_left hcorner))
  obtain ⟨hline, hcolumn⟩ :=
    append_cons_inj (notMem_ofNat rfl line) (notMem_ofNat rfl line') hline
  obtain ⟨hcolumn, -⟩ :=
    append_cons_inj (notMem_ofNat rfl column) (notMem_ofNat rfl column') hcolumn
  rw [Text.ofNat_injective hline, Text.ofNat_injective hcolumn]

theorem exists_framed {span : Span} {location : Nat × Nat} (file message : Text)
    (hle : max (span.stop - 1) span.start ≤ t.length)
    (hplace : place t span.start = some location) :
    ∃ n rows, framed t file span message = frameTop n file location :: rows := by
  have hstart : span.start ≤ t.length := Nat.le_trans (Nat.le_max_right _ _) hle
  obtain ⟨line, column⟩ := location
  simp [framed, lineIndex?, hle, hstart, hplace, frameTop]

theorem framed_eq_nil {file message : Text} {span : Span}
    (hlt : ¬ max (span.stop - 1) span.start ≤ t.length) : framed t file span message = [] := by
  simp [framed, lineIndex?, hlt]

theorem draw_eq (t file : Text) (w : Warning) : draw t file w = headline w ++
    '\n' :: (framed t file w.span w.finding.message).flatMap (· ++ ['\n']) := by
  simp [draw, headline]

/-- The location of a report is the place of the character that has the number with which the span
starts. There is none if the span goes beyond the characters of the text. -/
theorem names_draw_iff {file : Text} {w : Warning} {location : Nat × Nat} :
    Names (draw t file w) w file location ↔
      max (w.span.stop - 1) w.span.start ≤ t.length ∧ place t w.span.start = some location := by
  constructor
  · rintro ⟨n, rest, h⟩
    rw [draw_eq] at h
    have hrows := List.tail_eq_of_cons_eq (List.append_cancel_left h)
    by_cases hle : max (w.span.stop - 1) w.span.start ≤ t.length
    · have hstart : w.span.start ≤ t.length := Nat.le_trans (Nat.le_max_right _ _) hle
      obtain ⟨location', hplaced⟩ := exists_placed t hstart
      have hplace := place_of_placed hstart hplaced
      obtain ⟨n', rows, hframed⟩ := exists_framed file w.finding.message hle hplace
      rw [hframed, List.flatMap_cons, List.append_assoc] at hrows
      rw [← frameTop_append_inj hrows]
      exact ⟨hle, hplace⟩
    · rw [framed_eq_nil hle, List.flatMap_nil] at hrows
      have hlength := congrArg List.length hrows
      simp [frameTop, paint] at hlength
  · rintro ⟨hle, hplace⟩
    obtain ⟨n, rows, hframed⟩ := exists_framed file w.finding.message hle hplace
    refine ⟨n, '\n' :: rows.flatMap (· ++ ['\n']), ?_⟩
    rw [draw_eq, hframed, List.flatMap_cons, List.append_assoc]
    rfl

/-- No two positions of a text have the same place. -/
theorem place_inj {p q : Nat} {location : Nat × Nat} (hp : place t p = some location)
    (hq : place t q = some location) : p = q :=
  (placed_of_place hp).2.position_eq (placed_of_place hq).2

end Diagram

theorem Span.Holds.exists_cons {span : Span} {token : Token} {t u v : Text}
    (hu : Token.Written token u) (h : span.Holds t (u ++ v)) :
    ∃ c rest, c ≠ '\n' ∧ span.Holds t (c :: rest) := by
  obtain ⟨c, rest, rfl, rfl | rfl⟩ := hu.exists_eq_cons
  · exact ⟨'<', rest ++ v, by decide, h⟩
  · exact ⟨'\x7b', rest ++ v, by decide, h⟩

/-- What a warning is about begins with a character that is no line end. -/
theorem Warning.Stands.exists_holds {t : Text} {w : Warning} (h : w.Stands t) :
    ∃ c rest, c ≠ '\n' ∧ w.span.Holds t (c :: rest) := by
  unfold Warning.Stands at h
  split at h
  · obtain ⟨u, hu, hholds⟩ := h
    exact Span.Holds.exists_cons hu (by rwa [List.append_nil])
  · obtain ⟨u, hu, hholds⟩ := h
    exact Span.Holds.exists_cons hu (by rwa [List.append_nil])
  · obtain ⟨u, v, body, -, hu, -, -, hholds⟩ := h
    exact Span.Holds.exists_cons hu (by rwa [← List.append_assoc])
  · obtain ⟨u, hu, hholds⟩ := h
    exact Span.Holds.exists_cons hu (by rwa [List.append_nil])

namespace Lint

open Diagram

/-- The report of a warning names the place of what the warning is about just if all characters in
front of that are ASCII and there are no more bytes in front of the last byte of the span than the
text has characters. -/
theorem names_behind_iff {files : Files} {origin : Origin} {mode : MatchMode} {t : Text}
    {w : Warning} (h : w ∈ check files origin mode t) (file : Text) :
    (∃ before after, t = before ++ after ∧ byteSize before = w.span.start) ∧
    ∀ before after, t = before ++ after → byteSize before = w.span.start →
      (Names (draw t file w) w file (behind before) ↔
        (∀ c ∈ before, c.toNat < 128) ∧ w.span.stop ≤ t.length + 1) := by
  obtain ⟨c, rest, hc, hholds⟩ := (stands_of_mem_check h).exists_holds
  have hlt := hholds.start_lt_stop (List.cons_ne_nil c rest)
  obtain ⟨before, after, ht, hspan⟩ := hholds
  rw [List.append_assoc, List.cons_append] at ht
  have hstart : byteSize before = w.span.start := by rw [hspan]
  refine ⟨⟨before, _, ht, hstart⟩, fun before' after' ht' hsize => ?_⟩
  have hsplit := splitAtByte?_append before' after'
  rw [← ht', hsize, ht, ← hstart, splitAtByte?_append] at hsplit
  obtain ⟨rfl, -⟩ := Prod.mk.inj (Option.some.inj hsplit)
  have hplace : place t before.length = some (behind before) := ht ▸ place_behind hc
  rw [names_draw_iff, ← byteSize_eq_length_iff]
  constructor
  · rintro ⟨hle, hnamed⟩
    have hlength := place_inj hnamed hplace
    omega
  · rintro ⟨hascii, hstop⟩
    rw [← hstart, hascii] at hlt ⊢
    exact ⟨by omega, hplace⟩

/-- The line end in front of the marker has two characters, and an accented letter behind it does
no harm. -/
theorem names_behind_iff_two_lines :
    let t := "a\r\n<!--begin:b-->é".toList
    let files : Files := fun _ => .error .notFound
    let w : Warning := ⟨.unterminated "b".toList, ⟨3, 17⟩⟩
    let file := "page.html".toList
    w ∈ check files {} .greedy t ∧ Names (draw t file w) w file (2, 1) := by
  intro t files w file
  have hmem : w ∈ check files {} .greedy t := by decide +kernel
  refine ⟨hmem, ?_⟩
  have hnames := (names_behind_iff hmem file).2 "a\r\n".toList "<!--begin:b-->é".toList rfl rfl
  have hbehind : behind "a\r\n".toList = (2, 1) := by decide
  rw [← hbehind]
  exact hnames.mpr ⟨by simp, by decide⟩

/-- An accented letter in front of a marker takes two bytes, and the report names the second column
behind the letter. -/
theorem names_beside_marker :
    let t := "é<!--begin:a--> b".toList
    let files : Files := fun _ => .error .notFound
    let w : Warning := ⟨.unterminated "a".toList, ⟨2, 16⟩⟩
    let file := "page.html".toList
    w ∈ check files {} .greedy t ∧ byteSize "é".toList = w.span.start ∧
    behind "é".toList = (1, 2) ∧ Names (draw t file w) w file (1, 3) ∧
    ¬ Names (draw t file w) w file (1, 2) := by
  intro t files w file
  refine ⟨by decide +kernel, by decide, by decide, ?_, ?_⟩
  · rw [names_draw_iff]
    decide +kernel
  · rw [names_draw_iff]
    decide +kernel

end Lint
end BlockTemplate
