import BlockTemplate.Proofs.Document.Basic
import BlockTemplate.Proofs.Markup.Stretch

/-!
The pieces of a printed document: its markers, and between two markers one piece of plain text
if there is any. Plain text that stands before the document joins with the texts it starts with,
so that the statements carry the text `before` which was read last.
-/
namespace BlockTemplate

namespace Piece

/-- Characters without brackets and braces are one piece, up to the bracket that follows. -/
theorem first_plain {s t : Text} (hs : s ≠ []) (hopen : '<' ∉ s) (hbrace : '\x7b' ∉ s)
    (ht : ∀ c ∈ t.head?, c = '<') : first (s ++ t) = (none, s.length) := by
  obtain ⟨c, r, rfl⟩ := List.exists_cons_of_ne_nil hs
  obtain ⟨hc, hopen⟩ := List.ne_and_not_mem_of_not_mem_cons hopen
  obtain ⟨hc', hbrace⟩ := List.ne_and_not_mem_of_not_mem_cons hbrace
  have hat : Token.at? (c :: r ++ t) = none := by
    cases h : Token.at? (c :: r ++ t) with
    | none => rfl
    | some found =>
      obtain ⟨w, rest, hw, hwritten, -⟩ := Token.at?_eq_some_iff.mp h
      obtain ⟨d, w', rfl, hd⟩ := hwritten.exists_eq_cons
      obtain ⟨rfl, -⟩ := List.cons.inj hw
      rcases hd with rfl | rfl
      · exact absurd rfl hc
      · exact absurd rfl hc'
  have hafter : Text.after? Token.inclusionStart (c :: r ++ t) = none := by
    cases h : Text.after? Token.inclusionStart (c :: r ++ t) with
    | none => rfl
    | some rest =>
      rw [Text.after?_eq_some_iff, Token.inclusionStart_eq] at h
      exact absurd (List.cons.inj h).1.symm hc'
  have hrun : (r ++ t).takeWhile (!startsToken ·) = r := by
    rw [List.takeWhile_append_of_pos]
    · cases t with
      | nil => simp
      | cons d t =>
        obtain rfl : d = '<' := ht d rfl
        simp [startsToken]
    · intro d hd
      simp only [startsToken, Bool.not_eq_true', Bool.or_eq_false_iff, beq_eq_false_iff_ne]
      exact ⟨fun h => hopen (h ▸ hd), fun h => hbrace (h ▸ hd)⟩
  have hstarts : startsToken c = false := by
    simp [startsToken, hc.symm, hc'.symm]
  simp only [List.cons_append] at hat hafter ⊢
  simp only [first, hat, plainLength, hafter, hstarts, hrun]
  simp [Nat.add_comm]

end Piece

namespace Document

open Piece

/-- Plain text as a piece, if there is any. -/
def plain (t : Text) : List Piece := if t = [] then [] else [⟨none, t⟩]

def openingPiece (name : Text) : Piece := ⟨some (.opening name), openingMarker name⟩

def closingPiece (name : Text) : Piece := ⟨some (.closing name), closingMarker name⟩

def piecesFrom (before : Text) : Document → List Piece
  | nil => plain before
  | text t rest => piecesFrom (before ++ t) rest
  | block name body rest =>
    plain before ++ openingPiece name :: piecesFrom [] body ++
      closingPiece name :: piecesFrom [] rest

theorem ofText_plain_append {s t : Text} (hopen : '<' ∉ s) (hbrace : '\x7b' ∉ s)
    (ht : ∀ c ∈ t.head?, c = '<') : ofText (s ++ t) = plain s ++ ofText t := by
  by_cases hs : s = []
  · simp [hs, plain]
  · have hfirst := first_plain hs hopen hbrace ht
    rw [ofText_append_of_first hs (by rw [hfirst]; exact List.take_left), hfirst, plain,
      if_neg hs, List.singleton_append]

theorem written_openingMarker {name : Text} (hopen : '<' ∉ name) (hclose : '>' ∉ name)
    (htrim : Text.trimStart name = name) :
    Token.Written (.opening name) (openingMarker name) := by
  have hword : Text.fold Token.openingWord = Token.openingWord := by decide
  have h := Token.Written.opening hword hopen hclose
  rwa [htrim] at h

theorem written_closingMarker {name : Text} (hopen : '<' ∉ name) (hclose : '>' ∉ name)
    (htrim : Text.trimStart name = name) :
    Token.Written (.closing name) (closingMarker name) := by
  have hword : Text.fold Token.closingWord = Token.closingWord := by decide
  have h := Token.Written.closing hword hopen hclose
  rwa [htrim] at h

theorem ofText_print_append {d : Document} (hd : d.Writable) {before t : Text}
    (hopen : '<' ∉ before) (hbrace : '\x7b' ∉ before) (ht : ∀ c ∈ t.head?, c = '<') :
    ofText (before ++ (print d ++ t)) = piecesFrom before d ++ ofText t := by
  fun_induction piecesFrom before d generalizing t with
  | case1 before => exact ofText_plain_append hopen hbrace ht
  | case2 before s rest ih =>
    obtain ⟨hs, hs', hrest⟩ := hd
    have h := ih hrest (by simp [hopen, hs]) (by simp [hbrace, hs']) ht
    rw [print, ← h]
    simp
  | case3 before name body rest ihbody ihrest =>
    obtain ⟨hname, hname', htrim, hbody, hrest⟩ := hd
    have hopening := written_openingMarker hname hname' htrim
    have hclosing := written_closingMarker hname hname' htrim
    have hhead : ∀ s, ∀ c ∈ (openingMarker name ++ s).head?, c = '<' := by
      intro s c hc
      simpa [openingMarker, Token.openingWord_eq] using hc.symm
    have hhead' : ∀ s, ∀ c ∈ (closingMarker name ++ s).head?, c = '<' := by
      intro s c hc
      simpa [closingMarker, Token.closingWord_eq] using hc.symm
    have hafter := ihrest hrest (t := t) (by simp) (by simp) ht
    have hinside := ihbody hbody (t := closingMarker name ++ (print rest ++ t)) (by simp) (by simp)
      (hhead' _)
    rw [List.nil_append] at hafter hinside
    simp only [print, List.append_assoc]
    rw [ofText_plain_append hopen hbrace (hhead _), ofText_written_append hopening, hinside,
      ofText_written_append hclosing, hafter]
    simp [openingPiece, closingPiece]

/-- A printed document is cut into the pieces it was printed from. -/
theorem ofText_print {d : Document} (hd : d.Writable) : ofText (print d) = piecesFrom [] d := by
  have h : ofText ([] ++ (print d ++ [])) = piecesFrom [] d ++ ofText [] :=
    ofText_print_append hd (by simp) (by simp) (by simp)
  simpa using h

theorem textOf_piecesFrom {d : Document} (hd : d.Writable) :
    textOf (piecesFrom [] d) = print d := by
  rw [← ofText_print hd, textOf_ofText]

end Document
end BlockTemplate
