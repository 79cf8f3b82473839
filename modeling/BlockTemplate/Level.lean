import BlockTemplate.Markup.Piece

/-!
One level of a template: its outermost regions and the pieces that stay text between them.
A region runs from an opening marker to the closing marker that ends it, and names are compared
without the case of ASCII letters. Opening markers without an end and closing markers that end
nothing stay text, and the parts put together are the text again.
-/
namespace BlockTemplate

/-- Which closing marker ends a region: the last one of its name, or the one that balances it. -/
inductive MatchMode
  | greedy
  | nested
deriving DecidableEq, Repr

namespace Piece

def opens (name : Text) (p : Piece) : Bool :=
  match p.token with
  | some (.opening n) => Text.sameFolded n name
  | _ => false

def closes (name : Text) (p : Piece) : Bool :=
  match p.token with
  | some (.closing n) => Text.sameFolded n name
  | _ => false

end Piece

/-- The pieces after an opening marker, parted at the closing marker that ends its region. -/
structure Closing where
  body : List Piece
  marker : Piece
  rest : List Piece
deriving DecidableEq, Repr

namespace Closing

def within (p : Piece) (c : Closing) : Closing := ⟨p :: c.body, c.marker, c.rest⟩

/-- The last closing marker of the name. -/
def last? (name : Text) : List Piece → Option Closing
  | [] => none
  | p :: ps =>
    match last? name ps with
    | some c => some (c.within p)
    | none => if p.closes name then some ⟨[], p, ps⟩ else none

/-- The closing marker that balances, with `inner` regions of the name still open inside. -/
def balanced? (name : Text) : Nat → List Piece → Option Closing
  | _, [] => none
  | inner, p :: ps =>
    if p.opens name then (balanced? name (inner + 1) ps).map (within p)
    else if p.closes name then
      match inner with
      | 0 => some ⟨[], p, ps⟩
      | inner + 1 => (balanced? name inner ps).map (within p)
    else (balanced? name inner ps).map (within p)

def find? (mode : MatchMode) (name : Text) (ps : List Piece) : Option Closing :=
  match mode with
  | .greedy => last? name ps
  | .nested => balanced? name 0 ps

theorem eq_of_last? {name : Text} {ps : List Piece} {c : Closing} (h : last? name ps = some c) :
    ps = c.body ++ c.marker :: c.rest := by
  induction ps generalizing c with
  | nil => simp [last?] at h
  | cons p ps ih =>
    simp only [last?] at h
    split at h
    · next c' hc =>
      obtain rfl := Option.some.inj h
      rw [ih hc]
      rfl
    · split at h
      · obtain rfl := Option.some.inj h
        rfl
      · cases h

theorem eq_of_balanced? {name : Text} {ps : List Piece} {inner : Nat} {c : Closing}
    (h : balanced? name inner ps = some c) : ps = c.body ++ c.marker :: c.rest := by
  induction ps generalizing inner c with
  | nil => simp [balanced?] at h
  | cons p ps ih =>
    have hmap : ∀ {n : Nat}, (balanced? name n ps).map (within p) = some c →
        p :: ps = c.body ++ c.marker :: c.rest := by
      intro n h
      obtain ⟨c', hc, rfl⟩ := Option.map_eq_some_iff.mp h
      rw [ih hc]
      rfl
    simp only [balanced?] at h
    split at h
    · exact hmap h
    · split at h
      · split at h
        · obtain rfl := Option.some.inj h
          rfl
        · exact hmap h
      · exact hmap h

/-- Parting at the closing marker loses no piece. -/
theorem eq_of_find? {mode : MatchMode} {name : Text} {ps : List Piece} {c : Closing}
    (h : find? mode name ps = some c) : ps = c.body ++ c.marker :: c.rest := by
  cases mode with
  | greedy => exact eq_of_last? h
  | nested => exact eq_of_balanced? h

theorem length_rest_lt {mode : MatchMode} {name : Text} {ps : List Piece} {c : Closing}
    (h : find? mode name ps = some c) : c.rest.length < ps.length := by
  have hlen := congrArg List.length (eq_of_find? h)
  simp only [List.length_append, List.length_cons] at hlen
  omega

end Closing

/-- A named stretch of a template with its two markers. -/
structure Region where
  name : Text
  opening : Piece
  body : List Piece
  closing : Piece
deriving DecidableEq, Repr

namespace Region

/-- The text between the markers. -/
def bodyText (r : Region) : Text := Piece.textOf r.body

def text (r : Region) : Text := r.opening.text ++ r.bodyText ++ r.closing.text

/-- The span of the body of a region that starts at byte `m`. -/
def bodySpan (r : Region) (m : Nat) : Span :=
  ⟨m + r.opening.size, m + r.opening.size + r.bodyText.byteSize⟩

end Region

/-- A piece that stays text at its level, or a region. -/
inductive Part
  | kept (piece : Piece)
  | region (r : Region)
deriving DecidableEq, Repr

def Part.text : Part → Text
  | .kept p => p.text
  | .region r => r.text

abbrev Level := List Part

namespace Level

def ofPieces (mode : MatchMode) : List Piece → Level
  | [] => []
  | p :: ps =>
    match p.token with
    | some (.opening name) =>
      match h : Closing.find? mode name ps with
      | some c =>
        have := Closing.length_rest_lt h
        .region ⟨name, p, c.body, c.marker⟩ :: ofPieces mode c.rest
      | none => .kept p :: ofPieces mode ps
    | _ => .kept p :: ofPieces mode ps
termination_by ps => ps.length

def ofText (mode : MatchMode) (t : Text) : Level := ofPieces mode (Piece.ofText t)

/-- The parts with their spans, where the first part starts at byte `m`. -/
def locateFrom (m : Nat) : Level → List (Part × Span)
  | [] => []
  | part :: rest =>
    (part, ⟨m, m + part.text.byteSize⟩) :: locateFrom (m + part.text.byteSize) rest

def locate (level : Level) : List (Part × Span) := locateFrom 0 level

def regions (level : Level) : List (Region × Span) :=
  level.locate.filterMap fun
    | (.region r, span) => some (r, span)
    | (.kept _, _) => none

/-- The opening markers that no closing marker ends. -/
def unterminated (level : Level) : List (Text × Span) :=
  level.locate.filterMap fun
    | (.kept ⟨some (.opening name), _⟩, span) => some (name, span)
    | _ => none

/-- The closing markers that end no region. -/
def strayEnds (level : Level) : List (Text × Span) :=
  level.locate.filterMap fun
    | (.kept ⟨some (.closing name), _⟩, span) => some (name, span)
    | _ => none

theorem text_ofPieces (mode : MatchMode) (ps : List Piece) :
    (ofPieces mode ps).flatMap Part.text = Piece.textOf ps := by
  fun_induction ofPieces mode ps with
  | case1 => rfl
  | case2 p ps name _ c hc _ ih =>
    simp [ih, Closing.eq_of_find? hc, Part.text, Region.text, Region.bodyText, Piece.textOf]
  | case3 p ps name _ _ ih => simp [ih, Part.text, Piece.textOf]
  | case4 p ps _ ih => simp [ih, Part.text, Piece.textOf]

/-- The parts of a level put together are the text. -/
theorem text_ofText (mode : MatchMode) (t : Text) : (ofText mode t).flatMap Part.text = t := by
  rw [ofText, text_ofPieces, Piece.textOf_ofText]

end Level
end BlockTemplate
