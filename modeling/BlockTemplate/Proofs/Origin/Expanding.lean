import BlockTemplate.Proofs.Block.Unread

/-!
Expanding a text is a single splice. A text is parted at its inclusions, whatever files there are;
then the contents of a file, or the inclusion as it is written, stands in the place of each
inclusion, and the text between them is left as it is. The contents have no part in where the
text is parted.
-/
namespace BlockTemplate

open Text

/-- A text parted at its inclusions: the text before the first one, and the path of each with the
text behind it, up to the next one. -/
structure Parted where
  lead : Text
  parts : List (Text × Text)
deriving DecidableEq, Repr

namespace Parted

/-- An inclusion as it is written. -/
def written (path : Text) : Text := Token.inclusionStart ++ path ++ Token.inclusionEnd

/-- The text with something in the place of each inclusion. -/
def fill (shown : Text → Text) (s : Parted) : Text :=
  s.lead ++ s.parts.flatMap fun part => shown part.1 ++ part.2

/-- The paths with the spans of their inclusions, the first of which starts at byte `m`. -/
def locateFrom (m : Nat) : List (Text × Text) → List (Text × Span)
  | [] => []
  | (path, gap) :: parts =>
    (path, ⟨m, m + byteSize (written path)⟩) ::
      locateFrom (m + byteSize (written path) + byteSize gap) parts

def locate (s : Parted) : List (Text × Span) := locateFrom (byteSize s.lead) s.parts

def ofPieces : List Piece → Parted
  | [] => ⟨[], []⟩
  | p :: ps =>
    match p.token.bind Token.path? with
    | some path => ⟨[], (path, (ofPieces ps).lead) :: (ofPieces ps).parts⟩
    | none => ⟨p.text ++ (ofPieces ps).lead, (ofPieces ps).parts⟩

def ofText (t : Text) : Parted := ofPieces (Piece.ofText t)

variable {p : Piece} {ps : List Piece} {path t : Text}

theorem ofPieces_cons_of_some (h : p.token.bind Token.path? = some path) (ps : List Piece) :
    ofPieces (p :: ps) = ⟨[], (path, (ofPieces ps).lead) :: (ofPieces ps).parts⟩ := by
  rw [ofPieces, h]

theorem ofPieces_cons_of_none (h : p.token.bind Token.path? = none) (ps : List Piece) :
    ofPieces (p :: ps) = ⟨p.text ++ (ofPieces ps).lead, (ofPieces ps).parts⟩ := by
  rw [ofPieces, h]

theorem fill_ofPieces (shown : Text → Text) (ps : List Piece) :
    (ofPieces ps).fill shown =
      ps.flatMap fun p => ((p.token.bind Token.path?).map shown).getD p.text := by
  induction ps with
  | nil => rfl
  | cons p ps ih =>
    rw [List.flatMap_cons, ← ih]
    cases hpath : p.token.bind Token.path? with
    | none => simp [fill, ofPieces_cons_of_none hpath]
    | some path => simp [fill, ofPieces_cons_of_some hpath]

theorem text_of_path? (hp : p ∈ Piece.ofText t)
    (hpath : p.token.bind Token.path? = some path) : p.text = written path := by
  obtain ⟨token, htoken, hpath⟩ := Option.bind_eq_some_iff.mp hpath
  obtain rfl : token = .inclusion path := by
    cases token <;> simp_all [Token.path?]
  exact (Piece.written_of_mem_ofText hp htoken).eq_of_inclusion

/-- The gaps and the inclusions as they are written are the text. -/
theorem fill_ofText (t : Text) : (ofText t).fill written = t := by
  rw [ofText, fill_ofPieces]
  conv_rhs => rw [← Piece.textOf_ofText t]
  refine List.flatMap_congr fun p hp => ?_
  cases hpath : p.token.bind Token.path? with
  | none => rfl
  | some path => exact (text_of_path? hp hpath).symm

theorem locateFrom_ofPieces (h : ∀ p ∈ ps, ∀ path, p.token.bind Token.path? = some path →
    p.text = written path) (m : Nat) :
    locateFrom (m + byteSize (ofPieces ps).lead) (ofPieces ps).parts =
      (Piece.locateFrom m ps).filterMap fun x => x.1.path?.map (·, x.2) := by
  induction ps generalizing m with
  | nil => rfl
  | cons p ps ih =>
    have hrest := ih (fun q hq => h q (List.mem_cons_of_mem p hq)) (m + p.size)
    have hskip : p.token.bind Token.path? = none →
        (Piece.locateFrom m (p :: ps)).filterMap (fun x => x.1.path?.map (·, x.2)) =
          (Piece.locateFrom (m + p.size) ps).filterMap fun x => x.1.path?.map (·, x.2) := by
      intro hpath
      cases htoken : p.token with
      | none => simp [Piece.locateFrom, htoken]
      | some token =>
        have hnone : token.path? = none := by rwa [htoken] at hpath
        simp [Piece.locateFrom, htoken, hnone]
    cases hpath : p.token.bind Token.path? with
    | none =>
      rw [hskip hpath, ← hrest, ofPieces_cons_of_none hpath, byteSize_append, Piece.size,
        Nat.add_assoc]
    | some path =>
      obtain ⟨token, htoken, hsome⟩ := Option.bind_eq_some_iff.mp hpath
      have hsize : byteSize (written path) = p.size := by
        rw [Piece.size, h p List.mem_cons_self path hpath]
      rw [ofPieces_cons_of_some hpath, byteSize_nil, Nat.add_zero, locateFrom, hsize, hrest]
      simp [Piece.locateFrom, htoken, hsome]

/-- The inclusions stand where they are found in the text. -/
theorem locate_ofText (t : Text) : (ofText t).locate = Token.inclusions t := by
  have h := locateFrom_ofPieces (fun p hp _ hpath => text_of_path? (t := t) hp hpath) 0
  rwa [Nat.zero_add] at h

end Parted

namespace Origin

variable {files : Files} {origin : Origin} {t : Text}

theorem splice_eq (origin : Origin) (files : Files) (p : Piece) :
    origin.splice files p =
      ((p.token.bind Token.path?).map fun path => (origin.read? files path).getD p.text).getD
        p.text := by
  rw [splice]
  cases p.token with
  | none => rfl
  | some token => cases token <;> rfl

/-- A text is parted at its inclusions, and for all files and wherever the template is, expanding
it puts in the place of each inclusion the contents of its file, or the inclusion itself if the
file cannot be read. So a text none of whose inclusions can be read stays as it is. -/
theorem expand_eq_fill (t : Text) :
    (Parted.ofText t).fill Parted.written = t ∧
    (Parted.ofText t).locate = Token.inclusions t ∧
    ∀ (files : Files) (origin : Origin),
      (origin.expand files t = (Parted.ofText t).fill fun path =>
        match files (origin.locate path) with
        | .ok contents => contents
        | .error _ => Parted.written path) ∧
      (origin.Unread files t → origin.expand files t = t) := by
  refine ⟨Parted.fill_ofText t, Parted.locate_ofText t, fun files origin => ⟨?_, ?_⟩⟩
  · rw [Parted.ofText, Parted.fill_ofPieces, expand]
    refine List.flatMap_congr fun p hp => ?_
    rw [splice_eq]
    cases hpath : p.token.bind Token.path? with
    | none => rfl
    | some path =>
      rw [Parted.text_of_path? hp hpath]
      simp only [Option.map_some, Option.getD_some, read?, Files.text?]
      cases files (origin.locate path) <;> rfl
  · exact Unread.expand_eq

/-- The contents of the first inclusion and the brace before it look like another inclusion, and
the contents of the second are one. The file of the third is no text. -/
theorem expand_eq_fill_markup :
    let t := "a\x7b\x7bFILE \"./x\"\x7d\x7bFILE \"y\"\x7d\x7bFILE \"z\"\x7db".toList
    let origin : Origin := ⟨some ⟨"v".toList⟩⟩
    let files : Files := fun p =>
      if p = ⟨"v/x".toList⟩ then .ok "FILE \"y\"\x7d".toList
      else if p = ⟨"y".toList⟩ then .ok "\x7bFILE \"y\"\x7d".toList
      else .error .notUtf8
    Parted.ofText t = ⟨"a\x7b".toList,
      [("./x".toList, []), ("y".toList, []), ("z".toList, "b".toList)]⟩ ∧
    origin.expand files t =
      "a\x7bFILE \"y\"\x7d\x7bFILE \"y\"\x7d\x7bFILE \"z\"\x7db".toList ∧
    origin.Unread (fun _ => .error .notFound) t ∧
    origin.expand (fun _ => .error .notFound) t = t := by
  intro t origin files
  have hparted : Parted.ofText t = ⟨"a\x7b".toList,
      [("./x".toList, []), ("y".toList, []), ("z".toList, "b".toList)]⟩ := by
    decide +kernel
  have hunread : origin.Unread (fun _ => .error .notFound) t := fun _ _ => rfl
  obtain ⟨-, -, hexpand⟩ := expand_eq_fill t
  refine ⟨hparted, ?_, hunread, (hexpand _ origin).2 hunread⟩
  rw [(hexpand files origin).1, hparted]
  decide +kernel

end Origin
end BlockTemplate
