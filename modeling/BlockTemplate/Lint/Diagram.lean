import BlockTemplate.Lint.Warning
import BlockTemplate.Text.Blank
import BlockTemplate.Text.Width

/-!
A warning drawn below the lines of text that it is about, in the colours of a terminal. The
numbers of its span are taken as positions of characters. On one line the span is underlined and
an arrow leads from its middle to the message; over several lines an arrow runs along the margin.
-/
namespace BlockTemplate.Diagram

open Text

/-- A line of the text with its line end, and the number of characters before it. -/
structure Line where
  start : Nat
  text : Text
deriving DecidableEq, Repr

namespace Line

def stop (l : Line) : Nat := l.start + l.text.length

def holds (l : Line) (position : Nat) : Bool := l.start ≤ position && position < l.stop

/-- What is shown of the line: everything up to the white space at its end. -/
def shown (l : Line) : Text := (l.text.reverse.dropWhile isBlank).reverse

end Line

def endsLine (c : Char) : Bool :=
  c == '\r' || c == '\n' || c == '\x0B' || c == '\x0C' || c == '\u0085' || c == '\u2028' ||
    c == '\u2029'

/-- The lines of a text whose first `m` characters are already taken; `line` is the part of the
present line that was read, in reverse. -/
def linesFrom (m : Nat) (line : Text) : Text → List Line
  | [] => if line.isEmpty then [] else [⟨m, line.reverse⟩]
  | '\r' :: '\n' :: t =>
    let text := ('\n' :: '\r' :: line).reverse
    ⟨m, text⟩ :: linesFrom (m + text.length) [] t
  | c :: t =>
    if endsLine c then
      let text := (c :: line).reverse
      ⟨m, text⟩ :: linesFrom (m + text.length) [] t
    else linesFrom m (c :: line) t

/-- The lines of a text. An empty text is one empty line. -/
def lines (t : Text) : List Line := if t.isEmpty then [⟨0, []⟩] else linesFrom 0 [] t

/-- The index of the line that a position is on. The end of the text is on the last line. -/
def lineIndex? (t : Text) (position : Nat) : Option Nat :=
  if position ≤ t.length then
    some (((lines t).filter fun l => l.start ≤ position).length - 1)
  else none

/-! Colours -/

inductive Colour
  | label
  | frame
  | gap
  | other

def Colour.code : Colour → Text
  | label => "33".toList
  | frame => "38;5;246".toList
  | gap => "38;5;240".toList
  | other => "38;5;249".toList

def paint (colour : Colour) (t : Text) : Text :=
  "\x1b[".toList ++ colour.code ++ 'm' :: t ++ "\x1b[0m".toList

def paintEach (colour : Colour) (t : Text) : Text := t.flatMap fun c => paint colour [c]

def spaces (n : Nat) : Text := List.replicate n ' '

/-! Columns -/

def tabWidth : Nat := 4

/-- The number of columns of a character at an index in its line. -/
def width (index : Nat) (c : Char) : Nat :=
  if c == '\t' then (index / tabWidth + 1) * tabWidth - index
  else if isBlank c then 1
  else columns c

/-- A line of the text, with a colour for each character. -/
def sourceRow (colour : Nat → Colour) (l : Line) : Text :=
  (l.shown.zipIdx).flatMap fun (c, i) =>
    if isBlank c then paintEach (colour (l.start + i)) (spaces (width i c))
    else paint (colour (l.start + i)) [c]

/-- The columns under a line as far as `length` characters. Past its end each takes one. -/
def widths (l : Line) (length : Nat) : List Nat :=
  let shown := l.shown.zipIdx.map fun (c, i) => width i c
  (shown ++ List.replicate (length - shown.length) 1).take length

/-- A row below a line: `cell` draws what stands under an index, given the number of columns. -/
def rowBelow (l : Line) (length : Nat) (cell : Nat → Nat → Text) : Text :=
  (widths l length).zipIdx.flatMap fun (n, i) => cell i n

/-! The parts of a diagram -/

/-- The label of a diagram: a span in characters and a message. The width of the margin is that
of the greatest line number. -/
structure Label where
  start : Nat
  stop : Nat
  message : Text
  margin : Nat

namespace Label

def colour (label : Label) (position : Nat) : Colour :=
  if label.start ≤ position && position < label.stop then .label else .other

def numbered (label : Label) (index : Nat) : Text :=
  let number := Text.ofNat (index + 1)
  ' ' :: paint .frame (spaces (label.margin - number.length) ++ number ++ " │".toList) ++ [' ']

def unnumbered (label : Label) (bar : Char) : Text :=
  ' ' :: paint .gap (spaces (label.margin + 1) ++ [bar]) ++ [' ']

/-- Underline and arrow of a label on one line. -/
def below (label : Label) (l : Line) : List Text :=
  let length := label.stop - l.start + 2
  let middle := (label.start + label.stop) / 2 - l.start
  let underlined (i : Nat) : Bool := label.start ≤ l.start + i && l.start + i < label.stop
  let cells (first : Char) (others : Char) (n : Nat) : Text :=
    paintEach .label (List.replicate (min n 1) first ++ List.replicate (n - 1) others)
  [label.unnumbered '│' ++ rowBelow l length (fun i n =>
      if i = middle then cells '┬' '─' n
      else if underlined i then cells '─' '─' n
      else spaces n),
    label.unnumbered '│' ++ rowBelow l length (fun i n =>
      if i = middle then cells '╰' '─' n
      else if middle < i then cells '─' '─' n
      else spaces n) ++ ' ' :: label.message]

def single (label : Label) (index : Nat) (l : Line) : List Text :=
  if l.start ≤ label.start && label.stop ≤ l.stop then
    (label.numbered index ++ sourceRow label.colour l) :: label.below l
  else [label.unnumbered '│']

/-- A line of a label over several lines. Of the lines between the first and the last only one
is drawn, as a gap; `inGap` says that it has been. -/
def several (label : Label) (inGap : Bool) (index : Nat) (l : Line) : List Text :=
  if l.holds label.start then
    [label.numbered index ++ paintEach .label "╭─▶ ".toList ++ sourceRow label.colour l]
  else if l.holds (label.stop - 1) then
    let length := l.text.length + 2
    [label.numbered index ++ paintEach .label "├─▶ ".toList ++ sourceRow label.colour l,
      label.unnumbered '│' ++ paint .label ['│'] ++ spaces 3 ++
        rowBelow l length (fun _ n => spaces n),
      label.unnumbered '│' ++ paintEach .label "╰───".toList ++
        rowBelow l length (fun _ n => paintEach .label (List.replicate n '─')) ++
        ' ' :: label.message]
  else if inGap then []
  else [label.unnumbered '┆' ++ paint .label ['┆'] ++ spaces 3]

/-- The lines of a label over several lines, the first of these having the given index. -/
def severalFrom (label : Label) (inGap : Bool) (index : Nat) : List Line → List Text
  | [] => []
  | l :: ls =>
    let between := !l.holds label.start && !l.holds (label.stop - 1)
    label.several inGap index l ++ severalFrom label between (index + 1) ls

end Label

/-- Line and column of a position, counted from one. -/
def place (t : Text) (position : Nat) : Option (Nat × Nat) := do
  let index ← lineIndex? t position
  let l ← (lines t)[index]?
  return (index + 1, position - l.start + 1)

/-- The frame with the lines of the text, if the span is within the text. -/
def framed (t file : Text) (span : Span) (message : Text) : List Text :=
  match lineIndex? t span.start, lineIndex? t (max (span.stop - 1) span.start),
      place t span.start with
  | some first, some last, some (line, column) =>
    let label : Label := ⟨span.start, span.stop, message, (Text.ofNat (last + 1)).length⟩
    let drawn := ((lines t).drop first).take (last + 1 - first)
    let location := file ++ ':' :: Text.ofNat line ++ ':' :: Text.ofNat column
    [spaces (label.margin + 2) ++ paintEach .frame "╭─[".toList ++ location ++ paint .frame [']'],
      spaces (label.margin + 2) ++ paint .frame ['│']] ++
      (if first = last then drawn.flatMap (label.single first)
        else label.severalFrom false first drawn) ++
      [paint .frame (List.replicate (label.margin + 2) '─' ++ ['╯'])]
  | _, _, _ => []

/-- The diagram of a warning about a text, under the name of its file. -/
def draw (t file : Text) (w : Warning) : Text :=
  let headline := paint .label "Warning:".toList ++ " [".toList ++ w.finding.category ++
    "] ".toList ++ w.finding.message
  (headline :: framed t file w.span w.finding.message).flatMap (· ++ ['\n'])

end BlockTemplate.Diagram
