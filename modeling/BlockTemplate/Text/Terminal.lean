import BlockTemplate.Text.Basic

/-!
What a terminal shows of a text: its characters without the controls and without the sequences
that command the terminal. A sequence begins with the escape character and is broken off by a line
end, a tab or one of the two cancelling controls. A string that a sequence carries has an end mark
of its own, and of the controls only the cancelling ones break it off.
-/
namespace BlockTemplate.Text.Terminal

/-- The part of a sequence to which the next character belongs. -/
inductive Place
  | outside
  | escape
  | escapeMiddle
  | control
  | device
  | deviceParameters
  | deviceMiddle
  | command
  | string
deriving DecidableEq, Repr

def escapeMark : Char := '\x1B'

def isCancel (c : Char) : Bool := c == '\x18' || c == '\x1A'

/-- The controls that move to another column or line. -/
def isLayout (c : Char) : Bool := c == '\t' || c == '\n' || c == '\x0C' || c == '\r'

def isBetween (low high c : Char) : Bool := low ≤ c && c ≤ high

/-- A character before the last one of a sequence, behind its parameters. -/
def isMiddle (c : Char) : Bool := isBetween ' ' '/' c

/-- The end of a string is one byte, also where that byte is a part of a longer character. -/
def endsString (c : Char) : Bool := (String.utf8EncodeChar c).contains 0x9C

namespace Place

def next (place : Place) (c : Char) : Place :=
  if c == escapeMark then escape
  else if isCancel c then outside
  else match place with
  | outside => outside
  | escape =>
    if c == '[' then control
    else if c == ']' then command
    else if c == 'P' then device
    else if c == 'X' || c == '^' || c == '_' then string
    else if isMiddle c then escapeMiddle
    else if isLayout c || isBetween '0' '~' c then outside
    else escape
  | escapeMiddle => if isLayout c || isBetween '0' '~' c then outside else escapeMiddle
  | control => if isLayout c || isBetween '@' '~' c then outside else control
  | device =>
    if isMiddle c then deviceMiddle
    else if isBetween '@' '~' c then string
    else if isBetween '0' '?' c then deviceParameters
    else device
  | deviceParameters =>
    if isMiddle c then deviceMiddle
    else if isBetween '<' '~' c then string
    else deviceParameters
  | deviceMiddle => if isBetween '0' '~' c then string else deviceMiddle
  | command => if c == '\x07' then outside else command
  | string => if endsString c then outside else string

def shows (place : Place) (c : Char) : Bool :=
  match place with
  | outside => isLayout c || (' ' ≤ c && c != '\x7F')
  | escape | escapeMiddle | control => isLayout c
  | _ => false

end Place

def shownFrom : Place → Text → Text
  | _, [] => []
  | place, c :: t =>
    let rest := shownFrom (place.next c) t
    if place.shows c then c :: rest else rest

def shown (t : Text) : Text := shownFrom .outside t

end BlockTemplate.Text.Terminal
