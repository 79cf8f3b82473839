import BlockTemplate.Toml.Node
import BlockTemplate.Toml.Reader

/-!
The reading of keys, strings, numbers, dates and times.
-/
namespace BlockTemplate.Toml

open Reader

def isWhite (c : Char) : Bool := c == ' ' || c == '\t'

def isNonAscii (c : Char) : Bool := 0x80 ≤ c.toNat

/-- Tabs and all characters that show or are blank, but no control characters. -/
def isPlain (c : Char) : Bool := c == '\t' || (0x20 ≤ c.toNat && c.toNat ≤ 0x7E) || isNonAscii c

def white : Reader Unit := do let _ ← run isWhite

def newline : Reader Unit := exactly ['\n'] <|> exactly ['\r', '\n']

def comment : Reader Unit := do
  exactly ['#']
  let _ ← run isPlain

/-! Strings -/

def isHex (c : Char) : Bool := c.isDigit || ('a' ≤ c.toLower && c.toLower ≤ 'f')

def digitValue (c : Char) : Nat := if c.isDigit then c.toNat - 48 else c.toLower.toNat - 87

def natOfDigits (base : Nat) (t : Text) : Nat :=
  t.foldl (fun n c => if c == '_' then n else base * n + digitValue c) 0

def codePoint (width : Nat) : Reader Char := do
  let n := natOfDigits 16 (← count width isHex)
  if n.isValidChar then return Char.ofNat n else failure

def escape : Reader Char := do
  exactly ['\\']
  let c ← char fun _ => true
  match c with
  | 'b' => return '\x08'
  | 't' => return '\t'
  | 'n' => return '\n'
  | 'f' => return '\x0C'
  | 'r' => return '\r'
  | '"' => return '"'
  | '\\' => return '\\'
  | 'u' => codePoint 4
  | 'U' => codePoint 8
  | _ => failure

def isBasic (c : Char) : Bool := isPlain c && c != '"' && c != '\\'

def isLiteral (c : Char) : Bool := isPlain c && c != '\''

def basicString : Reader Text := do
  exactly ['"']
  let parts ← many (run1 isBasic <|> (do return [← escape]))
  exactly ['"']
  return parts.flatten

def literalString : Reader Text := do
  exactly ['\'']
  let t ← run isLiteral
  exactly ['\'']
  return t

/-- Quotation marks inside a text of several lines: one or two, with something else after them. -/
def fewQuotes (quote : Char) : Reader Text := do
  let marks ← run1 (· == quote)
  if marks.length < 3 then return marks else failure

/-- The end of a text of several lines. One or two more marks belong to the text. -/
def closingQuotes (quote : Char) : Reader Text := do
  let marks ← run1 (· == quote)
  if 3 ≤ marks.length ∧ marks.length ≤ 5 then return marks.drop 3 else failure

/-- A line end that is not part of the text, with the white space after it. -/
def skippedBreak : Reader Text := do
  exactly ['\\']
  white
  newline
  let _ ← many (newline <|> (do let _ ← run1 isWhite))
  return []

def lineBreak : Reader Text := do
  newline
  return ['\n']

def linesOf (quote : Char) (part : Reader Text) : Reader Text := do
  exactly [quote, quote, quote]
  let _ ← maybe newline
  let parts ← many (part <|> lineBreak <|> fewQuotes quote)
  let last ← closingQuotes quote
  return parts.flatten ++ last

def basicLines : Reader Text :=
  linesOf '"' (run1 isBasic <|> skippedBreak <|> (do return [← escape]))

def literalLines : Reader Text := linesOf '\'' (run1 isLiteral)

def string : Reader Text := basicLines <|> basicString <|> literalLines <|> literalString

/-! Keys -/

def isBareKey (c : Char) : Bool := c.isAlphanum || c == '_' || c == '-'

def simpleKey : Reader Text := basicString <|> literalString <|> run1 isBareKey

/-- The greatest depth of nested arrays and tables, and of dotted keys. -/
def maxNesting : Nat := 80

/-- A dotted key, as the list of its parts. -/
def key : Reader (List Text) := do
  let parts ← separated (do white; let k ← simpleKey; white; return k) (exactly ['.'])
  if parts.length < maxNesting then return parts else failure

/-! Numbers -/

/-- Digits with single underscores between them. -/
def digits (isDigit : Char → Bool) : Reader Text := do
  let first ← char isDigit
  let rest ← many (char isDigit <|> (do exactly ['_']; char isDigit))
  return first :: rest

def sign : Reader Bool :=
  (do exactly ['-']; return true) <|> (do exactly ['+']; return false) <|> pure false

/-- A decimal number without zeros in front. -/
def wholeDigits : Reader Text := do
  let ds ← (do
    let first ← char fun c => '1' ≤ c && c ≤ '9'
    let rest ← many (char Char.isDigit <|> (do exactly ['_']; char Char.isDigit))
    return first :: rest) <|> count 1 Char.isDigit
  return ds

def minInteger : Int := -Int.ofNat (Nat.pow 2 63)

def maxInteger : Int := Int.ofNat (Nat.pow 2 63 - 1)

def inRange (n : Int) : Reader Int :=
  if minInteger ≤ n ∧ n ≤ maxInteger then pure n else failure

def integerIn (start : Text) (base : Nat) (isDigit : Char → Bool) : Reader Int := do
  exactly start
  inRange (natOfDigits base (← digits isDigit))

def decimalInteger : Reader Int := do
  let negative ← sign
  let n := natOfDigits 10 (← wholeDigits)
  inRange (if negative then -n else n)

def integer : Reader Int :=
  integerIn "0x".toList 16 isHex <|>
  integerIn "0o".toList 8 (fun c => '0' ≤ c && c ≤ '7') <|>
  integerIn "0b".toList 2 (fun c => c == '0' || c == '1') <|>
  decimalInteger

def exponent : Reader Int := do
  let _ ← char fun c => c == 'e' || c == 'E'
  let negative ← sign
  let n := natOfDigits 10 (← digits Char.isDigit)
  return if negative then -n else n

def fraction : Reader Text := do
  exactly ['.']
  digits Char.isDigit

/-- A number with a fraction or an exponent. One that is too great is refused, but not one that is
too small. -/
def finiteFloat : Reader BinaryNumber := do
  let negative ← sign
  let whole ← wholeDigits
  let part ← maybe fraction
  let power ← maybe exponent
  if part.isNone && power.isNone then failure
  let part := part.getD []
  let x := BinaryFormat.double.nearest negative (natOfDigits 10 (whole ++ part))
    (power.getD 0 - part.length)
  if x = .infinite false then failure else return x

def specialFloat : Reader BinaryNumber := do
  let negative ← sign
  (do exactly "inf".toList; return .infinite negative) <|> (do exactly "nan".toList; return .nan)

def float : Reader BinaryNumber := finiteFloat <|> specialFloat

/-! Dates and times -/

def numberUpTo (width low high : Nat) : Reader Nat := do
  let n := natOfDigits 10 (← count width Char.isDigit)
  if low ≤ n ∧ n ≤ high then return n else failure

def date : Reader Date := do
  let year ← numberUpTo 4 0 9999
  exactly ['-']
  let month ← numberUpTo 2 1 12
  exactly ['-']
  let day ← numberUpTo 2 1 31
  if day ≤ daysIn year month then return ⟨year, month, day⟩ else failure

/-- The fraction of a second, cut off after nine digits. -/
def nanoseconds : Reader Nat := do
  exactly ['.']
  let ds := (← run1 Char.isDigit).take 9
  return natOfDigits 10 ds * Nat.pow 10 (9 - ds.length)

def time : Reader Time := do
  let hour ← numberUpTo 2 0 23
  exactly [':']
  let minute ← numberUpTo 2 0 59
  exactly [':']
  let second ← numberUpTo 2 0 60
  let nanosecond ← maybe nanoseconds
  return ⟨hour, minute, second, nanosecond.getD 0⟩

def offset : Reader Offset :=
  (do let _ ← char fun c => c == 'Z' || c == 'z'; return .utc) <|> do
    let mark ← char fun c => c == '+' || c == '-'
    let hours ← numberUpTo 2 0 23
    exactly [':']
    let minutes ← numberUpTo 2 0 59
    let n : Int := hours * 60 + minutes
    return .minutes (if mark == '-' then -n else n)

def datetime : Reader Datetime :=
  (do
    let d ← date
    let rest ← maybe do
      let _ ← char fun c => c == 'T' || c == 't' || c == ' '
      let t ← time
      let o ← maybe offset
      return (t, o)
    match rest with
    | some (t, o) => return ⟨some d, some t, o⟩
    | none => return ⟨some d, none, none⟩) <|>
  (do return ⟨none, some (← time), none⟩)

/-- The date or time that a text spells from its start to its end. -/
def Datetime.ofText? (t : Text) : Option Datetime :=
  ((do let d ← datetime; atEnd; return d : Reader Datetime) t).map (·.1)

def boolean : Reader Bool :=
  (do exactly "true".toList; return true) <|> (do exactly "false".toList; return false)

/-- A node that holds no other nodes. -/
def scalar : Reader Node :=
  (Node.string <$> string) <|> (Node.boolean <$> boolean) <|> (Node.datetime <$> datetime) <|>
    (Node.float <$> float) <|> (Node.integer <$> integer)

end BlockTemplate.Toml
