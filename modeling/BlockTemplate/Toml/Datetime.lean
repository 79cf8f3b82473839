import BlockTemplate.Text.Basic

/-!
Dates and times of day, each alone or together, with an offset from universal time.
-/
namespace BlockTemplate.Toml

structure Date where
  year : Nat
  month : Nat
  day : Nat
deriving DecidableEq, Repr

structure Time where
  hour : Nat
  minute : Nat
  second : Nat
  nanosecond : Nat
deriving DecidableEq, Repr

/-- Universal time itself, or so many minutes from it. -/
inductive Offset
  | utc
  | minutes (n : Int)
deriving DecidableEq, Repr

structure Datetime where
  date : Option Date
  time : Option Time
  offset : Option Offset
deriving DecidableEq, Repr

def isLeapYear (year : Nat) : Bool := year % 4 == 0 && (year % 100 != 0 || year % 400 == 0)

def daysIn (year month : Nat) : Nat :=
  if month = 2 then if isLeapYear year then 29 else 28
  else if month ∈ [4, 6, 9, 11] then 30
  else 31

/-- At least `width` digits. -/
def padded (width n : Nat) : Text :=
  let digits := Text.ofNat n
  List.replicate (width - digits.length) '0' ++ digits

def Date.text (d : Date) : Text :=
  padded 4 d.year ++ '-' :: padded 2 d.month ++ '-' :: padded 2 d.day

/-- The fraction of a second is written without zeros at its end. -/
def Time.text (t : Time) : Text :=
  let fraction := ((padded 9 t.nanosecond).reverse.dropWhile (· == '0')).reverse
  padded 2 t.hour ++ ':' :: padded 2 t.minute ++ ':' :: padded 2 t.second ++
    (if fraction.isEmpty then [] else '.' :: fraction)

def Offset.text : Offset → Text
  | utc => ['Z']
  | minutes n =>
    (if n < 0 then '-' else '+') :: padded 2 (n.natAbs / 60) ++ ':' :: padded 2 (n.natAbs % 60)

def Datetime.text (d : Datetime) : Text :=
  let date := (d.date.map Date.text).getD []
  let time := (d.time.map Time.text).getD []
  let between := if d.date.isSome && d.time.isSome then ['T'] else []
  date ++ between ++ time ++ (d.offset.map Offset.text).getD []

end BlockTemplate.Toml
