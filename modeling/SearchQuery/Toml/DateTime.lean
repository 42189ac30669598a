/-!
Dates, times of day and both together, and the one text in which each is written. In a
text a date and a time are set apart by the letter T, seconds are always written, the
fraction of a second has at most nine digits and no zero at its end, and an offset of no
minutes is positive.
-/
namespace SearchQuery.Toml

structure Date where
  year : Nat
  month : Nat
  day : Nat
deriving DecidableEq, Repr, Inhabited

/-- A time of day. The fraction holds the digits after the point. -/
structure Time where
  hour : Nat
  minute : Nat
  second : Nat := 0
  fraction : List Char := []
deriving DecidableEq, Repr, Inhabited

inductive Offset where
  | universal
  | minutes (negative : Bool) (count : Nat)
deriving DecidableEq, Repr, Inhabited

/-- A date, a time, or both with or without an offset. -/
inductive DateTime where
  | date (date : Date)
  | time (time : Time)
  | both (date : Date) (time : Time) (offset : Option Offset)
deriving DecidableEq, Repr, Inhabited

def isLeapYear (year : Nat) : Bool :=
  year % 4 == 0 && (year % 100 != 0 || year % 400 == 0)

def daysInMonth (year month : Nat) : Nat :=
  if month = 2 then if isLeapYear year then 29 else 28
  else if month ∈ [4, 6, 9, 11] then 30
  else 31

def Date.isValid (date : Date) : Bool :=
  1 ≤ date.month && date.month ≤ 12 &&
    1 ≤ date.day && date.day ≤ daysInMonth date.year date.month

/-- Whether there is such a time. A minute may have a leap second. -/
def Time.isValid (time : Time) : Bool :=
  time.hour ≤ 23 && time.minute ≤ 59 && time.second ≤ 60

def fixedDigits? : Nat → Nat → List Char → Option (Nat × List Char)
  | 0, n, rest => some (n, rest)
  | _ + 1, _, [] => none
  | count + 1, n, c :: rest =>
    if c.isDigit then fixedDigits? count (n * 10 + (c.toNat - '0'.toNat)) rest else none

def after? (c : Char) : List Char → Option (List Char)
  | [] => none
  | d :: rest => if c = d then some rest else none

def date? (text : List Char) : Option (Date × List Char) := do
  let (year, rest) ← fixedDigits? 4 0 text
  let (month, rest) ← fixedDigits? 2 0 (← after? '-' rest)
  let (day, rest) ← fixedDigits? 2 0 (← after? '-' rest)
  let date : Date := ⟨year, month, day⟩
  if date.isValid then return (date, rest) else none

/-- The digits of a fraction that are kept: nine at most, without zeros at the end. -/
def keptFraction (digits : List Char) : List Char :=
  ((digits.take 9).reverse.dropWhile (· == '0')).reverse

def fraction? : List Char → Option (List Char × List Char)
  | '.' :: rest =>
    match rest.span Char.isDigit with
    | ([], _) => none
    | (digits, rest) => some (keptFraction digits, rest)
  | text => some ([], text)

/-- A time at the start of a text. The seconds may be left out. -/
def time? (text : List Char) : Option (Time × List Char) := do
  let (hour, rest) ← fixedDigits? 2 0 text
  let (minute, rest) ← fixedDigits? 2 0 (← after? ':' rest)
  let (time, rest) ← match rest with
    | ':' :: rest => do
      let (second, rest) ← fixedDigits? 2 0 rest
      let (fraction, rest) ← fraction? rest
      pure (Time.mk hour minute second fraction, rest)
    | rest => pure (Time.mk hour minute 0 [], rest)
  if time.isValid then return (time, rest) else none

def offset? (text : List Char) : Option (Option Offset) :=
  match text with
  | [] => some none
  | ['Z'] => some (some .universal)
  | ['z'] => some (some .universal)
  | sign :: rest => do
    let negative ← if sign = '-' then some true else if sign = '+' then some false else none
    let (hours, rest) ← fixedDigits? 2 0 rest
    let (minutes, rest) ← fixedDigits? 2 0 (← after? ':' rest)
    if rest.isEmpty ∧ hours ≤ 23 ∧ minutes ≤ 59 then
      return some (.minutes negative (hours * 60 + minutes))
    else none

def dateTime? (text : List Char) : Option DateTime :=
  match date? text with
  | some (date, []) => some (.date date)
  | some (date, c :: rest) => do
    if c = 'T' ∨ c = 't' ∨ c = ' ' then
      let (time, rest) ← time? rest
      return .both date time (← offset? rest)
    else none
  | none => do
    let (time, rest) ← time? text
    if rest.isEmpty then return .time time else none

def padded (count n : Nat) : List Char :=
  let digits := Nat.toDigits 10 n
  List.replicate (count - digits.length) '0' ++ digits

def Date.text (date : Date) : List Char :=
  padded 4 date.year ++ '-' :: padded 2 date.month ++ '-' :: padded 2 date.day

def Time.text (time : Time) : List Char :=
  padded 2 time.hour ++ ':' :: padded 2 time.minute ++ ':' :: padded 2 time.second ++
    if time.fraction.isEmpty then [] else '.' :: time.fraction

def Offset.text : Offset → List Char
  | .universal => ['Z']
  | .minutes negative count =>
    (if negative && count != 0 then '-' else '+') ::
      padded 2 (count / 60) ++ ':' :: padded 2 (count % 60)

def DateTime.text : DateTime → List Char
  | .date d => d.text
  | .time t => t.text
  | .both d t offset => d.text ++ 'T' :: t.text ++ (offset.map Offset.text).getD []

end SearchQuery.Toml
