import ChainFold.Text.Integer
import ChainFold.Yaml.Value
/-!
# Dates and times

A scalar of the form of a date, or of a date with a time of day and perhaps an offset,
stands for that moment.
-/

namespace ChainFold.Yaml

structure Day where
  year : Nat
  month : Nat
  day : Nat

/-- A time of day, with microseconds and an offset in minutes if one is given. -/
structure Time where
  hour : Nat
  minute : Nat
  second : Nat
  micros : Nat
  offset : Option Int

/-- A day, perhaps with a time. -/
structure Moment where
  day : Day
  time : Option Time

namespace Moment

/-- Between `least` and `most` digits, as many as there are, with their number and the rest. -/
def number? (least most : Nat) (cs : List Char) : Option (Nat × List Char) :=
  let ds := (cs.take most).takeWhile Char.isDigit
  if ds.length < least then none
  else some (Text.ofDigits 10 (ds.filterMap (Text.digit? 10)), cs.drop ds.length)

/-- The rest behind a certain character. -/
def behind? (c : Char) : List Char → Option (List Char)
  | x :: rest => if x = c then some rest else none
  | [] => none

/-- Microseconds from the digits of a fraction. -/
def microsOf (ds : List Char) : Nat :=
  Text.ofDigits 10 (((ds ++ List.replicate 6 '0').take 6).filterMap (Text.digit? 10))

def isGap (c : Char) : Bool := c == ' ' || c == '\t'

/-- An offset in minutes: none at all, `Z`, or signed hours with or without minutes. -/
def offset? (cs : List Char) : Option (Option Int) :=
  let signed (negative : Bool) (rest : List Char) : Option (Option Int) := do
    let (h, rest) ← number? 1 2 rest
    let m ← match rest with
      | [] => some 0
      | rest => do
        let (m, rest) ← number? 2 2 (← behind? ':' rest)
        if rest.isEmpty then some m else none
    let total : Int := h * 60 + m
    pure (some (if negative then -total else total))
  match cs with
  | [] => some none
  | cs =>
    match cs.dropWhile isGap with
    | ['Z'] => some (some 0)
    | '+' :: rest => signed false rest
    | '-' :: rest => signed true rest
    | _ => none

/-- A time of day, up to the end. -/
def time? (cs : List Char) : Option Time := do
  let rest ← match cs with
    | 'T' :: rest | 't' :: rest => some rest
    | c :: rest => if isGap c then some (rest.dropWhile isGap) else none
    | [] => none
  let (hour, rest) ← number? 1 2 rest
  let (minute, rest) ← number? 2 2 (← behind? ':' rest)
  let (second, rest) ← number? 2 2 (← behind? ':' rest)
  let (fraction, rest) := match rest with
    | '.' :: rest => (rest.takeWhile Char.isDigit, rest.dropWhile Char.isDigit)
    | rest => ([], rest)
  let offset ← offset? rest
  pure ⟨hour, minute, second, microsOf fraction, offset⟩

/-- The moment that a text has the form of; a day by itself needs two digits in each part. -/
def read? (cs : List Char) : Option Moment := do
  let (year, rest) ← number? 4 4 cs
  let rest ← behind? '-' rest
  let (month, rest) ← number? 1 2 rest
  let rest ← behind? '-' rest
  let (day, rest) ← number? 1 2 rest
  if rest.isEmpty then
    if cs.length = 10 then some ⟨⟨year, month, day⟩, none⟩ else none
  else some ⟨⟨year, month, day⟩, some (← time? rest)⟩

def isLeap (year : Nat) : Bool := year % 4 == 0 && (year % 100 != 0 || year % 400 == 0)

def daysIn (year month : Nat) : Nat :=
  if month == 2 then (if isLeap year then 29 else 28)
  else if [4, 6, 9, 11].contains month then 30
  else 31

def Day.isValid (d : Day) : Bool :=
  1 ≤ d.year && 1 ≤ d.month && d.month ≤ 12 && 1 ≤ d.day && d.day ≤ daysIn d.year d.month

def Time.isValid (t : Time) : Bool :=
  t.hour < 24 && t.minute < 60 && t.second < 60 && t.offset.all fun m => m.natAbs < 24 * 60

def isValid (m : Moment) : Bool := Day.isValid m.day && m.time.all Time.isValid

/-- A number with at least so many digits. -/
def padded (width n : Nat) : String :=
  let ds := Text.decimal n
  String.ofList (List.replicate (width - ds.length) '0' ++ ds)

def offsetText (minutes : Int) : String :=
  let sign := if minutes < 0 then "-" else "+"
  s!"{sign}{padded 2 (minutes.natAbs / 60)}:{padded 2 (minutes.natAbs % 60)}"

def timeText (t : Time) : String :=
  let fraction := if t.micros = 0 then "" else s!".{padded 6 t.micros}"
  let offset := (t.offset.map offsetText).getD ""
  s!" {padded 2 t.hour}:{padded 2 t.minute}:{padded 2 t.second}{fraction}{offset}"

def text (m : Moment) : String :=
  s!"{padded 4 m.day.year}-{padded 2 m.day.month}-{padded 2 m.day.day}" ++
    (m.time.map timeText).getD ""

/-- The days and the seconds behind them that make up a number of minutes. -/
def spanText (minutes : Int) : String :=
  let seconds := minutes * 60 % (24 * 60 * 60)
  if minutes < 0 then s!"datetime.timedelta(days=-1, seconds={seconds})"
  else s!"datetime.timedelta(seconds={seconds})"

def zoneText (minutes : Int) : String :=
  if minutes = 0 then "datetime.timezone.utc" else s!"datetime.timezone({spanText minutes})"

/-- The text of a moment inside another value: its parts by number. -/
def innerText (m : Moment) : String :=
  let day := [m.day.year, m.day.month, m.day.day]
  match m.time with
  | none =>
    let parts := Text.join ", " (day.map toString)
    s!"datetime.date({parts})"
  | some t =>
    let tail := if t.micros != 0 then [t.second, t.micros]
      else if t.second != 0 then [t.second] else []
    let zone := (t.offset.map fun minutes => "tzinfo=" ++ zoneText minutes).toList
    let parts := Text.join ", " ((day ++ [t.hour, t.minute] ++ tail).map toString ++ zone)
    s!"datetime.datetime({parts})"

def value (m : Moment) : Except Defect Value :=
  if m.isValid then .ok (.foreign m.text m.innerText) else .error .badValue

end Moment

end ChainFold.Yaml
