import ColumnarRecords.Floating.Numeral

/-!
# Dates and times in settings files

A date, a time of day, or both with a letter or space between them and possibly the distance from
universal time after them. A setting keeps such a value as a text in one form.
-/

namespace ColumnarRecords.Toml.Moment

open Floating (isDigit digitsValue)

/-- Two digits of a number between bounds, and the text after them. -/
def pair? (low high : Nat) : List Char → Option (List Char × List Char)
  | a :: b :: rest =>
    let n := digitsValue 0 [a, b]
    if isDigit a ∧ isDigit b ∧ low ≤ n ∧ n ≤ high then some ([a, b], rest) else none
  | _ => none

/-- The number of days of a month. -/
def daysInMonth (year month : Nat) : Nat :=
  if month = 2 then
    if year % 4 = 0 ∧ (year % 100 ≠ 0 ∨ year % 400 = 0) then 29 else 28
  else if month ∈ [4, 6, 9, 11] then 30
  else 31

/-- The date at the start of a text, and the text after it. -/
def date? (s : List Char) : Option (List Char × List Char) :=
  let year := s.take 4
  match s.drop 4 with
  | '-' :: rest =>
    match pair? 1 12 rest with
    | some (month, '-' :: rest) =>
      match pair? 1 (daysInMonth (digitsValue 0 year) (digitsValue 0 month)) rest with
      | some (day, rest) =>
        if year.all isDigit then some (year ++ '-' :: month ++ '-' :: day, rest) else none
      | none => none
    | _ => none
  | _ => none

/-- The text of a fraction of a second: nine digits at most, without zeros at the end. -/
def fraction (digits : List Char) : List Char :=
  let kept := ((digits.take 9).reverse.dropWhile (· = '0')).reverse
  if kept = [] then ['0'] else kept

/-- The seconds after the minutes of a time, if there are any, and the text after them. -/
def seconds? : List Char → Option (List Char × List Char)
  | ':' :: rest =>
    match pair? 0 60 rest with
    | some (second, '.' :: rest) =>
      let digits := rest.takeWhile isDigit
      if digits = [] then none
      else some (':' :: second ++ '.' :: fraction digits, rest.dropWhile isDigit)
    | some (second, rest) => some (':' :: second, rest)
    | none => none
  | rest => some ([], rest)

/-- The time of day at the start of a text, and the text after it. -/
def time? (s : List Char) : Option (List Char × List Char) :=
  match pair? 0 23 s with
  | some (hour, ':' :: rest) =>
    match pair? 0 59 rest with
    | some (minute, rest) =>
      (seconds? rest).map fun r => (hour ++ ':' :: minute ++ r.1, r.2)
    | none => none
  | _ => none

/-- The distance from universal time that a whole text is. -/
def offset? : List Char → Option (List Char)
  | [] => some []
  | ['Z'] => some ['Z']
  | ['z'] => some ['Z']
  | sign :: rest =>
    if sign = '+' ∨ sign = '-' then
      match pair? 0 23 rest with
      | some (hours, ':' :: rest) =>
        match pair? 0 59 rest with
        | some (minutes, []) =>
          let isZero := hours = ['0', '0'] ∧ minutes = ['0', '0']
          some ((if isZero then '+' else sign) :: hours ++ ':' :: minutes)
        | _ => none
      | _ => none
    else none

/-- The character stands between a date and a time. -/
def isSeparator (c : Char) : Bool := c = 'T' || c = 't' || c = ' '

/-- The one form of a moment that a whole text is. -/
def read? (s : List Char) : Option String :=
  match date? s with
  | some (date, []) => some (String.ofList date)
  | some (date, c :: rest) =>
    if isSeparator c then
      match time? rest with
      | some (time, rest) =>
        (offset? rest).map fun offset => String.ofList (date ++ 'T' :: time ++ offset)
      | none => none
    else none
  | none =>
    match time? s with
    | some (time, []) => some (String.ofList time)
    | _ => none

end ColumnarRecords.Toml.Moment
