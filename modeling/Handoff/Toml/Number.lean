import Handoff.Binary.Decimal
import Handoff.Toml.Text

namespace Handoff.Toml

/-- Digits in which single underscores may stand between two of them. -/
def digits? (isDigit : Char → Bool) : List Char → Option (List Char)
  | [] => none
  | [c] => if isDigit c then some [c] else none
  | c :: '_' :: d :: rest =>
    if isDigit c then (digits? isDigit (d :: rest)).map (c :: ·) else none
  | c :: rest => if isDigit c then (digits? isDigit rest).map (c :: ·) else none

/-- Decimal digits of an integer: a leading zero stands alone. -/
def decimal? (cs : List Char) : Option (List Char) := do
  let ds ← digits? isDigit cs
  match ds with
  | '0' :: _ :: _ => none
  | _ => some ds

def isOctalDigit (c : Char) : Bool := '0' ≤ c && c ≤ '7'

def isBinaryDigit (c : Char) : Bool := c == '0' || c == '1'

def unboundedInteger? : List Char → Option Int
  | '0' :: 'x' :: ds => (digits? isHexDigit ds).map fun ds => numeral 16 ds
  | '0' :: 'o' :: ds => (digits? isOctalDigit ds).map fun ds => numeral 8 ds
  | '0' :: 'b' :: ds => (digits? isBinaryDigit ds).map fun ds => numeral 2 ds
  | cs =>
    let (negative, ds) := signed cs
    (decimal? ds).map fun ds => if negative then -(numeral 10 ds : Int) else numeral 10 ds

/-- Integers have 64 bits. -/
def integer? (cs : List Char) : Option Int := do
  let n ← unboundedInteger? cs
  if -9223372036854775808 ≤ n ∧ n ≤ 9223372036854775807 then some n else none

def exponent? (cs : List Char) : Option Int := do
  let (negative, ds) := signed cs
  let ds ← digits? isDigit ds
  return if negative then -(numeral 10 ds : Int) else numeral 10 ds

def isExponentMark (c : Char) : Bool := c == 'e' || c == 'E'

/-- A decimal number with a fraction, an exponent or both. One that rounds to positive infinity is
refused. -/
def decimalFloat? (cs : List Char) : Option Binary64 := do
  let (negative, cs) := signed cs
  let mantissa := cs.takeWhile (!isExponentMark ·)
  let exponent ← match cs.dropWhile (!isExponentMark ·) with
    | _ :: ds => exponent? ds
    | [] => if mantissa.contains '.' then some 0 else none
  let whole ← decimal? (mantissa.takeWhile (· != '.'))
  let fraction ← match mantissa.dropWhile (· != '.') with
    | _ :: ds => digits? isDigit ds
    | [] => some []
  let x := Binary.ofDecimal negative (numeral 10 (whole ++ fraction)) (exponent - fraction.length)
  if x = .infinity false then none else some x

def float? (cs : List Char) : Option Binary64 :=
  let (negative, word) := signed cs
  if word = ['i', 'n', 'f'] then some (.infinity negative)
  else if word = ['n', 'a', 'n'] then some .nan
  else decimalFloat? cs

def twoDigits? : List Char → Option (Nat × List Char)
  | a :: b :: rest => if isDigit a && isDigit b then some (numeral 10 [a, b], rest) else none
  | _ => none

def daysInMonth (year month : Nat) : Nat :=
  if month = 2 then
    if year % 4 = 0 ∧ (year % 100 ≠ 0 ∨ year % 400 = 0) then 29 else 28
  else if month = 4 ∨ month = 6 ∨ month = 9 ∨ month = 11 then 30
  else 31

def date? : List Char → Option (List Char)
  | a :: b :: c :: d :: '-' :: rest => do
    if [a, b, c, d].any (!isDigit ·) then none
    let (month, rest) ← twoDigits? rest
    let rest ← match rest with
      | '-' :: rest => some rest
      | _ => none
    let (day, rest) ← twoDigits? rest
    if 1 ≤ month ∧ month ≤ 12 ∧ 1 ≤ day ∧ day ≤ daysInMonth (numeral 10 [a, b, c, d]) month then
      some rest
    else none
  | _ => none

def time? (cs : List Char) : Option (List Char) := do
  let (hour, cs) ← twoDigits? cs
  let (minute, cs) ← colonDigits? cs
  let (second, cs) ← colonDigits? cs
  if 23 < hour ∨ 59 < minute ∨ 60 < second then none
  match cs with
  | '.' :: rest =>
    if (rest.takeWhile isDigit).isEmpty then none else some (rest.dropWhile isDigit)
  | _ => some cs
where
  colonDigits? : List Char → Option (Nat × List Char)
    | ':' :: rest => twoDigits? rest
    | _ => none

def isOffset : List Char → Bool
  | [] => true
  | ['Z'] => true
  | ['z'] => true
  | sign :: a :: b :: ':' :: rest =>
    (sign == '+' || sign == '-') &&
      match twoDigits? [a, b], twoDigits? rest with
      | some (hour, _), some (minute, []) => hour ≤ 23 && minute ≤ 59
      | _, _ => false
  | _ => false

def isTime (cs : List Char) : Bool := time? cs == some []

def isTimeWithOffset (cs : List Char) : Bool :=
  match time? cs with
  | some rest => isOffset rest
  | none => false

def isDate (cs : List Char) : Bool :=
  match date? cs with
  | some [] => true
  | some ('T' :: rest) => isTimeWithOffset rest
  | some ('t' :: rest) => isTimeWithOffset rest
  | some _ => false
  | none => isTime cs

end Handoff.Toml
