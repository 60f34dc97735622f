import Parley.Toml.Table

/-!
# Scalars of a settings file

Numbers, truth values and moments, each written without blanks, except that a blank may stand
between a date and a time. Digits may have single underscores between them.
-/

namespace Parley.Toml

/-- The digits of a number. None if there are none, or an underscore is not between two. -/
def digits? (ok : Char → Bool) : List Char → Option (List Char)
  | [] => none
  | [c] => if ok c then some [c] else none
  | c :: '_' :: rest => if ok c then (digits? ok rest).map (c :: ·) else none
  | c :: rest => if ok c then (digits? ok rest).map (c :: ·) else none

/-- The number that a digit stands for, up to base sixteen. -/
def digitValue (c : Char) : Nat :=
  if c.isDigit then c.toNat - '0'.toNat else c.toLower.toNat - 'a'.toNat + 10

/-- The value of digits in a base. -/
def valueOf (base : Nat) (digits : List Char) : Nat :=
  digits.foldl (fun n c => n * base + digitValue c) 0

def isHexDigit (c : Char) : Bool :=
  c.isDigit || ('a' ≤ c && c ≤ 'f') || ('A' ≤ c && c ≤ 'F')

def isOctalDigit (c : Char) : Bool :=
  '0' ≤ c && c ≤ '7'

def isBinaryDigit (c : Char) : Bool :=
  c == '0' || c == '1'

/-- Decimal digits without a zero in front. -/
def decimal? (s : List Char) : Option Nat :=
  match digits? Char.isDigit s with
  | some ['0'] => some 0
  | some ('0' :: _) => none
  | some ds => some (valueOf 10 ds)
  | none => none

/-- Whether the sign is a minus, and what follows a sign. -/
def sign : List Char → Bool × List Char
  | '-' :: rest => (true, rest)
  | '+' :: rest => (false, rest)
  | s => (false, s)

/-- An integer. -/
def integer? (s : List Char) : Option Int :=
  match s with
  | '0' :: 'x' :: rest => (digits? isHexDigit rest).map fun ds => (valueOf 16 ds : Int)
  | '0' :: 'o' :: rest => (digits? isOctalDigit rest).map fun ds => (valueOf 8 ds : Int)
  | '0' :: 'b' :: rest => (digits? isBinaryDigit rest).map fun ds => (valueOf 2 ds : Int)
  | s =>
    let (negative, s) := sign s
    (decimal? s).map fun n => if negative then -(n : Int) else n

/-- Whether a text is a fraction: a decimal number with a fractional part, an exponent, or both,
    or one of the names for infinity and for no number. -/
def isFraction (s : List Char) : Bool :=
  let s := (sign s).2
  let (mantissa, exponent) := s.span fun c => c != 'e' && c != 'E'
  let (whole, part) := mantissa.span (· != '.')
  s == ['i', 'n', 'f'] || s == ['n', 'a', 'n'] ||
    ((decimal? whole).isSome
      && (part.isEmpty || (digits? Char.isDigit (part.drop 1)).isSome)
      && (exponent.isEmpty || (digits? Char.isDigit (sign (exponent.drop 1)).2).isSome)
      && !(part.isEmpty && exponent.isEmpty))

/-! ### Moments -/

/-- A number of so many digits in front of a text. -/
def fixed? (width : Nat) (s : List Char) : Option (Nat × List Char) :=
  let ds := s.take width
  if ds.length = width && ds.all Char.isDigit then some (valueOf 10 ds, s.drop width) else none

/-- What follows a character that must come first. -/
def after? (c : Char) : List Char → Option (List Char)
  | d :: rest => if c = d then some rest else none
  | [] => none

/-- The number of days in a month. -/
def daysIn (year month : Nat) : Nat :=
  if month = 2 then
    if year % 4 = 0 ∧ (year % 100 ≠ 0 ∨ year % 400 = 0) then 29 else 28
  else if month ∈ [4, 6, 9, 11] then 30 else 31

/-- What follows a date. -/
def date? (s : List Char) : Option (List Char) := do
  let (year, s) ← fixed? 4 s
  let (month, s) ← fixed? 2 (← after? '-' s)
  let (day, s) ← fixed? 2 (← after? '-' s)
  if 1 ≤ month ∧ month ≤ 12 ∧ 1 ≤ day ∧ day ≤ daysIn year month then some s else none

/-- What follows the seconds of a time, if there are any. -/
def seconds? (s : List Char) : Option (List Char) := do
  match s with
  | ':' :: s =>
    let (second, s) ← fixed? 2 s
    if 60 < second then none
    else
      match s with
      | '.' :: s =>
        let (ds, rest) := s.span Char.isDigit
        if ds.isEmpty then none else some rest
      | s => some s
  | s => some s

/-- What follows a time of day. -/
def time? (s : List Char) : Option (List Char) := do
  let (hour, s) ← fixed? 2 s
  let (minute, s) ← fixed? 2 (← after? ':' s)
  if hour ≤ 23 ∧ minute ≤ 59 then seconds? s else none

/-- Whether a text is nothing or the offset of a time zone. -/
def isOffset (s : List Char) : Bool :=
  match s with
  | [] => true
  | [c] => c == 'Z' || c == 'z'
  | c :: s =>
    (c == '+' || c == '-') &&
      match fixed? 2 s with
      | some (hour, ':' :: s) =>
        match fixed? 2 s with
        | some (minute, []) => hour ≤ 23 && minute ≤ 59
        | _ => false
      | _ => false

/-- Whether a text is a date, a time, or both. -/
def isMoment (s : List Char) : Bool :=
  match date? s with
  | some [] => true
  | some (c :: s) =>
    (c == 'T' || c == 't' || c == ' ') &&
      match time? s with
      | some offset => isOffset offset
      | none => false
  | none => time? s == some []

/-- The entry that a text without blanks stands for. -/
def scalar? (s : List Char) : Option Entry :=
  if s = ['t', 'r', 'u', 'e'] then some (.truth true)
  else if s = ['f', 'a', 'l', 's', 'e'] then some (.truth false)
  else
    match integer? s with
    | some i => some (.integer i)
    | none => if isFraction s then some .fraction else if isMoment s then some .moment else none

end Parley.Toml
