import Mathlib.Algebra.Order.Ring.Int
import Mathlib.Data.Nat.Basic

/-!
# RFC 3339 timestamps

The instant an RFC 3339 text denotes, in nanoseconds from the start of year
`0000` in UTC: a four-digit date, `T`, a time of day with an optional
fraction of a second (digits past the ninth are dropped), and `Z` or a
numeric offset.  Two texts of one instant in different zones give the same
number, so instants are compared as integers.
-/

namespace Flow.Verified.Rfc3339

def digit (c : Char) : Option Nat :=
  if '0' ≤ c ∧ c ≤ '9' then some (c.toNat - '0'.toNat) else none

def digits : Nat → Nat → List Char → Option (Nat × List Char)
  | 0, value, rest => some (value, rest)
  | _ + 1, _, [] => none
  | n + 1, value, c :: rest =>
    match digit c with
    | some d => digits n (value * 10 + d) rest
    | none => none

def char (expected : Char) : List Char → Option (List Char)
  | c :: rest => if c = expected then some rest else none
  | [] => none

def isLeap (year : Nat) : Bool :=
  year % 4 = 0 && (year % 100 ≠ 0 || year % 400 = 0)

def daysIn (year month : Nat) : Nat :=
  match month with
  | 2 => if isLeap year then 29 else 28
  | 4 | 6 | 9 | 11 => 30
  | _ => 31

/-- Days from the start of year `0000` to the start of `year`. -/
def daysBeforeYear (year : Nat) : Nat :=
  365 * year + (year + 3) / 4 - (year + 99) / 100 + (year + 399) / 400

def daysBeforeMonth (year month : Nat) : Nat :=
  ((List.range (month - 1)).map fun m => daysIn year (m + 1)).sum

/-- The digits of a fraction: the nanoseconds they add, each digit worth a
tenth of the one before it. -/
def fraction : Nat → List Char → Nat × List Char
  | _, [] => (0, [])
  | worth, c :: rest =>
    match digit c with
    | some d =>
      let (more, rest) := fraction (worth / 10) rest
      (d * worth + more, rest)
    | none => (0, c :: rest)

/-- The optional fraction of a second; a point needs a digit after it. -/
def fractionalSecond : List Char → Option (Nat × List Char)
  | '.' :: c :: rest =>
    match digit c with
    | some _ => some (fraction 100000000 (c :: rest))
    | none => none
  | '.' :: [] => none
  | rest => some (0, rest)

/-- The zone: `Z`, or an offset in minutes east of UTC. -/
def zone : List Char → Option Int
  | ['Z'] => some 0
  | sign :: rest => do
      let (hours, rest) ← digits 2 0 rest
      let rest ← char ':' rest
      let (minutes, rest) ← digits 2 0 rest
      if rest ≠ [] ∨ 23 < hours ∨ 59 < minutes then none
      else if sign = '+' then some (hours * 60 + minutes)
      else if sign = '-' then some (-(hours * 60 + minutes))
      else none
  | [] => none

/-- The instant a text denotes, when it is an RFC 3339 timestamp. -/
def parse (text : String) : Option Int := do
  let (year, rest) ← digits 4 0 text.toList
  let rest ← char '-' rest
  let (month, rest) ← digits 2 0 rest
  let rest ← char '-' rest
  let (day, rest) ← digits 2 0 rest
  let rest ← char 'T' rest
  let (hour, rest) ← digits 2 0 rest
  let rest ← char ':' rest
  let (minute, rest) ← digits 2 0 rest
  let rest ← char ':' rest
  let (second, rest) ← digits 2 0 rest
  let (nanoseconds, rest) ← fractionalSecond rest
  let offset ← zone rest
  if month < 1 ∨ 12 < month ∨ day < 1 ∨ daysIn year month < day ∨ 23 < hour ∨
      59 < minute ∨ 59 < second then none
  else
    let days := daysBeforeYear year + daysBeforeMonth year month + (day - 1)
    let minutes : Int := (days * 24 + hour : Nat) * 60 + minute - offset
    some ((minutes * 60 + second) * 1000000000 + nanoseconds)

/-- The zero time, `0001-01-01T00:00:00Z`. -/
def zeroTime : Int := 366 * 86400 * 1000000000

example : parse "0001-01-01T00:00:00Z" = some zeroTime := by decide

example : parse "2026-03-01T00:30:00.5+01:00" = parse "2026-02-28T23:30:00.500Z" := by
  decide

end Flow.Verified.Rfc3339
