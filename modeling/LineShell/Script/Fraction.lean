import LineShell.Script.Scope

/-!
# Numbers with fractions

A number with a fraction is a whole number of 53 bits times a power of two. Reading one from a text
takes the nearest such number; writing one gives its exact value, rounded to as many digits as are
asked for. In both cases a tie goes to the even neighbour.

This is part of the script interpreter, which stands in for the programs of a real machine. No
general result about the shell rests on it.
-/

namespace LineShell
namespace Script

/-- A number that may have a fraction. -/
inductive Fraction where
  /-- A whole number times a power of two. -/
  | finite (negative : Bool) (whole : Nat) (power : Int)
  /-- A number that is too large. -/
  | infinite (negative : Bool)
  /-- No number. -/
  | undefined (negative : Bool)
  deriving DecidableEq, Repr

namespace Fraction

/-- A quotient, rounded to the nearest whole number. -/
def roundDiv (num den : Nat) : Nat :=
  let q := num / den
  let r := num % den
  if 2 * r < den then q
  else if den < 2 * r then q + 1
  else if q % 2 = 0 then q else q + 1

/-- A quotient times a power of a base, as a quotient. -/
def scale (base : Nat) (power : Int) (num den : Nat) : Nat × Nat :=
  if 0 ≤ power then (num * Nat.pow base power.toNat, den)
  else (num, den * Nat.pow base (-power).toNat)

/-- How many bits a number has. -/
def bits : Nat := 53

/-- The least power of two of which numbers are multiples. -/
def leastPower : Int := -1074

/-- The power of two that a number does not reach. -/
def limit : Int := 1024

/-- The nearest number to a quotient, and whether that is out of the range of numbers with all their
bits. A number below that range is only out of it if it is not exact, and if it would still be below
with all its bits. -/
def ofQuotient (negative : Bool) (num den : Nat) : Fraction × Bool :=
  if num = 0 then (.finite negative 0 0, false)
  else
    let near : Int := (Nat.log2 num : Int) - (Nat.log2 den : Int) - (bits - 1 : Nat)
    let least := Nat.pow 2 (bits - 1)
    let (n, d) := scale 2 (-near) num den
    let free := if n / d < least then near - 1 else near
    let (n, d) := scale 2 (-free) num den
    let isBelow := decide (free < leastPower) &&
      !(roundDiv n d == 2 * least && free + 1 == leastPower)
    let power := max leastPower free
    let (n, d) := scale 2 (-power) num den
    let rounded := roundDiv n d
    let (whole, power) := if rounded = 2 * least then (least, power + 1) else (rounded, power)
    if limit ≤ (Nat.log2 whole : Int) + power then (.infinite negative, true)
    else (.finite negative whole power, isBelow && n % d != 0)

/-- A text without another one at its start, whatever the case of its letters. -/
def after? (word : String) (cs : Chars) : Option Chars :=
  (word.toList.isPrefixOf? (cs.map Char.toLower)).map fun rest => cs.drop (cs.length - rest.length)

/-- The digits of a number at the start of a text, without their point; how many come after the
point; and the rest. None if there is no digit. -/
def digitsAt (base : Nat) (cs : Chars) : Option (Chars × Nat × Chars) :=
  let isDigit (c : Char) : Bool := digitValue c < base
  let (whole, rest) := cs.span isDigit
  let (part, rest) := match rest with
    | '.' :: more =>
      let (part, more) := more.span isDigit
      if whole = [] ∧ part = [] then ([], rest) else (part, more)
    | _ => ([], rest)
  if whole = [] ∧ part = [] then none else some (whole ++ part, part.length, rest)

/-- The exponent at the start of a text, after its letter; zero if there is none. -/
def exponentAt (letter : Char) (cs : Chars) : Int × Chars :=
  match cs with
  | c :: rest =>
    let (negative, ds) := match rest with
      | '-' :: ds => (true, ds)
      | '+' :: ds => (false, ds)
      | ds => (false, ds)
    match if c.toLower = letter then Number.digits 10 ds else none with
    | some (n, rest) => (if negative then -(n : Int) else n, rest)
    | none => (0, cs)
  | [] => (0, cs)

/-- The number with some digits times a power of a base. An exponent that is out of all proportion
is cut short. -/
def ofDigits (negative : Bool) (base powerBase : Nat) (digits : Chars) (power : Int) :
    Fraction × Bool :=
  let n := digits.foldl (fun n c => base * n + digitValue c) 0
  let bound : Int := 4 * digits.length + 2000
  let (num, den) := scale powerBase (max (-bound) (min power bound)) n 1
  ofQuotient negative num den

/-- A text without a note in parentheses at its start, such as may follow what is no number. -/
def withoutNote (cs : Chars) : Chars :=
  match cs with
  | '(' :: rest =>
    match rest.dropWhile fun c => c.isAlphanum || c == '_' with
    | ')' :: rest => rest
    | _ => cs
  | _ => cs

/-- The number at the start of a text, after blanks; whether it is out of range; and the rest. None
if there is none. -/
def read (cs : Chars) : Option (Fraction × Bool × Chars) :=
  let (negative, cs) := match cs.dropWhile isSpace with
    | '-' :: rest => (true, rest)
    | '+' :: rest => (false, rest)
    | rest => (false, rest)
  let inBase (base powerBase digitPower : Nat) (letter : Char) (cs : Chars) :
      Option (Fraction × Bool × Chars) :=
    (digitsAt base cs).map fun (digits, places, rest) =>
      let (power, rest) := exponentAt letter rest
      let (x, isOut) := ofDigits negative base powerBase digits (power - digitPower * places)
      (x, isOut, rest)
  match after? "infinity" cs, after? "inf" cs, after? "nan" cs with
  | some rest, _, _ => some (.infinite negative, false, rest)
  | none, some rest, _ => some (.infinite negative, false, rest)
  | none, none, some rest => some (.undefined negative, false, withoutNote rest)
  | none, none, none =>
    match (after? "0x" cs).bind (inBase 16 2 4 'p') with
    | some found => some found
    | none => inBase 10 10 1 'e' cs

/-- The sign of a number. -/
def isNegative : Fraction → Bool
  | finite negative _ _ => negative
  | infinite negative => negative
  | undefined negative => negative

/-- A number of digits with a point before the last ones. The point is left out if nothing comes
after it, unless it is asked for. -/
def withPoint (places : Nat) (point : Bool) (n : Nat) : Chars :=
  let ds := Nat.toDigits 10 n
  let ds := List.replicate (places + 1 - ds.length) '0' ++ ds
  let (whole, part) := ds.splitAt (ds.length - places)
  if part = [] ∧ !point then whole else whole ++ '.' :: part

/-- A number with some places after the point. -/
def fixed (places : Nat) (point : Bool) (num den : Nat) : Chars :=
  let (n, d) := scale 10 places num den
  withPoint places point (roundDiv n d)

/-- The power of ten of the first digit of a number below one; the first argument bounds it. -/
def smallPower : Nat → Nat → Nat → Int
  | 0, _, _ => 0
  | k + 1, num, den => if den ≤ num then 0 else smallPower k (10 * num) den - 1

/-- The digits of a number, some more than one, and the power of ten of the first one. -/
def leading (more : Nat) (num den : Nat) : Nat × Int :=
  if num = 0 then (0, 0)
  else
    let power : Int :=
      if den ≤ num then (Nat.toDigits 10 (num / den)).length - 1 else smallPower 400 num den
    let (n, d) := scale 10 (more - power) num den
    let digits := roundDiv n d
    if digits = Nat.pow 10 (more + 1) then (digits / 10, power + 1) else (digits, power)

/-- An exponent with its sign, and at least two digits. -/
def exponentText (letter : Char) (least : Nat) (power : Int) : Chars :=
  let ds := Nat.toDigits 10 power.natAbs
  letter :: (if power < 0 then '-' else '+') :: List.replicate (least - ds.length) '0' ++ ds

/-- A number with one digit before the point and an exponent. -/
def scientific (places : Nat) (point : Bool) (num den : Nat) : Chars :=
  let (digits, power) := leading places num den
  withPoint places point digits ++ exponentText 'e' 2 power

/-- A text without zeros after its point, and without the point if nothing is left. -/
def withoutZeros (cs : Chars) : Chars :=
  if cs.contains '.' then
    let kept := cs.reverse.dropWhile (· = '0')
    (if kept.head? = some '.' then kept.tail else kept).reverse
  else cs

/-- A number with so many digits, with an exponent if it is very small or large. -/
def general (digits : Nat) (point : Bool) (num den : Nat) : Chars :=
  let more := max digits 1 - 1
  let (found, power) := leading more num den
  let shorten (cs : Chars) : Chars := if point then cs else withoutZeros cs
  if -4 ≤ power ∧ power ≤ more then
    shorten (fixed (more - power).toNat point num den)
  else shorten (withPoint more point found) ++ exponentText 'e' 2 power

/-- A number with digits in base sixteen and a power of two. -/
def hexadecimal (places : Option Nat) (point : Bool) (whole : Nat) (power : Int) : Chars :=
  let unit := Nat.pow 2 (bits - 1)
  let (n, p) : Nat × Int :=
    if whole = 0 then (0, 0)
    else
      let shift := min (bits - 1 - Nat.log2 whole) (power - leastPower).toNat
      (whole * Nat.pow 2 shift, power - shift + (bits - 1 : Nat))
  let all := (bits - 1) / 4
  let kept := places.getD all
  let n := if kept < all then
    roundDiv n (Nat.pow 16 (all - kept)) * Nat.pow 16 (all - kept) else n
  let part := Nat.toDigits 16 (n % unit)
  let part := List.replicate (all - part.length) '0' ++ part
  let part := match places with
    | none => (part.reverse.dropWhile (· = '0')).reverse
    | some k => part.take k ++ List.replicate (k - all) '0'
  "0x".toList ++ Nat.toDigits 10 (n / unit) ++ (if part = [] ∧ !point then [] else '.' :: part) ++
    exponentText 'p' 1 p

/-- The text of a number without its sign, by the letter of its form. -/
def text (letter : Char) (places : Option Nat) (point : Bool) (x : Fraction) : Chars :=
  let lower := match x with
    | infinite _ => "inf".toList
    | undefined _ => "nan".toList
    | finite _ whole power =>
      let (num, den) := scale 2 power whole 1
      match letter.toLower with
      | 'f' => fixed (places.getD 6) point num den
      | 'e' => scientific (places.getD 6) point num den
      | 'g' => general (places.getD 6) point num den
      | _ => hexadecimal places point whole power
  if letter.isUpper then lower.map Char.toUpper else lower

end Fraction
end Script
end LineShell
