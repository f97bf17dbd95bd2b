import LineShell.Script.Fraction
import LineShell.Script.Printout

/-!
# Printing by a format

The commands `printf` and `echo` put their arguments together. A format is used again as long as
arguments are left; when they run out, a missing argument is empty or zero. An argument that should
be a number and is none gives a complaint, and printing goes on with what could be read of it.

This is part of the script interpreter, which stands in for the programs of a real machine. No
general result about the shell rests on it.
-/

namespace LineShell
namespace Script
namespace Format

/-- Whether a character is a digit in base eight. -/
def isOctal (c : Char) : Bool :=
  '0' ≤ c && c ≤ '7'

/-- The character that stands for a byte. -/
def byteChar (n : Nat) : Char :=
  Char.ofNat (n % 256)

/-- The character that is written with a backslash before the start of a text, and the rest. -/
def escape (cs : Chars) : Char × Chars :=
  match cs with
  | [] => ('\\', [])
  | c :: rest =>
    if isOctal c then
      let ds := (cs.takeWhile isOctal).take 3
      (byteChar (ds.foldl (fun n d => 8 * n + digitValue d) 0), cs.drop ds.length)
    else
      match [('\\', '\\'), ('a', '\x07'), ('b', '\x08'), ('f', '\x0c'), ('n', '\n'), ('r', '\r'),
        ('t', '\t'), ('v', '\x0b'), ('e', '\x1b')].lookup c with
      | some d => (d, rest)
      | none => ('\\', cs)

/-- A text with its backslashes worked out, and whether it asks for nothing more to be printed. The
number bounds its length. -/
def unescapedWithin : Nat → Chars → Chars × Bool
  | 0, _ => ([], false)
  | _, [] => ([], false)
  | n + 1, '\\' :: cs =>
    match cs with
    | 'c' :: _ => ([], true)
    | _ =>
      let cs := match cs with
        | '0' :: d :: rest => if isOctal d then d :: rest else cs
        | _ => cs
      let (c, rest) := escape cs
      let (more, stops) := unescapedWithin n rest
      (c :: more, stops)
  | n + 1, c :: cs =>
    let (more, stops) := unescapedWithin n cs
    (c :: more, stops)

/-- A text with its backslashes worked out, and whether it asks for nothing more to be printed. -/
def unescaped (cs : Chars) : Chars × Bool :=
  unescapedWithin cs.length cs

/-- What `echo` prints for its arguments. -/
def echo (args : List Chars) : Chars :=
  match args with
  | ['-', 'n'] :: rest => joined false rest
  | _ => joined true args
where
  /-- The arguments with spaces between them. -/
  joined (line : Bool) : List Chars → Chars
    | [] => if line then ['\n'] else []
    | [a] =>
      match unescaped a with
      | (s, true) => s
      | (s, false) => if line then s ++ ['\n'] else s
    | a :: rest =>
      match unescaped a with
      | (s, true) => s
      | (s, false) => s ++ ' ' :: joined line rest

/-- The greatest number of 32 bits. No text can be longer. -/
def longest : Nat := 2147483647

/-- How a value is to be printed. -/
structure Directive where
  /-- The signs that change how it is printed. -/
  flags : List Char
  /-- How long the text is at least. -/
  width : Nat
  /-- How many digits a number has at least, or how long a text is at most. -/
  precision : Option Nat
  /-- What stands before the letter from a star on that has no place there. -/
  stray : Chars := []
  deriving DecidableEq, Repr

namespace Directive

/-- Whether a sign was given. -/
def has (d : Directive) (c : Char) : Bool :=
  d.flags.contains c

/-- How much room is kept for a sign, a point and an exponent. -/
def spare : Nat := 32

/-- Whether the text of a value would be too long; `more` is the room kept besides the digits
that are asked for. -/
def isTooLong (d : Directive) (more : Nat) : Bool :=
  longest ≤ d.width + spare || longest < d.precision.getD 0 + more

/-- The directive itself, which is printed in place of a value if a star has no place in it. The
signs stand in a fixed order. -/
def spelling (d : Directive) (letters : Chars) : Chars :=
  let sign (c : Char) (counts : Bool) : Chars := if counts && d.has c then [c] else []
  '%' :: sign '#' true ++ sign '+' true ++ sign ' ' (!d.has '+') ++ sign '-' true ++
    sign '0' (!d.has '-') ++ (if d.width = 0 then [] else Chars.ofNat d.width) ++
    (match d.precision with
      | none => []
      | some n => '.' :: Chars.ofNat n) ++ d.stray ++ letters

/-- A text with blanks up to the width. -/
def pad (d : Directive) (s : Chars) : Chars :=
  let blanks := List.replicate (d.width - s.length) ' '
  if d.has '-' then s ++ blanks else blanks ++ s

/-- A text. -/
def text (d : Directive) (s : Chars) : Chars :=
  d.pad (match d.precision with
    | none => s
    | some n => s.take n)

/-- A number that is made of a sign and digits. -/
def number (d : Directive) (sign digits : Chars) : Chars :=
  match d.precision with
  | some n => d.pad (sign ++ List.replicate (n - digits.length) '0' ++ digits)
  | none =>
    if d.has '0' && !d.has '-' then
      sign ++ List.replicate (d.width - sign.length - digits.length) '0' ++ digits
    else d.pad (sign ++ digits)

/-- The digits of a number; zero has none if none are asked for. -/
def digits (d : Directive) (base n : Nat) : Chars :=
  if n = 0 ∧ d.precision = some 0 then [] else Nat.toDigits base n

/-- A number with a sign. -/
def signed (d : Directive) (n : Int) : Chars :=
  let sign := if n < 0 then ['-'] else if d.has '+' then ['+'] else if d.has ' ' then [' '] else []
  d.number sign (d.digits 10 n.natAbs)

/-- A number without a sign, by the letter of its base. -/
def unsigned (d : Directive) (letter : Char) (n : Nat) : Chars :=
  match letter with
  | 'o' =>
    let ds := d.digits 8 n
    d.number [] (if d.has '#' && ds.head? != some '0' then '0' :: ds else ds)
  | 'x' => d.number (if d.has '#' && n != 0 then ['0', 'x'] else []) (d.digits 16 n)
  | 'X' =>
    d.number (if d.has '#' && n != 0 then ['0', 'X'] else []) ((d.digits 16 n).map Char.toUpper)
  | _ => d.number [] (d.digits 10 n)

/-- A number with a fraction, by the letter of its form. -/
def fraction (d : Directive) (letter : Char) (x : Fraction) : Chars :=
  let sign :=
    if x.isNegative then ['-'] else if d.has '+' then ['+'] else if d.has ' ' then [' '] else []
  let body := x.text letter d.precision (d.has '#')
  match x with
  | .finite _ _ _ =>
    let (before, digits) :=
      if letter.toLower = 'a' then (sign ++ body.take 2, body.drop 2) else (sign, body)
    { d with precision := none }.number before digits
  | _ => d.pad (sign ++ body)

end Directive

/-- How far printing has come. -/
structure Printing where
  /-- The arguments that are left. -/
  args : List Chars
  /-- What is printed and complained about. -/
  out : Printout := {}
  /-- Whether there was a complaint. -/
  hasFailed : Bool := false
  /-- Whether nothing more is to be printed. -/
  stopped : Bool := false

namespace Printing

/-- Prints a text. -/
def put (p : Printing) (s : Chars) : Printing :=
  { p with out := p.out.put s }

/-- The next argument. -/
def next (p : Printing) : Option Chars × Printing :=
  (p.args.head?, { p with args := p.args.tail })

/-- A complaint about an argument. -/
def complain (p : Printing) (arg : Chars) (message : String) : Printing :=
  { p with out := p.out.complain (arg.text ++ ": " ++ message), hasFailed := true }

/-- The number that an argument spells; `fit` gives the one for which there is room. -/
def numberOf (p : Printing) (arg : Chars) (fit : Int → Int) : Int × Printing :=
  match arg with
  | '\'' :: c => (((c.headD '\x00').toNat : Int), p)
  | '"' :: c => (((c.headD '\x00').toNat : Int), p)
  | _ =>
    match Number.scan true arg with
    | none => (0, if arg = [] then p else p.complain arg "expected numeric value")
    | some (n, rest) =>
      let fitted := fit n
      if rest ≠ [] then (fitted, p.complain arg "not completely converted")
      else if n ≠ fitted then (fitted, p.complain arg "Numerical result out of range")
      else (n, p)

/-- The next argument as a number with a sign. -/
def signed (p : Printing) : Int × Printing :=
  match p.next with
  | (none, p) => (0, p)
  | (some arg, p) => p.numberOf arg fun n => max Number.least (min n Number.greatest)

/-- The next argument as a number without a sign; a negative one counts down from the end. -/
def unsigned (p : Printing) : Nat × Printing :=
  match p.next with
  | (none, p) => (0, p)
  | (some arg, p) =>
    let greatest := 18446744073709551615
    let (n, p) := p.numberOf arg fun n => if n.natAbs ≤ greatest then n else greatest
    ((n % (greatest + 1)).toNat, p)

/-- The next argument as a number with a fraction. -/
def fraction (p : Printing) : Fraction × Printing :=
  let ofNat (n : Nat) : Fraction := .finite false n 0
  match p.next with
  | (none, p) => (ofNat 0, p)
  | (some ('\'' :: c), p) => (ofNat (c.headD '\x00').toNat, p)
  | (some ('"' :: c), p) => (ofNat (c.headD '\x00').toNat, p)
  | (some arg, p) =>
    match Fraction.read arg with
    | none => (ofNat 0, if arg = [] then p else p.complain arg "expected numeric value")
    | some (x, isOut, rest) =>
      if rest ≠ [] then (x, p.complain arg "not completely converted")
      else if isOut then (x, p.complain arg "Numerical result out of range")
      else (x, p)

end Printing

/-- A number in a format. -/
structure Amount where
  /-- The number, if there is one. -/
  value : Option Int := none
  /-- What follows its digits from a star on. -/
  stray : Chars := []
  /-- The rest of the format. -/
  rest : Chars

/-- A number in a format, which may be the next argument instead, as far as 32 bits hold it. Digits
may have stars among them, which have no place there. -/
def amount (cs : Chars) (p : Printing) : Amount × Printing :=
  match cs with
  | '*' :: rest =>
    let (n, p) := p.signed
    ({ value := some (Int32.ofInt n).toInt, rest }, p)
  | _ =>
    let isPart (c : Char) : Bool := c.isDigit || c == '*'
    match Number.digits 10 cs with
    | none => ({ rest := cs }, p)
    | some (n, after) =>
      ({ value := some n, stray := after.takeWhile isPart, rest := after.dropWhile isPart }, p)

/-- How a value is to be printed, from the text after the percent sign; the rest starts with the
letter that says what the value is. What follows a star that has no place there is not looked at. -/
def directive (cs : Chars) (p : Printing) : Directive × Chars × Printing :=
  let isFlag (c : Char) : Bool := "#-+ 0".toList.contains c
  let flags := cs.takeWhile isFlag
  let (w, p) := amount (cs.dropWhile isFlag) p
  let width := w.value.getD 0
  let flags := if width < 0 then '-' :: flags else flags
  let d : Directive := { flags, width := width.natAbs, precision := none, stray := w.stray }
  match w.rest with
  | '.' :: cs =>
    let (a, p) := amount cs p
    let precision := match a.value with
      | none => some 0
      | some n => if n < 0 then none else some n.toNat
    if w.stray = [] then ({ d with precision, stray := a.stray }, a.rest, p)
    else
      ({ d with stray := w.stray ++ '.' :: cs.take (cs.length - a.rest.length) }, a.rest, p)
  | rest => (d, rest, p)

/-- What becomes of a directive. -/
inductive Converted where
  /-- A value is printed. -/
  | printed (p : Printing)
  /-- The text of the value would be too long. -/
  | tooLong (p : Printing)
  /-- The letter is not known. -/
  | unknown

/-- Prints a text, unless it would be too long or a star has no place in the directive. The letters
are those that ask for the value. -/
def Directive.print (d : Directive) (letters : Chars) (more : Nat) (text : Unit → Chars)
    (p : Printing) : Converted :=
  if d.isTooLong more then .tooLong p
  else if d.stray ≠ [] then .printed (p.put (d.spelling letters))
  else .printed (p.put (text ()))

/-- Prints the value that a letter asks for. -/
def convert (d : Directive) (letter : Char) (p : Printing) : Converted :=
  match letter with
  | 'b' =>
    let (arg, p) := p.next
    let (s, stopped) := unescaped (arg.getD [])
    d.print ['s'] 0 (fun _ => d.text s) { p with stopped }
  | 'c' =>
    let (arg, p) := p.next
    d.print ['c'] 0 (fun _ => d.pad [(arg.getD []).headD '\x00']) p
  | 's' =>
    let (arg, p) := p.next
    d.print ['s'] 0 (fun _ => d.text (arg.getD [])) p
  | _ =>
    if letter = 'd' ∨ letter = 'i' then
      let (n, p) := p.signed
      d.print ['l', letter] Directive.spare (fun _ => d.signed n) p
    else if "ouxX".toList.contains letter then
      let (n, p) := p.unsigned
      d.print ['l', letter] Directive.spare (fun _ => d.unsigned letter n) p
    else if "aAeEfFgG".toList.contains letter then
      let (x, p) := p.fraction
      let spare := if letter.toLower = 'g' then 0 else Directive.spare
      d.print [letter] spare (fun _ => d.fraction letter x) p
    else .unknown

/-- Prints by a format once, or fails with a message; the number bounds the format's length. -/
def once : Nat → Chars → Printing → Printing × Option String
  | 0, _, p => (p, none)
  | _, [], p => (p, none)
  | n + 1, c :: cs, p =>
    if p.stopped then (p, none)
    else if c = '\\' then
      let (d, rest) := escape cs
      once n rest (p.put [d])
    else if c ≠ '%' then once n cs (p.put [c])
    else if cs.head? = some '%' then once n cs.tail (p.put ['%'])
    else
      let (d, rest, p) := directive cs p
      match rest with
      | [] => (p, some "missing format character")
      | letter :: rest =>
        match convert d letter p with
        | .printed p => once n rest p
        | .tooLong p => (p, some "xvsnprintf failed")
        | .unknown =>
          let spelling := Chars.text (c :: cs.take (cs.length - rest.length))
          (p, some s!"{spelling}: invalid directive")

/-- Prints by a format as long as it uses up arguments. -/
def repeatedly (format : Chars) : Nat → Printing → Printing × Option String
  | 0, p => (p, none)
  | n + 1, p =>
    match once (format.length + 1) format p with
    | (p', some message) => (p', some message)
    | (p', none) =>
      if p'.stopped ∨ p'.args = [] ∨ p'.args.length = p.args.length then (p', none)
      else repeatedly format n p'

/-- Prints arguments by a format; the message is none unless printing failed. -/
def print (format : Chars) (args : List Chars) : Printing × Option String :=
  repeatedly format (args.length + 1) { args }

end Format
end Script
end LineShell
