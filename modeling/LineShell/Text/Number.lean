/-!
# Numbers as typed

Commands read their numeric arguments in decimal, with ASCII digits only and no blanks. A status is
a signed number of 32 bits, with an optional sign; a count is an unsigned number of 64 bits, with
an optional plus sign.
-/

namespace LineShell
namespace Text

/-- The value of a list of ASCII digits, unless it is empty or holds another character. -/
def digits? : List Char → Option Nat
  | [] => none
  | cs => if cs.all Char.isDigit then
      some (cs.foldl (fun n c => 10 * n + (c.toNat - '0'.toNat)) 0)
    else none

/-- A number with an optional sign. -/
def signed? : List Char → Option Int
  | '-' :: cs => (digits? cs).map fun n => -(n : Int)
  | '+' :: cs => (digits? cs).map Int.ofNat
  | cs => (digits? cs).map Int.ofNat

/-- A number from -2^31 to 2^31 - 1 with an optional sign. -/
def status? (s : String) : Option Int :=
  (signed? s.toList).filter fun n => -2147483648 ≤ n ∧ n < 2147483648

/-- A number below 2^64 with an optional plus sign. -/
def count? (s : String) : Option Nat :=
  (match s.toList with
    | '+' :: cs => digits? cs
    | cs => digits? cs).filter fun n => n < 18446744073709551616

/-- A text with spaces before it, up to a width. -/
def padLeft (width : Nat) (s : String) : String :=
  String.ofList (List.replicate (width - s.length) ' ') ++ s

/-- A text with spaces after it, up to a width. -/
def padRight (width : Nat) (s : String) : String :=
  s ++ String.ofList (List.replicate (width - s.length) ' ')

end Text
end LineShell
