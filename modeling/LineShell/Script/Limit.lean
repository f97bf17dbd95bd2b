import LineShell.Script.Scope

/-!
# Limits

A process may use so much of each resource. What is allowed now can be changed up to a hard limit,
which itself can only be lowered. A resource is told by a letter and counted in units.

This is part of the script interpreter, which stands in for the programs of a real machine. No
general result about the shell rests on it.
-/

namespace LineShell
namespace Script

/-- How much of a resource may be used; no number means that there is no limit. -/
structure Limit where
  /-- What is allowed now. -/
  soft : Option Nat := none
  /-- What can be allowed at most. -/
  hard : Option Nat := none
  deriving DecidableEq, Repr

/-- A resource. -/
structure Resource where
  /-- Its name, with the unit in which it is counted. -/
  name : String
  /-- How large the unit is. -/
  unit : Nat := 1
  /-- The limit at first. -/
  start : Limit := {}

namespace Limit

/-- The resources, by their letters. -/
def resources : List (Char × Resource) :=
  [('t', { name := "time(seconds)" }), ('f', { name := "file(blocks)", unit := 512 }),
    ('d', { name := "data(kbytes)", unit := 1024 }),
    ('s', { name := "stack(kbytes)", unit := 1024, start := { soft := some 8388608 } }),
    ('c', { name := "coredump(blocks)", unit := 512, start := { soft := some 0 } }),
    ('m', { name := "memory(kbytes)", unit := 1024 }),
    ('l', { name := "locked memory(kbytes)", unit := 1024,
            start := { soft := some 8388608, hard := some 8388608 } }),
    ('p', { name := "process" }), ('n', { name := "nofiles", start := { soft := some 1048576 } }),
    ('v', { name := "vmemory(kbytes)", unit := 1024 }), ('w', { name := "locks" }),
    ('r', { name := "rtprio", start := { soft := some 0, hard := some 0 } })]

/-- The resource of a letter. -/
def resource (letter : Char) : Resource :=
  (resources.lookup letter).getD { name := "" }

/-- Amounts are counted up to this number, which stands for no limit. -/
def most : Nat := 18446744073709551615

/-- An amount as text. -/
def amount (unit : Nat) : Option Nat → Chars
  | none => "unlimited\n".toList
  | some n => Chars.ofNat (n / unit) ++ ['\n']

/-- The amount that a text asks for. -/
def amount? (unit : Nat) (cs : Chars) : Option (Option Nat) :=
  if cs = "unlimited".toList then some none
  else if cs.all Char.isDigit then
    let n := cs.foldl (fun n c => 10 * n + digitValue c) 0 * unit % (most + 1)
    some (if n = most then none else some n)
  else none

/-- Whether an amount is larger than another one. -/
def exceeds : Option Nat → Option Nat → Bool
  | some a, some b => decide (b < a)
  | none, some _ => true
  | _, none => false

/-- The limit after a change, or why it cannot be changed. -/
def change (before after : Limit) : Except String Limit :=
  if exceeds after.soft after.hard then .error "error setting limit (Invalid argument)"
  else if exceeds after.hard before.hard then
    .error "error setting limit (Operation not permitted)"
  else .ok after

end Limit
end Script
end LineShell
