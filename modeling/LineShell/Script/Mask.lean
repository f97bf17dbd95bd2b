import LineShell.Script.Scope

/-!
# Creation masks

A mask says which permissions new files do not get. It has three digits in base eight, for the
owner, the group and everybody else; each digit has a bit for reading, one for writing and one for
executing. A mask is given as a number or by clauses such as `u=rwx,g-w`, which speak about the
permissions that are left.

This is part of the script interpreter, which stands in for the programs of a real machine. No
general result about the shell rests on it.
-/

namespace LineShell
namespace Script
namespace Mask

/-- All permissions. -/
def all : Nat := 511

/-- The mask that processes have at first. -/
def standard : Nat := 18

/-- One bit in each digit. -/
def everybody : Nat := 73

/-- The permissions that are not among the given ones. -/
def others (n : Nat) : Nat :=
  all ^^^ (n &&& all)

/-- A mask as a number. -/
def digits (mask : Nat) : Chars :=
  let ds := Nat.toDigits 8 mask
  List.replicate (4 - ds.length) '0' ++ ds

/-- The permissions in one digit, by their letters. -/
def letters (n : Nat) : Chars :=
  (if n &&& 4 = 0 then [] else ['r']) ++ (if n &&& 2 = 0 then [] else ['w']) ++
    (if n &&& 1 = 0 then [] else ['x'])

/-- A mask as clauses. -/
def clauses (mask : Nat) : Chars :=
  let left := others mask
  "u=".toList ++ letters (left >>> 6) ++ ",g=".toList ++ letters (left >>> 3) ++ ",o=".toList ++
    letters left

/-- Whom a letter in a clause stands for. -/
def whom : Char → Nat
  | 'u' => 64
  | 'g' => 8
  | 'o' => 1
  | _ => everybody

/-- What a letter in a clause allows, given the permissions before. -/
def what (left : Nat) : Char → Nat
  | 'r' => 4
  | 'w' => 2
  | 'x' => 1
  | 'u' => left >>> 6
  | 'g' => left >>> 3
  | 'o' => left
  | 'X' => if left &&& everybody = 0 then 0 else 1
  | _ => 0

/-- The permissions after clauses; `left` are those before all of them, and `now` those before the
first one that is given. Where a clause does not say whom it is about, it goes on about `who`. None
if a clause is malformed; the number bounds how many there are. -/
def applied (left : Nat) : Nat → Nat → Nat → Chars → Option Nat
  | 0, _, _, _ => none
  | _, _, now, [] => some now
  | n + 1, who, now, cs =>
    let names := cs.takeWhile fun c => "augo".toList.contains c
    let who := names.foldl (fun m c => m ||| whom c) who
    let who := if who = 0 then everybody else who
    match cs.drop names.length with
    | [] => some now
    | sign :: rest =>
      let signs := ['=', '+', '-']
      if !signs.contains sign then none
      else
        let allowed := rest.takeWhile fun c => "rwxugoXs".toList.contains c
        let value := (allowed.foldl (fun m c => m ||| what left c) 0 &&& 7) * who
        let now := match sign with
          | '-' => now &&& others value
          | '+' => now ||| value
          | _ => value ||| (now &&& others (7 * who))
        match rest.drop allowed.length with
        | [] => some now
        | ',' :: more => applied left n 0 now more
        | c :: more => if signs.contains c then applied left n who now (c :: more) else none

/-- The mask that a text asks for, given the one before. -/
def change (mask : Nat) (cs : Chars) : Except String Nat :=
  match cs with
  | c :: _ =>
    if c.isDigit then
      if cs.all fun d => digitValue d < 8 then
        .ok (cs.foldl (fun n d => 8 * n + digitValue d) 0 &&& all)
      else .error (Number.illegal cs)
    else
      match applied (others mask) (cs.length + 1) 0 (others mask) cs with
      | some left => .ok (others left)
      | none => .error ("Illegal mode: " ++ Chars.text cs)
  | [] => .ok mask

end Mask
end Script
end LineShell
