import LineShell.Machine.Control

/-!
# What simple commands ask for

The first field of a simple command names a function, a command of the script interpreter or a
program, in this order. Some commands of the script interpreter are looked for like programs. After
`command` functions do not count, and a failure does not end the script.

This is part of the script interpreter, which stands in for the programs of a real machine. No
general result about the shell rests on it.
-/

namespace LineShell
namespace Machine

open Script

/-- How the fields of a simple command are taken. -/
structure Mode where
  /-- Whether functions count and failures end the script. -/
  direct : Bool := true
  /-- Whether programs are looked for in the standard directories. -/
  standard : Bool := false

/-- What the fields of a simple command ask for. -/
inductive Target where
  /-- Nothing but assignments. -/
  | nothing
  /-- A function. -/
  | function (f : Function) (args : List Chars)
  /-- A command of the script interpreter; whether its failure ends the script. -/
  | command (name : String) (c : Command) (isSpecial : Bool) (args : List Chars)
  /-- Something that has to be looked for: mostly a program, but it may be a command of the script
  interpreter. -/
  | sought (name : Chars) (args : List Chars) (mode : Mode) (own : Option Command)

namespace Target

/-- The fields after `command` and its options, and whether programs are looked for in the standard
directories; none if the options ask for something else. -/
def afterCommand (standard : Bool) : List Chars → Option (Bool × List Chars)
  | [] => none
  | ['-', '-'] :: rest => if rest = [] then none else some (standard, rest)
  | ('-' :: c :: cs) :: rest => if (c :: cs).all (· = 'p') then afterCommand true rest else none
  | fields => some (standard, fields)

/-- What fields ask for, by the name in front. -/
def ofName (id : Nat) (sc : Scope) (mode : Mode) : List Chars → Target
  | [] => .nothing
  | name :: args =>
    let s := Chars.text name
    match if mode.direct then sc.functions.lookup s else none with
    | some f => .function f args
    | none =>
      match Command.ofName? id s with
      | some c =>
        if Command.patient.contains s && !mode.standard then .sought name args mode (some c)
        else .command s c (mode.direct && specialCommands.contains s) args
      | none => .sought name args mode none

/-- `command` with options that ask for a description. -/
def description (args : List Chars) : Target :=
  match Command.options "pvV" "" args with
  | .error e => .command "command" (Command.failing e) false args
  | .ok (found, rest) =>
    let has (c : Char) : Bool := found.any (·.1 = c)
    if has 'V' || has 'v' then
      let how : Command.Describing := { inWords := has 'V', standard := has 'p' }
      .command "command" (Command.describing how) false rest
    else .command "command" (Command.constant 0) false rest

/-- What the fields of a simple command ask for; the number bounds how often `command` stands in
front. -/
def ofFields (id : Nat) (sc : Scope) : Nat → Mode → List Chars → Target
  | 0, mode, fields => ofName id sc mode fields
  | n + 1, mode, fields =>
    match fields with
    | name :: args =>
      if name = "command".toList ∧ !(mode.direct && (sc.functions.lookup "command").isSome) then
        match afterCommand false args with
        | some (standard, fields) => ofFields id sc n { direct := false, standard } fields
        | none => description args
      else ofName id sc mode fields
    | [] => .nothing

/-- Whether the assignments before it stay. -/
def keepsAssignments : Target → Bool
  | nothing => true
  | command _ _ isSpecial _ => isSpecial
  | _ => false

end Target

end Machine
end LineShell
