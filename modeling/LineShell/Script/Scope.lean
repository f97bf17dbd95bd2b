import LineShell.Script.Tree

/-!
# What a script knows

While it runs, a script has a name, arguments, variables, functions and options, and it knows the
status of the last command. A variable may be passed on to programs, and it may be protected from
changes; trying to change it then is an error.

This is part of the script interpreter, which stands in for the programs of a real machine. No
general result about the shell rests on it.
-/

namespace LineShell
namespace Script

/-- A blank in a number. -/
def isSpace (c : Char) : Bool :=
  c == ' ' || (9 ≤ c.toNat && c.toNat ≤ 13)

/-- The digit that a character stands for, letters counting on from ten. -/
def digitValue (c : Char) : Nat :=
  if c.isDigit then c.toNat - '0'.toNat
  else if c.isLower then c.toNat - 'a'.toNat + 10
  else if c.isUpper then c.toNat - 'A'.toNat + 10
  else 99

namespace Number

/-- The base of a number that may be written in base eight or sixteen, and its digits. -/
def baseOf (cs : Chars) : Nat × Chars :=
  match cs with
  | '0' :: x :: d :: rest =>
    if x.toLower = 'x' ∧ digitValue d < 16 then (16, d :: rest) else (8, cs)
  | '0' :: _ => (8, cs)
  | _ => (10, cs)

/-- The value of the digits at the start of a text, and the rest; none if there is no digit. -/
def digits (base : Nat) (cs : Chars) : Option (Nat × Chars) :=
  let isDigit (c : Char) : Bool := digitValue c < base
  match cs.takeWhile isDigit with
  | [] => none
  | ds => some (ds.foldl (fun n c => base * n + digitValue c) 0, cs.dropWhile isDigit)

/-- The number at the start of a text, after blanks and a sign, and the rest. None if there is
none. -/
def scan (anyBase : Bool) (cs : Chars) : Option (Int × Chars) :=
  let (negative, cs) := match cs.dropWhile isSpace with
    | '-' :: rest => (true, rest)
    | '+' :: rest => (false, rest)
    | rest => (false, rest)
  let (base, cs) := if anyBase then baseOf cs else (10, cs)
  (digits base cs).map fun (n, rest) => (if negative then -(n : Int) else n, rest)

/-- The least number of 64 bits. -/
def least : Int := -9223372036854775808

/-- The greatest number of 64 bits. -/
def greatest : Int := 9223372036854775807

/-- The number that a whole text spells. Blanks around it do not count; where any base is allowed,
a text without digits is zero. -/
def whole? (anyBase : Bool) (cs : Chars) : Option Int :=
  match scan anyBase cs with
  | none => if anyBase ∧ cs.all isSpace then some 0 else none
  | some (n, rest) =>
    if rest.all isSpace ∧ least ≤ n ∧ n ≤ greatest then some n else none

/-- The message for a text that is no number. -/
def illegal (cs : Chars) : String :=
  "Illegal number: " ++ cs.text

/-- The number that an argument spells. -/
def signed (cs : Chars) : Except String Int :=
  match whole? false cs with
  | none => .error (illegal cs)
  | some n => .ok n

/-- The count that an argument spells. -/
def count (cs : Chars) : Except String Nat :=
  match whole? false cs with
  | none => .error (illegal cs)
  | some n => if 0 ≤ n ∧ n ≤ 2147483647 then .ok n.toNat else .error (illegal cs)

end Number

/-- A variable. -/
structure Variable where
  /-- Its value, if it has one. -/
  value : Option Chars := none
  /-- Whether programs that the script starts are given it. -/
  exported : Bool := false
  /-- Whether it cannot be changed. -/
  readOnly : Bool := false

/-- A function of a script. -/
structure Function where
  /-- The line on which its definition starts. -/
  line : Nat
  /-- What it does. -/
  body : Statement

/-- Where a program was found. -/
structure Found where
  /-- The number of the directory, among those in which programs are looked for. -/
  index : Nat
  /-- Whether the script has gone to another directory since. -/
  stale : Bool := false

/-- How far arguments have been searched for options. -/
structure Searched where
  /-- The number of the next argument, from one on. -/
  index : Nat := 1
  /-- How much of the argument before that has been searched, or zero if all of it. -/
  offset : Nat := 0

/-- What a script knows. -/
structure Scope where
  /-- The name of the script. -/
  name : Chars
  /-- Its arguments. -/
  args : List Chars := []
  /-- Its variables. -/
  bindings : List (String × Variable) := []
  /-- Its functions. -/
  functions : List (String × Function) := []
  /-- The letters of the options that are on. -/
  options : List Char := []
  /-- The words that stand for other text. -/
  aliases : List (String × Chars) := []
  /-- The programs that have been found since the variable `PATH` was last set. -/
  programs : List (String × Found) := []
  /-- Its here-documents. -/
  documents : Documents := []
  /-- The number of the process that started the script. -/
  process : Nat := 0
  /-- The number of the process that was last put into the background. -/
  lastBackground : Option Nat := none
  /-- The status of the last command. -/
  status : Nat := 0
  /-- How far the arguments have been searched for options. -/
  searched : Searched := {}
  /-- Whether what stands before a trace is being expanded, where commands are not traced. -/
  inTrace : Bool := false

namespace Scope

/-- A list of pairs with the value of one key set. -/
def setIn {α : Type} (name : String) (x : α) : List (String × α) → List (String × α)
  | [] => [(name, x)]
  | (n, y) :: rest => if n = name then (n, x) :: rest else (n, y) :: setIn name x rest

/-- The row in which a name is kept, of so many. -/
def row (rows : Nat) (name : String) : Nat :=
  let codes := name.toList.map Char.toNat
  codes.foldl (· + ·) (codes.headD 0 * 16) % rows

/-- Named things in the order in which they are listed: row by row, and as they came within one. -/
def inRows {α : Type} (rows : Nat) (l : List (String × α)) : List (String × α) :=
  (List.range rows).flatMap fun n => l.filter (row rows ·.1 = n)

/-- What a script knows after changes in turn, up to the first one that fails, and its message. -/
def inTurn {α : Type} (change : α → Scope → Except String Scope) : List α → Scope →
    Scope × Option String
  | [], sc => (sc, none)
  | a :: rest, sc =>
    match change a sc with
    | .error e => (sc, some e)
    | .ok sc => inTurn change rest sc

/-- A variable, which may be unset. -/
def entry (sc : Scope) (name : String) : Variable :=
  (sc.bindings.lookup name).getD {}

/-- The value of a variable, if it has one. -/
def value? (sc : Scope) (name : String) : Option Chars :=
  (sc.entry name).value

/-- Whether an option is on. -/
def isOn (sc : Scope) (option : Char) : Bool :=
  sc.options.contains option

/-- What the script knows after a variable has changed: if programs are now looked for elsewhere,
those that were found do not count any more. -/
def afterChange (sc : Scope) (name : String) : Scope :=
  if name = "PATH" then { sc with programs := [] } else sc

/-- Stores a variable as it is. -/
def put (sc : Scope) (name : String) (v : Variable) : Scope :=
  { sc with bindings := setIn name v sc.bindings }.afterChange name

/-- Forgets a variable. -/
def drop (sc : Scope) (name : String) : Scope :=
  { sc with bindings := sc.bindings.filter (·.1 ≠ name) }.afterChange name

/-- The message for a variable that cannot be changed. -/
def readOnlyMessage (name : String) : String :=
  s!"{name}: is read only"

/-- Gives a variable a value and does nothing else about it. -/
def store (sc : Scope) (name : String) (value : Chars) : Except String Scope :=
  let v := sc.entry name
  if v.readOnly then .error (readOnlyMessage name)
  else .ok (sc.put name { v with value := some value, exported := v.exported || sc.isOn 'a' })

/-- The value of `OPTIND` tells which argument is searched for options next. -/
def searchFrom (sc : Scope) (name : String) (value : Chars) : Except String Scope :=
  if name = "OPTIND" then do
    return { sc with searched := { index := max 1 (← Number.count value) } }
  else .ok sc

/-- Gives a variable a value. -/
def set (sc : Scope) (name : String) (value : Chars) : Except String Scope := do
  (← sc.store name value).searchFrom name value

/-- Takes the value of a variable away. -/
def unset (sc : Scope) (name : String) : Except String Scope :=
  if (sc.entry name).readOnly then .error (readOnlyMessage name)
  else (sc.drop name).searchFrom name []

/-- What programs are told: the variables that are passed on. -/
def environment (sc : Scope) : List (String × Chars) :=
  sc.bindings.filterMap fun (name, v) =>
    if v.exported then v.value.map (name, ·) else none

/-- The characters between fields. -/
def separators (sc : Scope) : Chars :=
  (sc.value? "IFS").getD [' ', '\t', '\n']

/-- What is put between arguments when they are joined. -/
def joint (sc : Scope) : Chars :=
  match sc.value? "IFS" with
  | none => [' ']
  | some cs => cs.take 1

/-- Which letters stand for options, and the options' names. Two options have no letter. -/
def optionNames : List (Char × String) :=
  [('e', "errexit"), ('f', "noglob"), ('I', "ignoreeof"), ('i', "interactive"), ('m', "monitor"),
    ('n', "noexec"), ('s', "stdin"), ('x', "xtrace"), ('v', "verbose"), ('V', "vi"),
    ('E', "emacs"), ('C', "noclobber"), ('a', "allexport"), ('b', "notify"), ('u', "nounset"),
    ('p', "privileged"), ('\x01', "nolog"), ('\x02', "debug")]

/-- Switches an option on or off. -/
def switch (sc : Scope) (c : Char) (on : Bool) : Scope :=
  let others := sc.options.filter (· ≠ c)
  { sc with options := if on then others ++ [c] else others }

/-- The option that is switched off when another one is switched on by its letter. -/
def rival : Char → Option Char
  | 'V' => some 'E'
  | 'E' => some 'V'
  | _ => none

/-- Switches the option of a letter on or off. -/
def setOption (sc : Scope) (c : Char) (on : Bool) : Except String Scope :=
  if (optionNames.lookup c).isNone then .error s!"Illegal option -{c}"
  else
    match if on then rival c else none with
    | some d => .ok ((sc.switch c on).switch d false)
    | none => .ok (sc.switch c on)

/-- Switches the option of a name on or off. -/
def setNamedOption (sc : Scope) (name : String) (on : Bool) : Except String Scope :=
  match optionNames.find? fun (_, n) => n = name with
  | none => .error s!"Illegal option -o {name}"
  | some (c, _) => .ok (sc.switch c on)

/-- The letters of the options that are on, from the last option to the first. -/
def optionLetters (sc : Scope) : Chars :=
  (optionNames.map (·.1)).reverse.filter fun c => c.isAlpha && sc.isOn c

/-- How options are listed: in a table, or as the commands that switch them on or off. -/
def optionTable (asCommands : Bool) (isOn : Char → Bool) : Chars :=
  let row (c : Char) (name : String) : String :=
    if asCommands then "set " ++ (if isOn c then "-o " else "+o ") ++ name ++ "\n"
    else
      let blanks := String.ofList (List.replicate (16 - name.length) ' ')
      name ++ blanks ++ (if isOn c then "on\n" else "off\n")
  (if asCommands then [] else "Current option settings\n".toList) ++
    optionNames.flatMap fun (c, name) => (row c name).toList

end Scope

end Script
end LineShell
