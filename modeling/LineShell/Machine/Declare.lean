import LineShell.Machine.Command

/-!
# Commands that change what a script knows

Variables, arguments, options, functions and words that stand for other text.

This is part of the script interpreter, which stands in for the programs of a real machine. No
general result about the shell rests on it.
-/

namespace LineShell
namespace Machine
namespace Command

open Script

/-- A change of what the script knows, which may fail with a message. -/
def changing (change : Scope → Scope × Option String) : Command :=
  fun args process machine =>
    match change process.scope with
    | (scope, some e) => failing e args { process with scope } machine
    | (scope, none) => { process := { process with scope }, machine }

/-- An argument that names a variable and may give it a value, or a message. -/
def declaration (arg : Chars) : Except String (String × Option Chars) :=
  let name := arg.takeWhile isNameChar
  match isName name, arg.drop name.length with
  | true, [] => .ok (String.ofList name, none)
  | true, '=' :: value => .ok (String.ofList name, some value)
  | _, _ => .error (Chars.text (arg.takeWhile (· ≠ '=')) ++ ": bad variable name")

/-- Declares a variable: it is given its value, if there is one, and then marked. -/
def declare (mark : Variable → Variable) (arg : Chars) (sc : Scope) : Except String Scope := do
  let (name, value) ← declaration arg
  let sc ← match value with
    | none => pure sc
    | some v => sc.set name v
  return sc.put name (mark (sc.entry name))

/-- How variables are listed that can be declared again by what is printed. -/
def listing (word : String) (chosen : Variable → Bool) (sc : Scope) : Chars :=
  let listed := (sc.bindings.filter (chosen ·.2)).mergeSort fun a b =>
    Chars.precedes a.1.toList b.1.toList
  listed.flatMap fun (name, v) =>
    (if word = "" then [] else word.toList ++ [' ']) ++ name.toList ++
      (match v.value with
        | none => []
        | some value => '=' :: quote value) ++ ['\n']

/-- `export` and `readonly`; what follows the option to list variables is not looked at. -/
def marking (word : String) (chosen : Variable → Bool) (mark : Variable → Variable) : Command :=
  fun args p m =>
    match args with
    | ('-' :: 'p' :: _) :: _ => printing (listing word chosen p.scope) args p m
    | _ =>
      (withOptions "" "" fun _ args p m =>
        if args = [] then printing (listing word chosen p.scope) args p m
        else changing (Scope.inTurn (declare mark) args) args p m) args p m

/-- `export` -/
def markExported : Command :=
  marking "export" (·.exported) fun v => { v with exported := true }

/-- `readonly` -/
def markReadOnly : Command :=
  marking "readonly" (·.readOnly) fun v => { v with readOnly := true }

/-- Remembers a variable, so that it is put back at the end of the innermost call. -/
def remember (name : String) (p : Process) : Process :=
  match p.locals with
  | [] => p
  | kept :: outer =>
    if (kept.bindings.lookup name).isSome then p
    else
      let bindings := (name, p.scope.bindings.lookup name) :: kept.bindings
      { p with locals := { kept with bindings } :: outer }

/-- Remembers the options, so that they are put back at the end of the innermost call. -/
def rememberOptions (p : Process) : Process :=
  match p.locals with
  | [] => p
  | kept :: outer =>
    { p with locals := { kept with options := kept.options.or (some p.scope.options) } :: outer }

/-- An argument that names a variable of a function. Where it gives a value, the name can be
anything; that it is none is found out when the variable is put back. -/
def localDeclaration (arg : Chars) : Except String (String × Option Chars) :=
  match arg.span (· ≠ '=') with
  | (name, _ :: value) => .ok (Chars.text name, some value)
  | (_, []) => declaration arg

/-- Remembers variables and gives them values. -/
def localNames : List Chars → Process → Except String Process
  | [], p => .ok p
  | ['-'] :: rest, p => localNames rest (rememberOptions p)
  | arg :: rest, p => do
    let (name, value) ← localDeclaration arg
    let p := remember name p
    let scope ← match value with
      | none => pure p.scope
      | some v => p.scope.set name v
    localNames rest { p with scope }

/-- `local` -/
def markLocal : Command :=
  fun args process machine =>
    if process.locals.isEmpty then failing "not in a function" args process machine
    else
      match localNames args process with
      | .error e => failing e args process machine
      | .ok process => { process, machine }

/-- Takes the value from a variable. -/
def unsetVariable (arg : Chars) (sc : Scope) : Except String Scope := do
  let (name, _) ← declaration arg
  sc.unset name

/-- `unset` -/
def unset : Command :=
  withOptions "vf" "" fun found args p m =>
    let names := args.map Chars.text
    if found.getLast?.map (·.1) = some 'f' then
      let functions := p.scope.functions.filter fun (n, _) => !names.contains n
      changing (fun sc => ({ sc with functions }, none)) args p m
    else changing (Scope.inTurn unsetVariable args) args p m

/-- `shift` -/
def shift : Command :=
  fun args p m =>
    match args.head?.map Number.count with
    | some (.error e) => failing e args p m
    | n =>
      let n := match n with
        | some (.ok n) => n
        | _ => 1
      if p.scope.args.length < n then failing "can't shift that many" args p m
      else
        changing (fun sc => ({ sc with args := sc.args.drop n, searched := {} }, none)) args p m

/-- What switching options comes to. -/
structure Switched where
  /-- What the script knows. -/
  scope : Scope
  /-- The arguments that are left. -/
  left : List Chars
  /-- What is printed. -/
  out : Chars := []
  /-- Why an option cannot be switched, if one cannot. -/
  failure : Option String := none

namespace Switched

/-- Goes on with a change of what the script knows. -/
def changed (s : Switched) (left : List Chars) : Except String Scope → Switched
  | .ok scope => { s with scope, left }
  | .error e => { s with left, failure := some e }

/-- Switches the options in one argument on or off, up to the first one that cannot be. -/
def letters (on : Bool) : Chars → Switched → Switched
  | [], s => s
  | c :: cs, s =>
    match s.failure, c, s.left with
    | some _, _, _ => s
    | none, 'o', name :: left =>
      letters on cs (s.changed left (s.scope.setNamedOption (Chars.text name) on))
    | none, 'o', [] => letters on cs { s with out := s.out ++ Scope.optionTable (!on) s.scope.isOn }
    | none, c, left => letters on cs (s.changed left (s.scope.setOption c on))

/-- Sets the arguments of the script. -/
def setArgs (args : List Chars) (s : Switched) : Switched :=
  { s with scope := { s.scope with args, searched := {} }, left := [] }

/-- Switches options on or off and sets the arguments, as the arguments that are left ask for it. -/
def run : Nat → Switched → Switched
  | 0, s => s
  | n + 1, s =>
    match s.failure, s.left with
    | some _, _ => s
    | none, [] => s
    | none, ['-', '-'] :: left => s.setArgs left
    | none, ['-'] :: left =>
      let options := s.scope.options.filter fun c => c ≠ 'x' ∧ c ≠ 'v'
      let s := { s with scope := { s.scope with options }, left := [] }
      if left = [] then s else s.setArgs left
    | none, ('-' :: cs) :: left => run n (letters true cs { s with left })
    | none, ('+' :: cs) :: left => run n (letters false cs { s with left })
    | none, args => s.setArgs args

end Switched

/-- Jobs cannot be controlled from the keyboard, since there is none; a process that was split off
does not try. -/
def withoutTerminal (p : Process) (m : Machine) : Process × Machine :=
  if p.scope.isOn 'm' && !p.isSplit then
    ({ p with scope := { p.scope with options := p.scope.options.filter (· ≠ 'm') } },
      m.warn { p with command := some "set" } noTerminal)
  else (p, m)

/-- `set` -/
def setArguments : Command :=
  fun args process machine =>
    if args = [] then printing (listing "" (·.value.isSome) process.scope) args process machine
    else
      let s := Switched.run (args.length + 1) { scope := process.scope, left := args }
      let process := { process with scope := s.scope }
      match s.failure with
      | some e => { failing e args process machine with out := [.text s.out] }
      | none =>
        let (process, machine) := withoutTerminal process machine
        { process, machine, out := [.text s.out] }

/-- `alias` -/
def aliasWords : Command :=
  fun args process machine =>
    let entry (name : String) (text : Chars) : Chars := name.toList ++ '=' :: quote text ++ ['\n']
    if args = [] then
      let listed := Scope.inRows 39 process.scope.aliases
      printing (listed.flatMap fun (name, text) => entry name text) args process machine
    else
      let step := fun (sc, out, unknown) (arg : Chars) =>
        let name := Chars.text (arg.take 1 ++ arg.tail.takeWhile (· ≠ '='))
        let rest := arg.tail.dropWhile (· ≠ '=')
        match rest with
        | _ :: text => ({ sc with aliases := Scope.setIn name text sc.aliases }, out, unknown)
        | [] =>
          match sc.aliases.lookup name with
          | some text => (sc, out ++ entry name text, unknown)
          | none => (sc, out, unknown ++ ["alias: " ++ name ++ " not found"])
      let (scope, out, complaints) := args.foldl step (process.scope, ([] : Chars), [])
      { process := { process with scope },
        machine := complaints.foldl (·.complain process <| Bytes.ofMessage ·) machine,
        out := [.text out], verdict := .status (if complaints = [] then 0 else 1) }

/-- `unalias`; what follows the option that means all of them is not looked at. -/
def unaliasWords : Command :=
  fun args process machine =>
    let setAliases (aliases : List (String × Chars)) : Process :=
      { process with scope := { process.scope with aliases } }
    match args with
    | ('-' :: 'a' :: _) :: _ => { process := setAliases [], machine }
    | _ =>
      (withOptions "" "" fun _ args process machine =>
        let step := fun (aliases, unknown) (arg : Chars) =>
          let name := Chars.text arg
          match aliases.lookup name with
          | some _ => (aliases.filter fun (n, _) => n ≠ name, unknown)
          | none => (aliases, unknown ++ [name])
        let (aliases, unknown) := args.foldl step (process.scope.aliases, [])
        { process := setAliases aliases,
          machine := unknown.foldl (fun m n =>
            m.complain process (Bytes.ofMessage s!"unalias: {n} not found")) machine,
          verdict := .status (if unknown = [] then 0 else 1) }) args process machine

/-- What a search for an option comes to. -/
structure OptionFound where
  /-- The option, or a sign that tells what is wrong with it. -/
  letter : Char
  /-- Its argument, if it has one. -/
  argument : Option Chars
  /-- The number of the next argument, from one on. -/
  index : Nat
  /-- How much of the argument before that has been searched. -/
  offset : Nat
  /-- A complaint. -/
  complaint : Option String := none

/-- Whether a letter is among the options of a description, and whether it takes an argument. -/
def describes (c : Char) : Chars → Option Bool
  | [] => none
  | d :: ':' :: rest => if c = d then some true else describes c rest
  | d :: rest => if c = d then some false else describes c rest

/-- The next option in arguments; none at their end, with the number of the first other argument. -/
def nextOption (description : Chars) (args : List Chars) (index offset : Nat) :
    Except Nat OptionFound :=
  let current := (args[index - 2]?).getD []
  let inside := 2 ≤ index && offset != 0 && offset < current.length
  let word := if inside then current.drop offset else (args[index - 1]?).getD []
  let index := if inside then index else index + 1
  match inside, word with
  | false, ['-', '-'] => .error index
  | false, '-' :: c :: cs => .ok (found c cs index (2 : Nat))
  | true, c :: cs => .ok (found c cs index (offset + 1))
  | _, _ => .error (index - 1)
where
  /-- What becomes of a letter with what follows it in its argument. -/
  found (c : Char) (cs : Chars) (index offset : Nat) : OptionFound :=
    let quiet := description.head? = some ':'
    match describes c (if quiet then description.tail else description) with
    | none =>
      { letter := '?', argument := if quiet then some [c] else none, index, offset,
        complaint := if quiet then none else some s!"Illegal option -{c}" }
    | some false => { letter := c, argument := some [], index, offset }
    | some true =>
      match cs, args[index - 1]? with
      | [], none =>
        { letter := if quiet then ':' else '?', argument := if quiet then some [c] else none, index,
          offset := 0, complaint := if quiet then none else some s!"No arg for -{c} option" }
      | [], some arg => { letter := c, argument := some arg, index := index + 1, offset := 0 }
      | cs, _ => { letter := c, argument := some cs, index, offset := 0 }

/-- Gives a variable a value, if it has the name of one. -/
def setNamed (entry : String × Chars) (sc : Scope) : Except String Scope :=
  if isName entry.1.toList then sc.set entry.1 entry.2
  else .error (entry.1 ++ ": bad variable name")

/-- Sets the variables that tell about an option; if one cannot be set, the search starts again. -/
def tellOption (name : String) (found : Except Nat OptionFound) (sc : Scope) :
    Scope × Option String :=
  let (letter, searched) : Char × Searched := match found with
    | .error index => ('?', { index })
    | .ok f => (f.letter, { index := f.index, offset := f.offset })
  let tellArgument (sc : Scope) : Except String Scope := match found with
    | .error _ => .ok sc
    | .ok { argument := some text, .. } => sc.set "OPTARG" text
    | .ok { argument := none, .. } => sc.unset "OPTARG"
  let tellIndex (sc : Scope) : Except String Scope :=
    sc.store "OPTIND" (Chars.ofNat searched.index)
  match Scope.inTurn (· ·) [tellArgument, tellIndex, setNamed (name, [letter])] sc with
  | (sc, none) => ({ sc with searched }, none)
  | (sc, some e) => ({ sc with searched := {} }, some e)

/-- `getopts` -/
def getopts : Command :=
  fun args process machine =>
    match args with
    | description :: name :: given =>
      let words := if given = [] then process.scope.args else given
      let searched := process.scope.searched
      let start : Searched := if words.length + 1 < searched.index then {} else searched
      let found := nextOption description words start.index start.offset
      let machine := match found with
        | .ok { complaint := some text, .. } => machine.complain process (Bytes.ofMessage text)
        | _ => machine
      match tellOption (Chars.text (name.takeWhile (· ≠ '='))) found process.scope with
      | (scope, some e) => failing e args { process with scope } machine
      | (scope, none) =>
        { process := { process with scope }, machine,
          verdict := .status (if found.isOk then 0 else 1) }
    | _ => failing "Usage: getopts optstring var [arg...]" args process machine

end Command
end Machine
end LineShell
