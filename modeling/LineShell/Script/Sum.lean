import LineShell.Script.Scope

/-!
# Integer expressions

An expression is worked out while it is read. Its numbers have 64 bits and wrap around. The
operators are, from the closest binding on:

| operators              |                        |
|------------------------|------------------------|
| `+ - ! ~`              | before a value         |
| `* / %`                |                        |
| `+ -`                  |                        |
| `<< >>`                |                        |
| `< <= > >=`            |                        |
| `== !=`                |                        |
| `&`, then `^`, then `\|` |                      |
| `&&`, then `\|\|`      | the right side is only worked out if it matters |
| `? :`                  | one side is worked out |
| `= += -= *= …`         | a variable is set      |

Joined with itself, each level groups to the left, assignments and choices to the right.

Dividing the least number by minus one has no value with 64 bits. The processor does not do it: it
stops the process (`Fault.stopped`).

This is part of the script interpreter, which stands in for the programs of a real machine. No
general result about the shell rests on it.
-/

namespace LineShell
namespace Script
namespace Sum

/-- Why an expression has no value. -/
inductive Fault where
  /-- It is wrong, with a message. -/
  | wrong (message : String)
  /-- The processor stops who works it out. -/
  | stopped
  deriving DecidableEq, Repr

/-- A piece of an expression. -/
inductive Lexeme where
  /-- A number. -/
  | number (n : Int64)
  /-- A variable. -/
  | name (x : String)
  /-- An operator. -/
  | sign (text : String)
  /-- Something that has no place in an expression. -/
  | bad
  deriving DecidableEq

/-- The operators, the longer ones first. -/
def signs : List String :=
  ["<<=", ">>=", "<<", ">>", "<=", ">=", "==", "!=", "&&", "||", "+=", "-=", "*=", "/=", "%=",
    "&=", "^=", "|=", "+", "-", "*", "/", "%", "<", ">", "=", "!", "~", "&", "^", "|", "?", ":",
    "(", ")"]

/-- The operator at the start of a text, and the rest. -/
def sign? (cs : Chars) : Option (String × Chars) :=
  signs.findSome? fun s => (s.toList.isPrefixOf? cs).map (s, ·)

/-- The pieces of an expression; the number bounds how many. -/
def lexemes : Nat → Chars → List Lexeme
  | 0, _ => []
  | n + 1, cs =>
    match cs.dropWhile fun c => c = ' ' ∨ c = '\t' ∨ c = '\n' with
    | [] => []
    | c :: rest =>
      let cs := c :: rest
      if c.isDigit then
        match Number.scan true cs with
        | none => [.bad]
        | some (k, rest) => .number (Int64.ofInt (min k Number.greatest)) :: lexemes n rest
      else if isNameStart c then
        .name (String.ofList (cs.takeWhile isNameChar)) :: lexemes n (cs.dropWhile isNameChar)
      else
        match sign? cs with
        | none => [.bad]
        | some (s, rest) => .sign s :: lexemes n rest

/-- How far an expression has been worked out. -/
structure Progress where
  /-- The expression. -/
  source : Chars
  /-- The pieces that are left. -/
  left : List Lexeme
  /-- What the script knows. -/
  scope : Scope

/-- Something that is worked out. What was set before a fault stays set. -/
abbrev Work := ExceptT Fault (StateM Progress)

/-- The expression is wrong. -/
def wrong {α : Type} (message : String) : Work α := do
  let source := (← get).source.text
  throw (.wrong s!"arithmetic expression: {message}: \"{source}\"")

/-- The next piece. -/
def peek : Work (Option Lexeme) :=
  return (← get).left.head?

/-- Goes past a piece. -/
def pass : Work Unit :=
  modify fun p => { p with left := p.left.tail }

/-- Goes past an operator if it is next. -/
def passIf (s : String) : Work Bool := do
  if (← peek) = some (.sign s) then
    pass
    return true
  else return false

/-- The value of a variable; what it holds has to be a number. -/
def valueOf (name : String) : Work Int64 := do
  let sc := (← get).scope
  match sc.value? name with
  | none => return 0
  | some cs =>
    match Number.whole? true cs with
    | none => throw (.wrong (Number.illegal cs))
    | some n => return Int64.ofInt n

/-- Sets a variable. -/
def assign (name : String) (n : Int64) : Work Unit := do
  let p ← get
  match p.scope.set name (Chars.ofInt n.toInt) with
  | .error e => throw (.wrong e)
  | .ok scope => set { p with scope }

/-- A truth value as a number. -/
def truth (b : Bool) : Int64 :=
  if b then 1 else 0

/-- How tightly an operator between two values binds; the least number is the tightest. -/
def level? (s : String) : Option Nat :=
  ([("*", 0), ("/", 0), ("%", 0), ("+", 1), ("-", 1), ("<<", 2), (">>", 2), ("<", 3), ("<=", 3),
    (">", 3), (">=", 3), ("==", 4), ("!=", 4), ("&", 5), ("^", 6), ("|", 7)] :
    List (String × Nat)).lookup s

/-- Divides, if that can be done. -/
def divided (quotient : Int64) (a b : Int64) : Work Int64 :=
  if b = 0 then wrong "division by zero"
  else if a = Int64.minValue ∧ b = -1 then throw .stopped
  else return quotient

/-- The value of two values with an operator between them. -/
def apply (s : String) (a b : Int64) : Work Int64 :=
  match s with
  | "*" => return a * b
  | "/" => divided (a / b) a b
  | "%" => divided (a % b) a b
  | "+" => return a + b
  | "-" => return a - b
  | "<<" => return a <<< b
  | ">>" => return a >>> b
  | "<" => return truth (a < b)
  | "<=" => return truth (a ≤ b)
  | ">" => return truth (b < a)
  | ">=" => return truth (b ≤ a)
  | "==" => return truth (a = b)
  | "!=" => return truth (a ≠ b)
  | "&" => return a &&& b
  | "^" => return a ^^^ b
  | _ => return a ||| b

/-- The operator with which an assignment joins the old value, if the text is one. -/
def assignment? (s : String) : Option (Option String) :=
  if s = "=" then some none
  else
    (["*=", "/=", "%=", "+=", "-=", "<<=", ">>=", "&=", "^=", "|="].find? (· = s)).map fun s =>
      some (String.ofList s.toList.dropLast)

mutual

/-- A value that stands alone. Unless it counts, variables are not looked at. -/
def primary : Nat → Bool → Work Int64
  | 0, _ => wrong "expecting primary"
  | n + 1, counts => do
    let l ← peek
    pass
    match l with
    | some (.sign "(") =>
      let a ← assigned n counts
      if ← passIf ")" then return a
      wrong "expecting ')'"
    | some (.number k) => return k
    | some (.name x) => if counts then valueOf x else return 0
    | some (.sign "+") => primary n counts
    | some (.sign "-") => return -(← primary n counts)
    | some (.sign "!") => return truth ((← primary n counts) = 0)
    | some (.sign "~") => return ~~~(← primary n counts)
    | _ => wrong "expecting primary"

/-- The value of what follows a value, as far as its operators bind more tightly than a level. -/
def joined : Nat → Bool → Nat → Int64 → Work Int64
  | 0, _, _, a => return a
  | n + 1, counts, limit, a => do
    match ← peek with
    | some (.sign s) =>
      match level? s with
      | none => return a
      | some level =>
        if limit ≤ level then return a
        pass
        let b ← joined n counts level (← primary n counts)
        joined n counts limit (← if counts then apply s a b else pure b)
    | _ => return a

/-- Values joined by operators between numbers. -/
def plainly : Nat → Bool → Work Int64
  | 0, _ => wrong "expecting primary"
  | n + 1, counts => do joined n counts 8 (← primary n counts)

/-- Values joined by `&&`. -/
def both : Nat → Bool → Work Int64
  | 0, _ => wrong "expecting primary"
  | n + 1, counts => do
    let a ← plainly n counts
    if ← passIf "&&" then
      let b ← both n (counts && a ≠ 0)
      return truth (a ≠ 0 && b ≠ 0)
    else return a

/-- Values joined by `||`. -/
def either : Nat → Bool → Work Int64
  | 0, _ => wrong "expecting primary"
  | n + 1, counts => do
    let a ← both n counts
    if ← passIf "||" then
      let b ← either n (counts && a = 0)
      return truth (a ≠ 0 || b ≠ 0)
    else return a

/-- One of two values, after a condition. -/
def chosen : Nat → Bool → Work Int64
  | 0, _ => wrong "expecting primary"
  | n + 1, counts => do
    let a ← either n counts
    if ← passIf "?" then
      let b ← assigned n (counts && a ≠ 0)
      if !(← passIf ":") then wrong "expecting ':'"
      let c ← chosen n (counts && a = 0)
      return if a ≠ 0 then b else c
    else return a

/-- An expression that may set a variable. -/
def assigned : Nat → Bool → Work Int64
  | 0, _ => wrong "expecting primary"
  | n + 1, counts => do
    match (← get).left with
    | .name x :: .sign s :: _ =>
      match assignment? s with
      | none => chosen n counts
      | some joint =>
        pass
        pass
        let b ← assigned n counts
        if !counts then return b
        let value ← match joint with
          | none => pure b
          | some s => do apply s (← valueOf x) b
        assign x value
        return value
    | _ => chosen n counts

end

/-- The value of an expression, and what the script knows after it was worked out. -/
def eval (source : Chars) (scope : Scope) : Except Fault Int × Scope :=
  let left := lexemes (source.length + 1) source
  let work : Work Int64 := do
    let a ← assigned (8 * left.length + 8) true
    if (← peek).isSome then wrong "expecting EOF"
    return a
  let (result, p) := work.run.run { source, left, scope }
  (result.map Int64.toInt, p.scope)

end Sum
end Script
end LineShell
