import LineShell.Host
import LineShell.Script.Scope

/-!
# Conditions

The commands `test` and `[` look at their arguments and at files. A condition is a text that is not
empty, an operator before an argument or between two, or conditions joined by `!`, `-a`, `-o` and
parentheses. What an argument is depends on those after it, so that operators can be tested like
any other text.

How many arguments there are decides first: with three of them, an operator in the middle always is
one, and with three or four, parentheses around the others or an exclamation mark before them always
count.

This is part of the script interpreter, which stands in for the programs of a real machine. No
general result about the shell rests on it.
-/

namespace LineShell
namespace Script

/-- What is looked at in a file. -/
structure FileFacts where
  /-- What the file is, once links are followed. -/
  kind : FileKind
  /-- Whether it holds something. -/
  holdsSomething : Bool
  /-- The operators that look for a mark which it has. -/
  marks : List String := []

/-- How conditions look at files. -/
structure FileView where
  /-- The facts about what a path names. -/
  facts : String → Option FileFacts
  /-- Whether a path names a link. -/
  isLink : String → Bool
  /-- Whether two paths name the same thing. -/
  same : String → String → Bool
  /-- Whether what a path names was changed after what another one names. -/
  newer : String → String → Bool

namespace Condition

/-- What kind of operator an argument is. -/
inductive Operator where
  /-- It stands before an argument. -/
  | unary
  /-- It stands between two arguments. -/
  | binary
  /-- `!` -/
  | negation
  /-- `-a` -/
  | conjunction
  /-- `-o` -/
  | disjunction
  /-- `(` -/
  | opening
  /-- `)` -/
  | closing
  deriving DecidableEq, Repr

/-- The operators that stand before an argument. -/
def unaryOperators : List String :=
  ["-r", "-w", "-x", "-e", "-f", "-d", "-c", "-b", "-p", "-u", "-g", "-k", "-s", "-t", "-z", "-n",
    "-h", "-O", "-G", "-L", "-S"]

/-- The operators that stand between two arguments. -/
def binaryOperators : List String :=
  ["=", "!=", "<", ">", "-eq", "-ne", "-ge", "-gt", "-le", "-lt", "-nt", "-ot", "-ef"]

/-- What kind of operator an argument is, if it is one. -/
def operator? (arg : Chars) : Option Operator :=
  let s := arg.text
  if unaryOperators.contains s then some .unary
  else if binaryOperators.contains s then some .binary
  else
    [("!", Operator.negation), ("-a", .conjunction), ("-o", .disjunction), ("(", .opening),
      (")", .closing)].lookup s

/-- The kind of operator that the first of some arguments is, given those after it. -/
def lead? : List Chars → Option Operator
  | [] => none
  | arg :: rest =>
    match operator? arg with
    | some .unary =>
      match rest with
      | [] => none
      | [_] => some .unary
      | next :: _ :: _ => if operator? next = some .binary then none else some .unary
    | some .opening => if rest = [] then none else some .opening
    | op => op

/-- A file is looked at. -/
def unary (v : FileView) (op : String) (arg : Chars) : Except String Bool :=
  let path := arg.path
  let kind := (v.facts path).map (·.kind)
  match op with
  | "-n" => .ok (arg ≠ [])
  | "-z" => .ok (arg = [])
  | "-t" => (Number.signed arg).map fun _ => false
  | "-e" => .ok kind.isSome
  | "-r" => .ok kind.isSome
  | "-w" => .ok kind.isSome
  | "-O" => .ok kind.isSome
  | "-G" => .ok kind.isSome
  | "-d" => .ok (kind = some .directory)
  | "-f" => .ok (kind = some (.file true) ∨ kind = some (.file false))
  | "-x" => .ok (kind = some (.file true) ∨ kind = some .directory)
  | "-c" => .ok (kind = some .other)
  | "-s" => .ok (match v.facts path with
    | some f => f.holdsSomething
    | none => false)
  | "-h" => .ok (v.isLink path)
  | "-L" => .ok (v.isLink path)
  | _ => .ok (match v.facts path with
    | some f => f.marks.contains op
    | none => false)

/-- Numbers are compared. -/
def compare (test : Int → Int → Bool) (a b : Chars) : Except String Bool :=
  match Number.signed a, Number.signed b with
  | .error e, _ => .error e
  | _, .error e => .error e
  | .ok x, .ok y => .ok (test x y)

/-- Two arguments are compared. -/
def binary (v : FileView) (a : Chars) (op : String) (b : Chars) : Except String Bool :=
  match op with
  | "=" => .ok (a = b)
  | "!=" => .ok (a ≠ b)
  | "<" => .ok (decide (a < b))
  | ">" => .ok (decide (b < a))
  | "-eq" => compare (fun x y => x = y) a b
  | "-ne" => compare (fun x y => x ≠ y) a b
  | "-lt" => compare (fun x y => x < y) a b
  | "-le" => compare (fun x y => x ≤ y) a b
  | "-gt" => compare (fun x y => x > y) a b
  | "-ge" => compare (fun x y => x ≥ y) a b
  | "-ef" => .ok (v.same a.path b.path)
  | "-nt" => .ok (v.newer a.path b.path)
  | _ => .ok (v.newer b.path a.path)

/-- The message for an operator without its argument. -/
def missing (op : Chars) : String :=
  op.text ++ ": argument expected"

/-- A condition, or the message that it is none, and the arguments from its last one on. -/
abbrev Found := Except String (Bool × List Chars)

mutual

/-- A condition that is not joined with others, at the start of some arguments. `op` is the kind of
operator that the first of them is. -/
def primary (v : FileView) : Nat → Option Operator → List Chars → Found
  | 0, _, args => .ok (false, args)
  | _, _, [] => .ok (false, [])
  | n + 1, op, arg :: rest =>
    match op with
    | some .opening =>
      match lead? rest with
      | some .closing => .ok (false, rest)
      | inner =>
        match anyOf v n inner rest with
        | .error e => .error e
        | .ok (value, left) =>
          match lead? left.tail with
          | some .closing => .ok (value, left.tail)
          | _ => .error "closing paren expected"
    | some .unary =>
      match rest with
      | [] => .error (missing arg)
      | x :: _ => (unary v arg.text x).map (·, rest)
    | _ =>
      match lead? rest, rest with
      | some .binary, b :: c :: more => (binary v arg b.text c).map (·, c :: more)
      | some .binary, [b] => .error (missing b)
      | _, _ => .ok (arg ≠ [], arg :: rest)

/-- A condition that may be negated. -/
def negatable (v : FileView) : Nat → Option Operator → List Chars → Found
  | 0, _, args => .ok (false, args)
  | n + 1, op, args =>
    if op = some .negation then
      if args.tail = [] then .ok (true, args)
      else
        (negatable v n (lead? args.tail) args.tail).map fun (value, left) => (!value, left)
    else primary v n op args

/-- Conditions joined by `-a`. -/
def allOf (v : FileView) : Nat → Option Operator → List Chars → Found
  | 0, _, args => .ok (false, args)
  | n + 1, op, args =>
    match negatable v n op args with
    | .error e => .error e
    | .ok (value, left) =>
      if lead? left.tail = some .conjunction then
        let rest := left.tail.tail
        (allOf v n (lead? rest) rest).map fun (more, left) => (value && more, left)
      else .ok (value, left)

/-- Conditions joined by `-o`. -/
def anyOf (v : FileView) : Nat → Option Operator → List Chars → Found
  | 0, _, args => .ok (false, args)
  | n + 1, op, args =>
    match allOf v n op args with
    | .error e => .error e
    | .ok (value, left) =>
      if lead? left.tail = some .disjunction then
        let rest := left.tail.tail
        (anyOf v n (lead? rest) rest).map fun (more, left) => (value || more, left)
      else .ok (value, left)

end

/-- A condition that has to use up all its arguments. -/
def complete (v : FileView) (op : Option Operator) (args : List Chars) : Except String Bool :=
  match anyOf v (4 * args.length + 4) op args with
  | .error e => .error e
  | .ok (value, left) =>
    match left with
    | x :: _ :: _ =>
      .error (if x = [] then "unexpected operator" else x.text ++ ": unexpected operator")
    | _ => .ok value

/-- Whether the middle one of three arguments is an operator between the others. -/
def isComparison : List Chars → Bool
  | [_, op, _] => operator? op == some .binary
  | _ => false

/-- What a condition comes to by the number of its arguments: whether it is denied, whether it
compares, and the arguments that count. A second exclamation mark at its start changes nothing. -/
def shape : Bool → List Chars → Bool × Bool × List Chars
  | denied, [] => (denied, false, [])
  | denied, first :: rest =>
    let args := first :: rest
    if isComparison args then (denied, true, args)
    else if args.length = 3 ∨ args.length = 4 then
      if first = ['('] ∧ rest.getLast? = some [')'] then (denied, false, rest.dropLast)
      else if first = ['!'] then shape true rest
      else (denied, false, args)
    else (denied, false, args)

/-- Whether a condition holds, or the message that it is none. -/
def eval (v : FileView) (args : List Chars) : Except String Bool :=
  match shape false args with
  | (_, _, []) => .ok false
  | (denied, compares, args) =>
    (complete v (if compares then none else lead? args) args).map (· != denied)

end Condition
end Script
end LineShell
