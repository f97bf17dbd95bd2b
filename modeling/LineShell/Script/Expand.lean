import LineShell.Script.Pattern
import LineShell.Script.Sum

/-!
# Expanding words

Expanding a word replaces parameters, integer expressions and what commands print. What comes out
is a row of pieces that still tells which characters were quoted; from it come fields
(`Expand.fields`), one text (`Expand.text`) or a pattern (`Expand.pattern`).

What a command prints is only known once it has run. So expanding takes the list of what the
commands in the words have printed so far. When it meets a command beyond that list, it stops and
names the command (`Outcome.needs`); the words are expanded again from the start when its output is
there. What was found on the disk by then is not looked for again (`Expand.once`).

This is part of the script interpreter, which stands in for the programs of a real machine. No
general result about the shell rests on it.
-/

namespace LineShell
namespace Script

/-- What is known from expanding the same words before. -/
structure Known where
  /-- What commands have printed, in the order in which they are met. -/
  outputs : List Chars := []
  /-- What words have come to, in their order. -/
  results : List (List Chars) := []

/-- What is known once one more command has printed something. -/
def Known.printed (k : Known) (text : Chars) : Known :=
  { k with outputs := k.outputs ++ [text] }

/-- What expanding goes along with. -/
structure Expanding where
  /-- What the script knows. -/
  scope : Scope
  /-- What is known and has not been met yet. -/
  known : Known
  /-- What words have come to so far, the last first. -/
  found : List (List Chars) := []

/-- What expanding comes to. -/
inductive Outcome (α : Type) where
  /-- It is done. -/
  | done (a : α) (e : Expanding)
  /-- It failed, and the script ends. A text that is malformed is complained about as if it was
  found while reading the script. -/
  | failed (message : String) (malformed : Bool) (e : Expanding)
  /-- It needs what a command prints. -/
  | needs (body : Statement) (e : Expanding)
  /-- The process is stopped by the processor. -/
  | stopped

/-- Something that is expanded. -/
def Expand (α : Type) : Type := Expanding → Outcome α

namespace Expand

/-- What is expanded first goes on into what is expanded next, unless it fails or needs
something. -/
instance : Monad Expand where
  pure a := fun e => .done a e
  bind x f := fun e =>
    match x e with
    | .done a e => f a e
    | .failed message malformed e => .failed message malformed e
    | .needs body e => .needs body e
    | .stopped => .stopped

/-- The expansion fails. -/
def fail {α : Type} (message : String) : Expand α :=
  fun e => .failed message false e

/-- The expansion gives a text that is malformed. -/
def malformed {α : Type} (message : String) : Expand α :=
  fun e => .failed s!"Syntax error: {message}" true e

/-- What is expanded, or the message with which that fails. -/
def attempt {α : Type} (x : Expand α) : Expand (Except String α) :=
  fun e =>
    match x e with
    | .done a e => .done (.ok a) e
    | .failed message _ e => .done (.error message) e
    | .needs body e => .needs body e
    | .stopped => .stopped

/-- What the script knows. -/
def scope : Expand Scope :=
  fun e => .done e.scope e

/-- What an attempt gives, or its message. -/
def ofExcept {α : Type} : Except String α → Expand α
  | .ok a => pure a
  | .error message => fail message

/-- Changes what the script knows. -/
def setScope (scope : Scope) : Expand Unit :=
  fun e => .done () { e with scope }

/-- The value of an integer expression. -/
def sum (source : Chars) : Expand Int :=
  fun e =>
    match Sum.eval source e.scope with
    | (.ok n, scope) => .done n { e with scope }
    | (.error (.wrong message), scope) => .failed message false { e with scope }
    | (.error .stopped, _) => .stopped

/-- What a command prints, without the line feeds at its end. -/
def outputOf (body : Statement) : Expand Chars :=
  fun e =>
    match e.known.outputs with
    | out :: rest => .done out { e with known := { e.known with outputs := rest } }
    | [] => .needs body e

/-- What a word comes to, unless that is known. -/
def once (result : List Chars) : Expand (List Chars) :=
  fun e =>
    match e.known.results with
    | l :: rest =>
      .done l { e with known := { e.known with results := rest }, found := l :: e.found }
    | [] => .done result { e with found := result :: e.found }

end Expand

/-- A piece of an expanded word. -/
inductive Piece where
  /-- A character; whether it is quoted, and whether it may end a field. -/
  | char (c : Char) (quoted divides : Bool)
  /-- Quotes, with or without characters between them. -/
  | mark
  /-- The end of a field; whether the field stays if it is empty. -/
  | cut (keepsEmpty : Bool)
  /-- The start of an expansion. Separators before it and after it do not count as one. -/
  | edge

namespace Piece

/-- The characters of pieces. -/
def chars (l : List Piece) : Chars :=
  l.filterMap fun
    | .char c _ _ => some c
    | _ => none

/-- The characters of pieces, and whether they are quoted. -/
def marked (l : List Piece) : List Marked :=
  l.filterMap fun
    | .char c quoted _ => some (c, quoted)
    | _ => none

/-- The pieces of a text; `divided` tells whether fields are being made. -/
def ofChars (quoted divided : Bool) (s : Chars) : List Piece :=
  s.map fun c => .char c quoted (divided && !quoted)

/-- The pieces of a text that comes from an expansion. -/
def expanded (quoted divided : Bool) (s : Chars) : List Piece :=
  .edge :: ofChars quoted divided s

end Piece

/-- What a parameter stands for. -/
inductive Value where
  /-- A text. -/
  | text (s : Chars)
  /-- The arguments; whether they stay apart between quotes. -/
  | args (l : List Chars) (apart : Bool)

namespace Value

/-- Whether arguments stay apart: those of `$@` between quotes, and all others where fields are made
of them. -/
def staysApart (sc : Scope) (quoted divided apart : Bool) : Bool :=
  divided && (if quoted then apart else (sc.value? "IFS").isSome)

/-- A value as one text, or as more than one if it consists of arguments that stay apart. -/
def texts (sc : Scope) (quoted divided : Bool) : Value → List Chars
  | text s => [s]
  | args l apart =>
    if staysApart sc quoted divided apart then l else [(l.intersperse sc.joint).flatten]

/-- Whether a value is empty. -/
def isEmpty (sc : Scope) (quoted divided : Bool) (v : Value) : Bool :=
  match v.texts sc quoted divided with
  | [] => true
  | [s] => s.isEmpty
  | _ => false

/-- How long a value is as one text. -/
def length (sc : Scope) (v : Value) : Nat :=
  ((v.texts sc true false).flatten).length

/-- The pieces of a value with the given texts. -/
def ofTexts (quoted divided : Bool) (v : Value) (l : List Chars) : List Piece :=
  let start := match v with
    | text _ => []
    | args _ _ => if quoted && divided then [Piece.mark] else []
  .edge :: ((l.map fun s => start ++ Piece.ofChars quoted divided s).intersperse
    [.cut quoted]).flatten

/-- The pieces of a value. -/
def pieces (sc : Scope) (quoted divided : Bool) (v : Value) : List Piece :=
  match v with
  | args [] _ => []
  | v => v.ofTexts quoted divided (v.texts sc quoted divided)

/-- The value of a parameter, if it has one. -/
def ofParameter? (sc : Scope) (name : String) : Option Value :=
  match name with
  | "@" => some (.args sc.args true)
  | "*" => some (.args sc.args false)
  | "#" => some (.text (Chars.ofNat sc.args.length))
  | "?" => some (.text (Chars.ofNat sc.status))
  | "$" => some (.text (Chars.ofNat sc.process))
  | "!" => sc.lastBackground.map fun n => .text (Chars.ofNat n)
  | "-" => some (.text sc.optionLetters)
  | _ =>
    match Number.digits 10 name.toList with
    | some (0, _) => some (.text sc.name)
    | some (n + 1, _) => sc.args[n]?.map .text
    | none => (sc.value? name).map .text

end Value

/-- How far a tilde reaches in a text, and what follows; `inValue` tells whether a colon ends it. -/
def tildeSpan (inValue : Bool) (cs : Chars) : Chars × Chars :=
  cs.span fun c => c ≠ '/' && !(inValue && c = ':')

/-- The home directory of a user. -/
def homeOf (sc : Scope) (user : Chars) : Option Chars :=
  if user = [] then sc.value? "HOME"
  else if user = "root".toList then some "/root".toList
  else none

/-- The home directory that a text stands for which starts with a tilde, and what follows; the
text is given after the tilde, and `last` tells whether the word ends with it. -/
def home? (sc : Scope) (inValue last : Bool) (cs : Chars) : Option (RawWord × Chars) :=
  let (user, rest) := tildeSpan inValue cs
  (if rest = [] && !last then none else homeOf sc user).map fun home =>
    (if home = [] then [] else [.quoted home], rest)

/-- The parts for a text in a value: a tilde may stand at its start and after each colon. -/
def valueParts (sc : Scope) (last atStart : Bool) : Nat → Chars → RawWord
  | 0, cs => [.plain cs]
  | n + 1, cs =>
    match cs, atStart with
    | '~' :: rest, true =>
      match home? sc true last rest with
      | some (home, rest) => home ++ valueParts sc last false n rest
      | none => .plain ['~'] :: valueParts sc last false n rest
    | _, _ =>
      match cs.span (· ≠ ':') with
      | (before, ':' :: after) => .plain (before ++ [':']) :: valueParts sc last true n after
      | (before, _) => [.plain before]

/-- How parts of words are expanded. -/
structure Mode where
  /-- Whether fields are being made. -/
  divided : Bool := false
  /-- Whether the parts come from a parameter, so that their text may be divided too. -/
  brought : Bool := false
  /-- Whether tildes stand for home directories. -/
  tildes : Bool := false
  /-- Whether tildes count after colons too. -/
  inValue : Bool := false
  /-- Whether quotes are marked in what comes out, so that expressions are taken to have guards. -/
  marked : Bool := false

/-- The pieces of a plain text; `atStart` tells whether a tilde at its start counts, and `last`
whether the word ends with it. -/
def plainPieces (sc : Scope) (mode : Mode) (atStart last : Bool) (s : Chars) : List Piece :=
  let found : RawWord := match mode.tildes, mode.inValue, atStart, s with
    | true, true, _, _ => valueParts sc last atStart (s.length + 1) s
    | true, false, true, '~' :: cs =>
      match home? sc false last cs with
      | some (home, rest) => home ++ [.plain rest]
      | none => [.plain s]
    | _, _, _, _ => [.plain s]
  found.flatMap fun
    | .plain t => Piece.expanded false (mode.divided && mode.brought) t
    | .quoted t => .mark :: Piece.ofChars true mode.divided t
    | _ => []

namespace Expand

/-- A parameter without a value is used. -/
def unset (name : String) : Expand Unit := do
  if (← scope).isOn 'u' then fail s!"{name}: parameter not set"

/-- Why a parameter that should have a value does not. -/
def complaint (name : String) (emptyIsNone : Bool) (message : Option Chars) : String :=
  match message with
  | some text => name ++ ": " ++ text.text
  | none => name ++ ": parameter not set" ++ (if emptyIsNone then " or null" else "")

/-- Gives a parameter a value. -/
def assign (name : String) (value : Chars) : Expand Unit := do
  if !isName name.toList then fail s!"{name}: bad variable name"
  setScope (← ofExcept ((← scope).set name value))

mutual

/-- The pieces of a part of a word; `atStart` tells whether a tilde at its start counts, and `last`
whether the word ends with it. -/
def part (mode : Mode) (atStart last : Bool) : Part → Expand (List Piece)
  | .plain s => return plainPieces (← scope) mode atStart last s
  | .quoted s => return .mark :: Piece.ofChars true mode.divided s
  | .output _ .nothing => return []
  | .output quoted body => return Piece.expanded quoted mode.divided (← outputOf body)
  | .sum quoted body => do
    let source := Piece.chars (← parts {} false body)
    let n ← sum (if mode.marked then source.unguarded else source)
    return Piece.expanded quoted mode.divided (Chars.ofInt n)
  | .parameter quoted name u => use mode quoted name u

/-- The pieces of what is made of a parameter. -/
def use (mode : Mode) (quoted : Bool) (name : String) : Use → Expand (List Piece)
  | .value => do
    let sc ← scope
    match Value.ofParameter? sc name with
    | none =>
      unset name
      return []
    | some v => return v.pieces sc quoted mode.divided
  | .length => do
    let sc ← scope
    match Value.ofParameter? sc name with
    | none =>
      unset name
      return Piece.expanded quoted mode.divided ['0']
    | some v =>
      return Piece.expanded quoted mode.divided (Chars.ofNat (v.length sc))
  | .standIn how emptyIsNone word => do
    let sc ← scope
    let value := (Value.ofParameter? sc name).filter fun v =>
      !(emptyIsNone && v.isEmpty sc quoted mode.divided)
    match how, value with
    | .replace, none => return []
    | .replace, some _ => parts { mode with brought := true, tildes := true } true word
    | _, some v => return v.pieces sc quoted mode.divided
    | .default, none => parts { mode with brought := true, tildes := true } true word
    | .assign, none =>
      let text := Piece.chars (← parts { tildes := true } true word)
      assign name text
      return Piece.expanded quoted mode.divided text
    | .complain, none =>
      let text := Piece.chars (← parts { tildes := true } true word)
      fail (complaint name emptyIsNone (if word.isEmpty then none else some text))
  | .trim atEnd longest pattern => do
    let sc ← scope
    match Value.ofParameter? sc name with
    | none =>
      unset name
      return []
    | some v =>
      let pieces ← parts { tildes := true, marked := true } true pattern
      let p := Pattern.ofMarked (Piece.marked pieces)
      let texts := v.texts sc quoted mode.divided
      return v.ofTexts quoted mode.divided (p.trim atEnd longest texts)
  | .invalid => fail "Bad substitution"

/-- The pieces of a row of parts; `atStart` tells whether a tilde at its start counts. -/
def parts (mode : Mode) (atStart : Bool) : List Part → Expand (List Piece)
  | [] => return []
  | p :: rest => do
    let a ← part mode atStart rest.isEmpty p
    let next := match p with
      | .plain s => mode.inValue && s.getLast? == some ':'
      | _ => false
    let b ← parts mode next rest
    return a ++ b

end

/-- One text. -/
def text (w : RawWord) (inValue : Bool) : Expand Chars := do
  return Piece.chars (← parts { tildes := true, inValue } true w)

/-- A text whose quotes are gone already, such as a here-document. -/
def document (w : RawWord) : Expand Chars := do
  return Piece.chars (← parts {} false w)

/-- A pattern. -/
def pattern (w : RawWord) : Expand Pattern := do
  return Pattern.ofMarked (Piece.marked (← parts { tildes := true, marked := true } true w))

end Expand

/-- A field that is being put together. -/
structure Field where
  /-- Its characters, the last one first. -/
  chars : List Marked := []
  /-- Whether it counts even if it is empty. -/
  present : Bool := false
  /-- Whether blanks have just ended a field. -/
  afterBlank : Bool := false

namespace Field

/-- Whether there is a field so far. -/
def isThere (f : Field) : Bool :=
  f.present || !f.chars.isEmpty

/-- The fields of a row of pieces, from one that is being put together on. A blank among the
separators ends a field that is there; every other separator ends a field, unless blanks have just
ended one. -/
def divide (separators : Chars) : Field → List Piece → List (List Marked)
  | f, [] => if f.isThere then [f.chars.reverse] else []
  | f, .mark :: rest => divide separators { f with present := true, afterBlank := false } rest
  | f, .edge :: rest => divide separators { f with afterBlank := false } rest
  | f, .cut true :: rest => f.chars.reverse :: divide separators {} rest
  | f, .cut false :: rest =>
    if f.isThere then f.chars.reverse :: divide separators { afterBlank := true } rest
    else divide separators { f with afterBlank := true } rest
  | f, .char c quoted divides :: rest =>
    if divides && separators.contains c then
      if c = ' ' ∨ c = '\t' ∨ c = '\n' then
        if f.isThere then f.chars.reverse :: divide separators { afterBlank := true } rest
        else divide separators f rest
      else if f.afterBlank then divide separators {} rest
      else f.chars.reverse :: divide separators {} rest
    else
      divide separators
        { chars := (c, quoted) :: f.chars, present := f.present, afterBlank := false } rest

end Field

namespace Expand

/-- The fields of a word, before names of files are looked for. -/
def fields (w : RawWord) : Expand (List (List Marked)) := do
  let pieces ← parts { divided := true, tildes := true, marked := true } true w
  return Field.divide (← scope).separators {} pieces

end Expand
end Script
end LineShell
