import LineShell.Script.Word

/-!
# The grammar of scripts

A script is read line by line: each time the commands up to the end of a line are read, and as many
lines more as they need. So the lines before a mistake have been carried out when it is noticed.

Whether a word is one of the language's own depends on where it stands; the reader says before each
token what it is looking for (`Look`).

This is part of the script interpreter, which stands in for the programs of a real machine. No
general result about the shell rests on it.
-/

namespace LineShell
namespace Script

/-- What the reader is looking for. -/
structure Look where
  /-- Whether the ends of lines are passed over. -/
  pastLines : Bool := false
  /-- Whether a word can be one of the language's own. -/
  keywords : Bool := false
  /-- Whether a word can stand for other text. -/
  aliases : Bool := false
  /-- Whether a word ends a here-document. -/
  mark : Bool := false

namespace Look

/-- At the start of a command. -/
def command : Look := { keywords := true, aliases := true }

/-- At the start of a command that may be on a later line. -/
def laterCommand : Look := { pastLines := true, keywords := true, aliases := true }

end Look

namespace Read

/-- Reads a sign of redirection after its first character. -/
def sign (first : Char) : Read Sign := do
  let c ← joined
  if first = '>' then
    match c with
    | some '>' => return .file .append
    | some '|' => return .file .overwrite
    | some '&' => return .copy
    | _ =>
      giveBack c
      return .file .write
  else
    match c with
    | some '<' =>
      let d ← joined
      if d = some '-' then return .document true
      giveBack d
      return .document false
    | some '&' => return .copy
    | some '>' => return .file .readWrite
    | _ =>
      giveBack c
      return .file .read

/-- A word or a redirection. -/
def wordToken (inner : Inner) (look : Look) : Read Token := do
  let w ← wordAt inner (2 * (← bound)) (if look.mark then .mark false else .bare)
  let c ← joined
  let fd? := match w with
    | [] => some none
    | [.plain [d]] => if d.isDigit then some (some (d.toNat - '0'.toNat)) else none
    | _ => none
  match c, fd? with
  | some '>', some fd => return .redirection (fd.getD 1) (← sign '>')
  | some '<', some fd => return .redirection (fd.getD 0) (← sign '<')
  | _, _ =>
    giveBack c
    modify fun r => { r with word := w }
    return .word

/-- A comment is passed over. -/
def comment : Nat → Read Unit
  | 0 => return
  | n + 1 => do
    let c ← char
    if c = none ∨ c = some '\n' then giveBack c else comment n

/-- A sign that may be doubled. -/
def doubled (c : Char) : Read Token := do
  let d ← joined
  if d = some c then return .operator (String.ofList [c, c])
  giveBack d
  return .operator (String.singleton c)

/-- The next token from the text. -/
def fresh (inner : Inner) (look : Look) : Nat → Read Token
  | 0 => throw .incomplete
  | n + 1 => do
    match ← joined with
    | none => return .endOfFile
    | some c =>
      if c = ' ' ∨ c = '\t' then fresh inner look n
      else if c = '#' then
        comment (← bound)
        fresh inner look n
      else if c = '\n' then
        countLine
        return .newline
      else if c = '&' ∨ c = '|' ∨ c = ';' then doubled c
      else if c = '(' ∨ c = ')' then return .operator (String.singleton c)
      else
        giveBack (some c)
        wordToken inner look

/-- The token that is to be read again, or the next one. -/
def current (inner : Inner) (look : Look) : Read Token := do
  let r ← get
  if r.again then
    set { r with again := false }
    return r.token
  let t ← fresh inner look (← bound)
  modify fun after =>
    let hasEnded (x : Replaced) : Bool :=
      x.endsBlank && x.left ≤ r.rest.length && after.rest.length < x.left
    { after with token := t, afterBlank := after.afterBlank || r.replacing.any hasEnded }
  return t

/-- Goes past the ends of lines. -/
def pastLines (inner : Inner) (look : Look) : Nat → Token → Read Token
  | n + 1, .newline => do
    dueDocuments inner
    pastLines inner look n (← current inner look)
  | _, t => return t

/-- The text that a word stands for, unless it is being replaced already. The word is given with its
guards. -/
def replacement? (name : String) (r : Reader) : Option Chars :=
  if r.replacing.any fun x => x.name = name && x.left ≤ r.rest.length then none
  else r.aliases.lookup name

/-- The next token. -/
def token (inner : Inner) (look : Look) : Nat → Read Token
  | 0 => current inner look
  | n + 1 => do
    let t ← current inner look
    let t ← if look.pastLines then pastLines inner look (← bound) t else pure t
    let look := { look with aliases := look.aliases || (← get).afterBlank }
    modify fun r => { r with afterBlank := false }
    let r ← get
    match t, RawWord.spelling? r.word with
    | .word, some spelling =>
      let name := String.ofList spelling
      if look.keywords && Token.keywords.contains name then
        set { r with token := .keyword name }
        return .keyword name
      else
        match if look.aliases then replacement? spelling.guarded.text r else none with
        | none => return t
        | some text =>
          let left := r.rest.length
          let endsBlank := text.getLast? = some ' ' || text.getLast? = some '\t'
          let others := r.replacing.filter (·.left ≤ left)
          let replaced : Replaced := { name := spelling.guarded.text, left, endsBlank }
          set { r with rest := text ++ r.rest, replacing := replaced :: others }
          token inner look n
    | _, _ => return t

/-- The next token, however many words stand for other text. -/
def next (inner : Inner) (look : Look) : Read Token := do
  token inner look ((← get).aliases.length + 2)

/-- The last token is to be read again. -/
def again : Read Unit :=
  modify fun r => { r with again := true }

/-- The last token has no place here. -/
def unexpected {α : Type} (expected : Option Token) : Read α := do
  let found := (← get).token.name
  match expected with
  | none => wrong s!"{found} unexpected"
  | some t =>
    let wanted := t.name
    wrong s!"{found} unexpected (expecting {wanted})"

/-- The next token has to be this one. -/
def expect (inner : Inner) (look : Look) (t : Token) : Read Unit := do
  if (← next inner look) ≠ t then unexpected (some t)

/-- What follows a sign of redirection. -/
def target (inner : Inner) (fd : Nat) (s : Sign) : Read Redirect := do
  let isDocument := match s with
    | .document _ => true
    | _ => false
  if (← next inner { mark := isDocument }) ≠ .word then unexpected none
  let r ← get
  match s with
  | .file how => return .file fd how r.word
  | .copy => return .copy fd r.word
  | .document dropTabs =>
    let d : Announced :=
      { key := r.nextKey, mark := RawWord.characters r.word, dropTabs,
        expanded := !RawWord.hasQuotes r.word }
    set { r with nextKey := r.nextKey + 1, announced := r.announced ++ [d] }
    return .document fd d.key

/-- The redirections after a compound command. What follows the last of them is not looked at as one
of the language's own words. -/
def redirections (inner : Inner) : Nat → Look → Read (List Redirect)
  | 0, _ => return []
  | n + 1, look => do
    match ← next inner look with
    | .redirection fd s =>
      let r ← target inner fd s
      return r :: (← redirections inner n {})
    | _ =>
      again
      return []

/-- A compound command with the redirections that follow it. A group that holds nothing but a
subshell is that subshell, and the last redirections given to it are the ones that count. -/
def redirected (inner : Inner) (line : Nat) (s : Statement) : Read Statement := do
  match s, ← redirections inner (← bound) .command with
  | s, [] => return s
  | .subshell line a _, rs => return .subshell line a rs
  | s, rs => return .rerouted line s rs

/-- The words up to something else. -/
def words (inner : Inner) : Nat → Read (List RawWord)
  | 0 => return []
  | n + 1 => do
    match ← next inner {} with
    | .word =>
      let w := (← get).word
      return w :: (← words inner n)
    | _ => return []

/-- The patterns of a clause, from the one that has just been read on. -/
def patterns (inner : Inner) : Nat → Read (List RawWord)
  | 0 => return []
  | n + 1 => do
    let w := (← get).word
    if (← next inner {}) = .operator "|" then
      let _ ← next inner {}
      return w :: (← patterns inner n)
    else return [w]

/-- One statement after another. -/
def joinStatements (a : Option Statement) (b : Statement) : Statement :=
  match a with
  | none => b
  | some a => .sequence a b

/-- A statement that is not waited for. -/
def inBackground : Statement → Statement
  | .pipeline stages _ => .pipeline stages true
  | s => .background s

/-- The parts of a simple command that were read so far. -/
structure SoFar where
  /-- The assignments. -/
  assignments : List (String × RawWord) := []
  /-- The words. -/
  words : List RawWord := []
  /-- The redirections. -/
  redirects : List Redirect := []

mutual

/-- How commands inside words are read. -/
def innerAt : Nat → Inner
  | 0 => ⟨throw .incomplete, throw .incomplete⟩
  | n + 1 =>
    { parenthesis := do
        let s ← list n true none
        expect (innerAt n) {} (.operator ")")
        return s
      whole := list n true none }

/-- Commands up to something that ends a list, which is left to be read again. -/
def list : Nat → Bool → Option Statement → Read Statement
  | 0, _, _ => throw .incomplete
  | n + 1, mayEnd, soFar => do
    let t ← next (innerAt n) .laterCommand
    if t = .endOfFile then
      dueDocuments (innerAt n)
      again
      return soFar.getD .nothing
    again
    if mayEnd && t.endsList then return soFar.getD .nothing
    let s ← conditional n none
    let t ← next (innerAt n) {}
    let soFar := joinStatements soFar (if t = .operator "&" then inBackground s else s)
    match t with
    | .endOfFile =>
      dueDocuments (innerAt n)
      again
      return soFar
    | .newline =>
      again
      list n true (some soFar)
    | .operator "&" => list n true (some soFar)
    | .operator ";" => list n true (some soFar)
    | _ =>
      again
      return soFar

/-- The commands up to the end of a line; none at the end of the script. -/
def commandLine : Nat → Option Statement → Read (Option Statement)
  | 0, _ => throw .incomplete
  | n + 1, soFar => do
    match ← next (innerAt n) .command with
    | .newline =>
      dueDocuments (innerAt n)
      return some (soFar.getD .nothing)
    | .endOfFile =>
      dueDocuments (innerAt n)
      again
      return soFar
    | _ =>
      again
      let s ← conditional n none
      let t ← next (innerAt n) {}
      let soFar := joinStatements soFar (if t = .operator "&" then inBackground s else s)
      match t with
      | .endOfFile =>
        dueDocuments (innerAt n)
        again
        return some soFar
      | .newline =>
        again
        commandLine n (some soFar)
      | .operator "&" => commandLine n (some soFar)
      | .operator ";" => commandLine n (some soFar)
      | _ => unexpected none

/-- Pipelines joined by `&&` and `||`, after those that were read already. -/
def conditional : Nat → Option (Statement × Bool) → Read Statement
  | 0, _ => throw .incomplete
  | n + 1, soFar => do
    let b ← negatable n (match soFar with
      | none => {}
      | some _ => .laterCommand)
    let s := match soFar with
      | none => b
      | some (a, isOr) => if isOr then .orElse a b else .andThen a b
    match ← next (innerAt n) {} with
    | .operator "&&" => conditional n (some (s, false))
    | .operator "||" => conditional n (some (s, true))
    | _ =>
      again
      return s

/-- A pipeline, possibly after an exclamation mark. -/
def negatable : Nat → Look → Read Statement
  | 0, _ => throw .incomplete
  | n + 1, look => do
    if (← next (innerAt n) look) = .keyword "!" then
      return .negation (← pipeline n .command)
    else
      again
      pipeline n {}

/-- A pipeline. -/
def pipeline : Nat → Look → Read Statement
  | 0, _ => throw .incomplete
  | n + 1, look => do
    let first ← command n look
    match ← stages n with
    | [] => return first
    | rest => return .pipeline (first :: rest) false

/-- The further stages of a pipeline. -/
def stages : Nat → Read (List Statement)
  | 0 => throw .incomplete
  | n + 1 => do
    if (← next (innerAt n) {}) = .operator "|" then
      let s ← command n .laterCommand
      return s :: (← stages n)
    else
      again
      return []

/-- A command. -/
def command : Nat → Look → Read Statement
  | 0, _ => throw .incomplete
  | n + 1, look => do
    let before := (← get).line
    let t ← next (innerAt n) look
    match t with
    | .keyword "if" =>
      let s ← branches n
      expect (innerAt n) {} (.keyword "fi")
      redirected (innerAt n) before s
    | .keyword "while" => loopBody n before true
    | .keyword "until" => loopBody n before false
    | .keyword "for" =>
      let t ← next (innerAt n) {}
      let spelling := RawWord.spelling? (← get).word
      match t, spelling.filter isName with
      | .word, some name => forLoop n before (String.ofList name)
      | _, _ => wrong "Bad for loop variable"
    | .keyword "case" =>
      if (← next (innerAt n) {}) ≠ .word then unexpected (some .word)
      let w := (← get).word
      expect (innerAt n) .laterCommand (.keyword "in")
      let clauses ← clauses n
      redirected (innerAt n) before (.select before w clauses)
    | .operator "(" =>
      let s ← list n false none
      expect (innerAt n) {} (.operator ")")
      redirected (innerAt n) before (.subshell before s [])
    | .keyword "\x7b" =>
      let s ← list n false none
      expect (innerAt n) {} (.keyword "\x7d")
      redirected (innerAt n) before s
    | .word =>
      again
      simple n (← get).line .command {}
    | .redirection _ _ =>
      again
      simple n (← get).line .command {}
    | _ => unexpected none

/-- The branches of a condition after `if` or `elif`. -/
def branches : Nat → Read Statement
  | 0 => throw .incomplete
  | n + 1 => do
    let condition ← list n false none
    expect (innerAt n) {} (.keyword "then")
    let yes ← list n false none
    match ← next (innerAt n) {} with
    | .keyword "elif" => return .choice condition yes (some (← branches n))
    | .keyword "else" => return .choice condition yes (some (← list n false none))
    | _ =>
      again
      return .choice condition yes none

/-- A loop with a condition. -/
def loopBody : Nat → Nat → Bool → Read Statement
  | 0, _, _ => throw .incomplete
  | n + 1, line, whileSuccess => do
    let condition ← list n false none
    expect (innerAt n) {} (.keyword "do")
    let body ← list n false none
    expect (innerAt n) {} (.keyword "done")
    redirected (innerAt n) line (.loop whileSuccess condition body)

/-- A loop over words, after the name of its variable. -/
def forLoop : Nat → Nat → String → Read Statement
  | 0, _, _ => throw .incomplete
  | n + 1, line, name => do
    let t ← next (innerAt n) .laterCommand
    let ws ←
      if t = .keyword "in" then
        let ws ← words (innerAt n) (← bound)
        let t := (← get).token
        if t ≠ .newline ∧ t ≠ .operator ";" then unexpected none
        pure ws
      else
        if t ≠ .operator ";" then again
        pure [[Part.parameter true "@" .value]]
    expect (innerAt n) .laterCommand (.keyword "do")
    let body ← list n false none
    expect (innerAt n) {} (.keyword "done")
    redirected (innerAt n) line (.each line name ws body)

/-- The clauses of a selection. -/
def clauses : Nat → Read (List (List RawWord × Statement))
  | 0 => throw .incomplete
  | n + 1 => do
    let t ← next (innerAt n) { pastLines := true, keywords := true }
    if t = .keyword "esac" then return []
    if t = .operator "(" then
      let _ ← next (innerAt n) {}
    let ps ← patterns (innerAt n) (← bound)
    if (← get).token ≠ .operator ")" then unexpected (some (.operator ")"))
    let body ← list n true none
    match ← next (innerAt n) { pastLines := true, keywords := true } with
    | .keyword "esac" => return [(ps, body)]
    | .operator ";;" => return (ps, body) :: (← clauses n)
    | _ => unexpected (some (.operator ";;"))

/-- A simple command or the definition of a function. -/
def simple : Nat → Nat → Look → SoFar → Read Statement
  | 0, _, _, _ => throw .incomplete
  | n + 1, line, look, soFar => do
    let atStart := look.aliases
    match ← next (innerAt n) { aliases := look.aliases } with
    | .word =>
      let w := (← get).word
      match if atStart then RawWord.assignment? w else none with
      | some a => simple n line look { soFar with assignments := soFar.assignments ++ [a] }
      | none => simple n line {} { soFar with words := soFar.words ++ [w] }
    | .redirection fd s =>
      let r ← target (innerAt n) fd s
      simple n line look { soFar with redirects := soFar.redirects ++ [r] }
    | .operator "(" =>
      match soFar.words, soFar.assignments.isEmpty && soFar.redirects.isEmpty with
      | [w], true =>
        expect (innerAt n) {} (.operator ")")
        let name := String.ofList (RawWord.characters w)
        let isGood := match RawWord.spelling? w with
          | some s => isName s && !specialCommands.contains name
          | none => false
        if !isGood then wrong "Bad function name"
        let here := (← get).line
        return .define here name (← command n .laterCommand)
      | _, _ =>
        again
        return .simple line soFar.assignments soFar.words soFar.redirects
    | _ =>
      again
      return .simple line soFar.assignments soFar.words soFar.redirects

end

/-- The commands up to the end of a line; none at the end of the script. -/
def statement : Read (Option Statement) := do
  modify fun r => { r with again := false, announced := [], replacing := [] }
  commandLine (16 * (← bound) + 64) none

/-- A text of its own, up to its end, that is expanded like a here-document. Its mark cannot
occur. -/
def expandedText : Read RawWord := do
  let n := 16 * (← bound) + 64
  let d : Announced := { key := 0, mark := ['\x00'], dropTabs := false, expanded := true }
  wordAt (innerAt n) n (.document d)

end Read
end Script
end LineShell
