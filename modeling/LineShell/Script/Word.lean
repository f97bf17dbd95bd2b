import LineShell.Script.Reader

/-!
# The words of a script

Quotes and backslashes make characters stand for themselves; a dollar sign or a backquote brings in
something to be expanded. How a character is read depends on where it stands: by itself, between
double quotes, in the braces of a parameter, in an integer expression or in a here-document.

A word can hold whole commands. How commands are read is a parameter here (`Inner`).

This is part of the script interpreter, which stands in for the programs of a real machine. No
general result about the shell rests on it.
-/

namespace LineShell
namespace Script

/-- How commands inside a word are read. -/
structure Inner where
  /-- Commands up to a closing parenthesis. -/
  parenthesis : Read Statement
  /-- Commands up to the end of the text. -/
  whole : Read Statement

/-- Where in a word a character stands. -/
inductive Place where
  /-- By itself. -/
  | bare
  /-- In the word that ends a here-document, where nothing is expanded; whether double quotes are
  open. -/
  | mark (inQuotes : Bool)
  /-- Between double quotes. -/
  | double
  /-- In the braces of a parameter: whether all of it is quoted, whether a further pair of double
  quotes is open, and in which here-document it is. -/
  | braces (quoted inQuotes : Bool) (d : Option Announced)
  /-- In an integer expression, inside some parentheses; and in which here-document it is. -/
  | sum (depth : Nat) (d : Option Announced)
  /-- In a here-document, or in a text of its own that is expanded like one. -/
  | document (d : Announced)

namespace Place

/-- Whether characters are quoted. -/
def isQuoted : Place → Bool
  | bare => false
  | mark inQuotes => inQuotes
  | braces quoted _ _ => quoted
  | _ => true

/-- The here-document in which a place is. -/
def document? : Place → Option Announced
  | braces _ _ d => d
  | sum _ d => d
  | document d => some d
  | _ => none

end Place

namespace RawWord

/-- A word with a character put before it. -/
def cons (quoted : Bool) (c : Char) (w : RawWord) : RawWord :=
  if quoted then
    match w with
    | .quoted s :: rest => .quoted (c :: s) :: rest
    | rest => .quoted [c] :: rest
  else
    match w with
    | .plain s :: rest => .plain (c :: s) :: rest
    | rest => .plain [c] :: rest

/-- Whether part of a word is quoted. -/
def hasQuotes (w : RawWord) : Bool :=
  w.any fun
    | .plain _ => false
    | .quoted _ => true
    | .parameter q _ _ => q
    | .output q _ => q
    | .sum q _ => q

/-- The spelling of a word in which nothing is quoted or expanded. -/
def spelling? : RawWord → Option Chars
  | [.plain s] => some s
  | _ => none

/-- The characters of a word in which nothing is expanded. -/
def characters (w : RawWord) : Chars :=
  w.flatMap fun
    | .plain s => s
    | .quoted s => s
    | _ => []

/-- The name and the value, if a word is an assignment. -/
def assignment? : RawWord → Option (String × RawWord)
  | .plain s :: rest =>
    match s.span isNameChar with
    | (name, '=' :: value) =>
      if isName name then
        some (String.ofList name, if value = [] then rest else .plain value :: rest)
      else none
    | _ => none
  | _ => none

end RawWord

/-- Whether a character ends a word. -/
def endsWord (c : Char) : Bool :=
  " \t\n;&|<>()".toList.contains c

/-- Whether a character by itself names a parameter. -/
def isSpecialParameter (c : Char) : Bool :=
  "@*#?-$!".toList.contains c || c.isDigit

namespace Read

/-- Text up to a single quote. -/
def singleQuoted : Nat → Read Chars
  | 0 => wrong "Unterminated quoted string"
  | n + 1 => do
    match ← char with
    | none => wrong "Unterminated quoted string"
    | some c =>
      if c = '\'' then return []
      if c = '\n' then countLine
      return c :: (← singleQuoted n)

/-- Text up to a backquote. A backslash makes a backquote, a dollar sign or a backslash stand for
itself, and between double quotes a double quote too. -/
def backQuoted (quoted : Bool) : Nat → Read Chars
  | 0 => wrong "EOF in backquote substitution"
  | n + 1 => do
    match ← joined with
    | none => wrong "EOF in backquote substitution"
    | some '\x60' => return []
    | some '\\' =>
      let c ← char
      let rest ← backQuoted quoted n
      let kept := match c with
        | none => ['\\']
        | some d => if "\\\x60$".toList.contains d || (quoted && d = '"') then [d] else ['\\', d]
      return kept ++ rest
    | some c =>
      if c = '\n' then countLine
      return c :: (← backQuoted quoted n)

/-- Reads commands from a text of their own. -/
def apart (text : Chars) (commands : Read Statement) : Read Statement := do
  let r ← get
  let own : Reader :=
    { rest := text, nextKey := r.nextKey, documents := r.documents, aliases := r.aliases,
      token := r.token, again := r.again }
  match commands.run own with
  | .error .incomplete => throw .incomplete
  | .error (.wrong line message _) => throw (.wrong line message r.begun)
  | .ok (s, own) =>
    set { r with nextKey := own.nextKey, documents := own.documents, again := false }
    return s

/-- Reads commands in the midst of a word. -/
def nested (commands : Read Statement) : Read Statement := do
  let announced := (← get).announced
  modify fun r => { r with announced := [] }
  let s ← commands
  modify fun r => { r with announced, again := false }
  return s

/-- Goes past the tabs at the start of the text. -/
def dropTabs : Read Unit :=
  modify fun r => { r with rest := r.rest.dropWhile (· = '\t') }

/-- Whether a here-document ends with the line that starts here; if so, that line is passed. -/
def atMark (d : Announced) : Read Bool := do
  modify Reader.looking
  if d.dropTabs then dropTabs
  let r ← get
  match r.rest.isPrefixOf? d.mark, d.mark.isPrefixOf? r.rest with
  | _, some ('\n' :: rest) =>
    set { r with rest, line := r.line + 1, lineEnded := true }
    return true
  | some _, found =>
    if !r.final then throw .incomplete
    match found with
    | none => return false
    | some _ =>
      set { r with rest := [], line := r.line + 1, lineEnded := true }
      return true
  | none, _ => return false

/-- The start of a line in a here-document in which words are expanded. None if the here-document
ends with that line, after joins of lines. Right after tabs that are dropped, lines are not joined:
what would join them is given, and stands for itself. -/
def lineStart (d : Announced) : Read (Option Chars) := do
  let c ← joined
  giveBack c
  let hasTabs := d.dropTabs && c = some '\t'
  if ← atMark d then return none
  let r ← get
  match hasTabs, r.rest with
  | true, ['\\'] => if r.final then return some [] else throw .incomplete
  | true, '\\' :: '\n' :: rest =>
    set { r with rest }
    return some ['\\', '\n']
  | _, _ => return some []

/-- Whether a backslash before a character stays. -/
def keepsBackslash (p : Place) (c : Char) : Bool :=
  match p with
  | .bare => false
  | .mark false => false
  | .braces false _ _ => false
  | .braces true _ _ => !"\\\x60$\"\x7d".toList.contains c
  | .document _ => !"\\\x60$".toList.contains c
  | _ => !"\\\x60$\"".toList.contains c

/-- The message for a script that ends in the midst of a word. -/
def unfinished : Place → Option String
  | .bare => none
  | .mark false => none
  | .mark true => some "Unterminated quoted string"
  | .double => some "Unterminated quoted string"
  | .braces true _ none => some "Unterminated quoted string"
  | .braces _ _ _ => some "Missing '\x7d'"
  | .sum _ _ => some "Missing '))'"
  | .document _ => none

/-- What the characters after the name of a parameter ask for. -/
inductive Ending where
  /-- Nothing follows. -/
  | value
  /-- A word follows. -/
  | standIn (how : StandIn) (emptyIsNone : Bool)
  /-- A pattern follows. -/
  | trim (atEnd longest : Bool)
  /-- Text follows that stands beside the value. -/
  | beside
  /-- What follows is not known. -/
  | invalid

/-- Reads what follows the name of a parameter, from its first character on. -/
def ending (c : Option Char) : Read Ending := do
  let plainly (c : Option Char) (emptyIsNone : Bool) : Read Ending :=
    match c with
    | some '-' => return .standIn .default emptyIsNone
    | some '=' => return .standIn .assign emptyIsNone
    | some '?' => return .standIn .complain emptyIsNone
    | some '+' => return .standIn .replace emptyIsNone
    | some '\x7d' => return if emptyIsNone then .beside else .value
    | _ => return .invalid
  match c with
  | some ':' => plainly (← joined) true
  | some '%' =>
    let d ← joined
    if d = some '%' then return .trim true true
    giveBack d
    return .trim true false
  | some '#' =>
    let d ← joined
    if d = some '#' then return .trim false true
    giveBack d
    return .trim false false
  | _ => plainly c false

/-- The name of a parameter in braces, and whether its length is asked for. None if there is no
name; the character that stands in its place is passed then. -/
def braceName : Read (Option (Chars × Bool)) := do
  let name (c : Char) : Read Chars := do
    return c :: (← charsWhile (if c.isDigit then Char.isDigit else isNameChar) (← bound))
  match ← joined with
  | none => return none
  | some '#' =>
    match ← joined with
    | none => return some (['#'], false)
    | some c =>
      if isNameChar c then return some (← name c, true)
      let d ← joined
      if c = '\x7d' ∨ d ≠ some '\x7d' then
        giveBack d
        giveBack (some c)
        return some (['#'], false)
      giveBack d
      if isSpecialParameter c then return some ([c], true) else return none
  | some c =>
    if isNameStart c ∨ c.isDigit then return some (← name c, false)
    if isSpecialParameter c then return some ([c], false)
    if c = '\x7d' then giveBack (some c)
    return none

mutual

/-- A word, or the rest of one, from a place in it. The end of a bare word is left unread. -/
def wordAt (inner : Inner) : Nat → Place → Read RawWord
  | 0, _ => throw .incomplete
  | n + 1, place => do
    let literal (c : Char) (next : Place) : Read RawWord := do
      if c = '\n' then
        countLine
        modify Reader.looking
        match place.document?, unfinished place with
        | some d, some message =>
          if (← lineStart d).isNone then wrong message
        | _, _ => pure ()
      return RawWord.cons place.isQuoted c (← wordAt inner n next)
    match ← joined with
    | none =>
      match unfinished place with
      | none => return []
      | some message => wrong message
    | some c =>
      match place, c with
      | .double, '"' => return []
      | .mark true, '"' => return []
      | .braces _ false _, '\x7d' => return []
      | .sum depth d, '(' => literal c (.sum (depth + 1) d)
      | .sum (depth + 1) d, ')' => literal c (.sum depth d)
      | .sum 0 _, ')' =>
        let d ← joined
        if d = some ')' then return []
        giveBack d
        literal c place
      | .braces true inQuotes d, '"' =>
        return .quoted [] :: (← wordAt inner n (.braces true (!inQuotes) d))
      | .document d, '\n' =>
        countLine
        match ← lineStart d with
        | none => return [.quoted [c]]
        | some kept =>
          let rest ← wordAt inner n place
          return (c :: kept).foldr (RawWord.cons true) rest
      | _, '\\' =>
        match ← char with
        | none => return RawWord.cons true c (← wordAt inner n place)
        | some d =>
          let rest := RawWord.cons true d (← wordAt inner n place)
          return if keepsBackslash place d then RawWord.cons true c rest else rest
      | .mark _, '$' => literal c place
      | .mark _, '\x60' => literal c place
      | _, '$' => return (← dollar inner n place) ++ (← wordAt inner n place)
      | _, '\x60' =>
        let text ← backQuoted place.isQuoted (← bound)
        let s ← apart text inner.whole
        return .output place.isQuoted s :: (← wordAt inner n place)
      | _, _ =>
        let bare := match place with
          | .bare => true
          | .mark false => true
          | _ => false
        if bare && endsWord c then
          giveBack (some c)
          return []
        else if c = '\'' && !place.isQuoted then
          return .quoted (← singleQuoted (← bound)) :: (← wordAt inner n place)
        else if c = '"' && !place.isQuoted then
          let body ← wordAt inner n (match place with
            | .mark _ => .mark true
            | _ => .double)
          let opening := match body with
            | [.parameter true "@" .value] => []
            | _ => [.quoted []]
          return opening ++ body ++ (← wordAt inner n place)
        else literal c place

/-- What a dollar sign brings in. -/
def dollar (inner : Inner) : Nat → Place → Read RawWord
  | 0, _ => throw .incomplete
  | n + 1, place => do
    let q := place.isQuoted
    match ← joined with
    | none => return RawWord.cons q '$' []
    | some '(' =>
      let d ← joined
      if d = some '(' then return [.sum q (← wordAt inner n (.sum 0 place.document?))]
      giveBack d
      return [.output q (← nested inner.parenthesis)]
    | some '\x7b' =>
      match ← braceName with
      | none =>
        let _ ← wordAt inner n (.braces q false place.document?)
        return [.parameter q "" .invalid]
      | some (name, asksLength) =>
        let name := String.ofList name
        let within (quoted : Bool) : Read RawWord :=
          wordAt inner n (.braces quoted false place.document?)
        let c ← joined
        if asksLength then
          if c = some '\x7d' then return [.parameter q name .length]
          giveBack c
          let _ ← within q
          return [.parameter q name .invalid]
        match ← ending c with
        | .value => return [.parameter q name .value]
        | .standIn how emptyIsNone =>
          return [.parameter q name (.standIn how emptyIsNone (← within q))]
        | .trim atEnd longest =>
          return [.parameter q name (.trim atEnd longest (← within false))]
        | .beside => return .parameter q name .value :: (← within q)
        | .invalid =>
          let _ ← within q
          return [.parameter q name .invalid]
    | some c =>
      if isNameStart c then
        let name := c :: (← charsWhile isNameChar (← bound))
        return [.parameter q (String.ofList name) .value]
      if isSpecialParameter c then return [.parameter q (String.singleton c) .value]
      giveBack (some c)
      return RawWord.cons q '$' []

end

/-- The text of a here-document in which nothing is expanded. -/
def verbatim (d : Announced) : Nat → Read Chars
  | 0 => return []
  | n + 1 => do
    if ← atMark d then return []
    let line ← wholeLine (← bound)
    if line = [] then return []
    return line ++ (← verbatim d n)
where
  /-- A line with its ending. -/
  wholeLine : Nat → Read Chars
    | 0 => return []
    | n + 1 => do
      match ← char with
      | none => return []
      | some '\n' =>
        countLine
        return ['\n']
      | some c => return c :: (← wholeLine n)

/-- The here-documents that were announced on the line that has just ended. -/
def documents (inner : Inner) : List Announced → Read Unit
  | [] => return
  | d :: rest => do
    let n ← bound
    let body ←
      if d.expanded then
        match ← lineStart d with
        | none => pure []
        | some kept =>
          let rest ← wordAt inner (2 * n) (.document d)
          pure (kept.foldr (RawWord.cons true) rest)
      else pure [Part.quoted (← verbatim d n)]
    modify fun r => { r with documents := r.documents ++ [(d.key, body)] }
    documents inner rest

/-- The here-documents that are due. -/
def dueDocuments (inner : Inner) : Read Unit := do
  let due := (← get).announced
  modify fun r => { r with announced := [] }
  documents inner due

end Read
end Script
end LineShell
