import LineShell.Invocation
import LineShell.Proofs.Blanks
import LineShell.Proofs.Segments

/-!
# Writing a line that is read back

A word is written between single quotes; a single quote in it is written outside them, after a
backslash. A command is its words and targets, one space apart, and a pipeline its commands with a
bar between them. Quoted like this, a word is safe from both readings of a line: the scanner of
stages sees no dividing bar in it (`solid_quoted`) and the reader of words sees just this word
(`spells_quoted`).

What quoting does not keep is a word's place among the redirections, because operators are looked
for in the words, when the quotes are gone. `parse_render_iff` gives the limit: the stages of a
written pipeline are its commands as they were written, and a command is read back exactly
when none of its arguments starts with an operator. Its name and its targets may.
-/

namespace LineShell
namespace Word

/-- A character between single quotes. -/
def quoteChar (c : Char) : List Char :=
  if c = '\'' then ['\'', '\\', '\'', '\''] else [c]

/-- A word between single quotes. -/
def quoted (w : List Char) : List Char :=
  '\'' :: (w.flatMap quoteChar ++ ['\''])

/-- A word as it is written. -/
def render (w : String) : String :=
  String.ofList (quoted w.toList)

theorem scan_single_quoted (w rest : List Char) :
    scan .single (w.flatMap quoteChar ++ '\'' :: rest) =
      (Effect.add w).apply (scan .bare rest) := by
  induction w with
  | nil => rfl
  | cons c w ih =>
    rw [List.flatMap_cons, List.append_assoc, quoteChar]
    split_ifs with hc
    · subst hc
      simp [scan, ih, Effect.apply]
    · rw [List.singleton_append, scan_of_plain (show Plain .single c from hc), ih]
      rfl

theorem spells_quoted (w : List Char) : Spells (quoted w) w := by
  intro rest
  rw [quoted, List.cons_append, List.append_assoc, List.singleton_append, scan,
    scan_single_quoted]

/-- **Texts that spell words, one space apart, are read as these words.** -/
theorem split_intercalate {α : Type} {text value : α → List Char} {l : List α}
    (h : ∀ a ∈ l, Spells (text a) (value a) ∧ value a ≠ []) :
    split (List.intercalate [' '] (l.map text)) = l.map value := by
  induction l with
  | nil => rfl
  | cons a l ih =>
    rw [List.forall_mem_cons] at h
    obtain ⟨⟨ha, hne⟩, h⟩ := h
    cases l with
    | nil =>
      have hlast := ha.split_last (y := []) rfl
      rw [List.append_nil, List.append_nil] at hlast
      simp [hlast, hne]
    | cons b l =>
      have hjoin : List.intercalate [' '] ((a :: b :: l).map text) =
          text a ++ ' ' :: List.intercalate [' '] ((b :: l).map text) := by
        simp [List.intercalate_cons_cons]
      rw [hjoin, ha.split_space, ih h]
      simp [hne]

end Word

namespace Stage

/-- Wherever the text starts outside quotes, it holds no dividing bar and leaves the scanner outside
quotes. -/
def Solid (x : List Char) : Prop :=
  ∀ rest, scan .bare (x ++ rest) = (x ++ (scan .bare rest).1, (scan .bare rest).2)

theorem Solid.append {x y : List Char} (hx : Solid x) (hy : Solid y) : Solid (x ++ y) := by
  intro rest
  rw [List.append_assoc, hx, hy, List.append_assoc]

theorem solid_nil : Solid [] := fun _ => rfl

theorem solid_of_plain {x : List Char} (h : ∀ c ∈ x, Word.Plain .bare c ∧ c ≠ '|') : Solid x := by
  intro rest
  induction x with
  | nil => rfl
  | cons c x ih =>
    rw [List.forall_mem_cons] at h
    rw [List.cons_append, scan_of_plain h.1.1 fun _ => h.1.2, ih h.2]
    rfl

theorem solid_space : Solid [' '] := fun _ => rfl

theorem scan_single_quoted (w rest : List Char) :
    scan .single (w.flatMap Word.quoteChar ++ '\'' :: rest) =
      (w.flatMap Word.quoteChar ++ '\'' :: (scan .bare rest).1, (scan .bare rest).2) := by
  induction w with
  | nil => rfl
  | cons c w ih =>
    rw [List.flatMap_cons, List.append_assoc, Word.quoteChar]
    split_ifs with hc
    · subst hc
      have hescaped (cs : List Char) : scan .single ('\'' :: '\\' :: '\'' :: '\'' :: cs) =
          ('\'' :: '\\' :: '\'' :: '\'' :: (scan .single cs).1, (scan .single cs).2) := rfl
      simp [hescaped, ih]
    · rw [List.singleton_append, scan_of_plain (show Word.Plain .single c from hc) (by simp), ih]
      simp

theorem solid_quoted (w : List Char) : Solid (Word.quoted w) := by
  intro rest
  rw [Word.quoted, List.cons_append, List.append_assoc, List.singleton_append, scan_quote,
    scan_single_quoted]
  simp

theorem solid_intercalate {xs : List (List Char)} (h : ∀ x ∈ xs, Solid x) :
    Solid (List.intercalate [' '] xs) := by
  induction xs with
  | nil => exact solid_nil
  | cons x xs ih =>
    rw [List.forall_mem_cons] at h
    cases xs with
    | nil => simpa using h.1
    | cons y ys =>
      rw [List.intercalate_cons_cons]
      exact (h.1.append solid_space).append (ih h.2)

/-- Texts that can be joined by bars between spaces and divided again. -/
inductive Joinable : List (List Char) → Prop where
  /-- The last text is trimmed and holds no dividing bar. -/
  | last {x : List Char} (htrim : Text.trim x = x) (hscan : scan .bare x = (x, [])) : Joinable [x]
  /-- Any other text is trimmed, and the scanner is outside quotes after the space behind it. -/
  | cons {x : List Char} {xs : List (List Char)} (htrim : Text.trim x = x)
      (hsolid : Solid (x ++ [' '])) (hrest : Joinable xs) : Joinable (x :: xs)

theorem joinable_of_solid {xs : List (List Char)} (hne : xs ≠ [])
    (h : ∀ x ∈ xs, Solid x ∧ Text.trim x = x) : Joinable xs := by
  induction xs with
  | nil => exact absurd rfl hne
  | cons x xs ih =>
    rw [List.forall_mem_cons] at h
    obtain ⟨⟨hsolid, htrim⟩, hxs⟩ := h
    by_cases hnil : xs = []
    · have hscan := hsolid []
      rw [List.append_nil, scan_nil, List.append_nil] at hscan
      exact hnil ▸ .last htrim hscan
    · exact .cons htrim (hsolid.append solid_space) (ih hnil hxs)

/-- **The stages of a line that is joined from texts are these texts.** After a bar the line goes on
with a space, so the first text may stand after blanks. -/
theorem Joinable.map_trim_segments {xs : List (List Char)} (h : Joinable xs) {pad : List Char}
    (hpad : Solid pad) (hblank : ∀ c ∈ pad, Text.isBlank c) :
    (segments (pad ++ List.intercalate [' ', '|', ' '] xs)).map Text.trim = xs := by
  have hspace : ∀ c ∈ [' '], Text.isBlank c := List.forall_mem_singleton.2 (by decide)
  induction h generalizing pad with
  | @last x htrim hscan =>
    have hkept := Text.trim_append_blanks hblank x (b := []) (by simp)
    rw [List.append_nil, htrim] at hkept
    rw [List.intercalate_singleton, segments_eq, hpad, hscan, List.map_singleton, hkept]
  | @cons x xs htrim hsolid hrest ih =>
    have hne : xs ≠ [] := by
      rintro rfl
      cases hrest
    have hline : pad ++ List.intercalate [' ', '|', ' '] (x :: xs) =
        pad ++ ((x ++ [' ']) ++ '|' :: ([' '] ++ List.intercalate [' ', '|', ' '] xs)) := by
      simp [List.intercalate_cons_of_ne_nil hne]
    rw [hline, segments_eq, hpad, hsolid, scan_bar, List.append_nil, List.map_cons,
      ih solid_space hspace, ← List.append_assoc, Text.trim_append_blanks hblank x hspace, htrim]

theorem ofLine_intercalate {stages : List String} (h : Joinable (stages.map String.toList)) :
    ofLine (" | ".intercalate stages) = stages := by
  have hsegments := h.map_trim_segments solid_nil (by simp)
  have hofLine : ofLine (" | ".intercalate stages) =
      ((segments (" | ".intercalate stages).toList).map Text.trim).map String.ofList := by
    rw [ofLine, List.map_map]
    rfl
  rw [List.nil_append] at hsegments
  rw [hofLine, String.toList_intercalate]
  refine (congrArg _ hsegments).trans ?_
  simp

end Stage

namespace Redirection

/-- The word starts with an operator. -/
def StartsWithOperator (w : String) : Prop :=
  ['>'] <+: w.toList ∨ ['1', '>'] <+: w.toList ∨ ['2', '>'] <+: w.toList

instance (w : String) : Decidable (StartsWithOperator w) :=
  inferInstanceAs (Decidable (_ ∨ _ ∨ _))

theorem isPrefixOf?_eq_none_iff {x y : List Char} : x.isPrefixOf? y = none ↔ ¬ x <+: y := by
  simp only [Option.eq_none_iff_forall_ne_some, ne_eq, List.isPrefixOf?_eq_some_iff_append_eq,
    List.IsPrefix, not_exists]

theorem operator?_eq_none_iff_spellings {w : String} :
    operator? w = none ↔ ∀ p ∈ spellings, ¬ p.1.toList <+: w.toList := by
  simp only [operator?, List.findSome?_eq_none_iff, Option.map_eq_none_iff, isPrefixOf?_eq_none_iff]

/-- **The words that are read as operators** are those that start with `>`, `1>` or `2>`: every
other spelling extends one of these. -/
theorem operator?_eq_none_iff {w : String} : operator? w = none ↔ ¬ StartsWithOperator w := by
  rw [operator?_eq_none_iff_spellings]
  constructor
  · rintro h (hw | hw | hw)
    · exact h (">", ⟨.out, .truncate⟩) (by decide) hw
    · exact h ("1>", ⟨.out, .truncate⟩) (by decide) hw
    · exact h ("2>", ⟨.err, .truncate⟩) (by decide) hw
  · intro h p hp hw
    have hspelling : ∀ p ∈ spellings, StartsWithOperator p.1 := by decide
    exact h ((hspelling p hp).imp (·.trans hw) (Or.imp (·.trans hw) (·.trans hw)))

/-- An argument is a word that is not read as an operator. -/
theorem operator?_eq_none_of_mem_extract {ws : List String} {a : String}
    (h : a ∈ (extract ws).1) : operator? a = none := by
  fun_induction extract ws with
  | case1 => simp at h
  | case2 w rest hw args r hr ih =>
    rcases List.mem_cons.1 h with rfl | h
    · exact hw
    · exact ih (by rwa [hr])
  | case3 => simp at h
  | case4 w op hw path rest args r hr ih => exact ih (by rwa [hr])
  | case5 w rest op path hne hw args r hr ih => exact ih (by rwa [hr])

theorem extract_append {args : List String} (h : ∀ a ∈ args, ¬ StartsWithOperator a)
    (ws : List String) : extract (args ++ ws) = (args ++ (extract ws).1, (extract ws).2) := by
  induction args with
  | nil => rfl
  | cons a args ih =>
    rw [List.forall_mem_cons] at h
    rw [List.cons_append, extract, operator?_eq_none_iff.2 h.1]
    simp [ih h.2]

/-- An operator as it is written. -/
def Operator.render : Operator → String
  | ⟨.out, .truncate⟩ => ">"
  | ⟨.out, .append⟩ => ">>"
  | ⟨.err, .truncate⟩ => "2>"
  | ⟨.err, .append⟩ => "2>>"

theorem render_mem_spellings (op : Operator) : (op.render, op) ∈ spellings := by
  rcases op with ⟨_ | _, _ | _⟩ <;> decide

/-- The characters of an operator mean nothing to quoting. -/
theorem plain_of_mem_spellings {p : String × Operator} (hp : p ∈ spellings) :
    ∀ c ∈ p.1.toList, Word.Plain .bare c ∧ c ≠ '|' := by
  have hchars : ∀ p ∈ spellings, ∀ c ∈ p.1.toList, c = '>' ∨ c = '1' ∨ c = '2' := by
    simp [spellings]
  intro c hc
  rcases hchars p hp c hc with rfl | rfl | rfl <;> simp [Word.Plain]

/-- A written operator is read as this operator, with its target in the next word. -/
theorem operator?_render (op : Operator) : operator? op.render = some (op, []) := by
  rcases op with ⟨_ | _, _ | _⟩ <;> rfl

theorem extract_operator (op : Operator) (path : String) (ws : List String) :
    extract (op.render :: path :: ws) = ((extract ws).1, (extract ws).2.orSet op path) := by
  rw [extract, operator?_render]

end Redirection

/-- A part of a written command: a word, which is quoted, or an operator, which is not. -/
inductive Token where
  /-- A word. -/
  | word (w : String)
  /-- An operator before its target. -/
  | operator (op : Redirection.Operator)
  deriving DecidableEq, Repr

namespace Token

/-- The part as it is written. -/
def text : Token → String
  | .word w => Word.render w
  | .operator op => op.render

/-- The part as it is read back. -/
def value : Token → String
  | .word w => w
  | .operator op => op.render

theorem plain_operator (op : Redirection.Operator) :
    ∀ c ∈ op.render.toList, Word.Plain .bare c ∧ c ≠ '|' :=
  Redirection.plain_of_mem_spellings (Redirection.render_mem_spellings op)

theorem spells_text (t : Token) : Word.Spells t.text.toList t.value.toList := by
  cases t with
  | word w =>
    rw [text, Word.render, String.toList_ofList]
    exact Word.spells_quoted w.toList
  | operator op => exact Word.spells_of_plain fun c hc => (plain_operator op c hc).1

theorem solid_text (t : Token) : Stage.Solid t.text.toList := by
  cases t with
  | word w =>
    rw [text, Word.render, String.toList_ofList]
    exact Stage.solid_quoted w.toList
  | operator op => exact Stage.solid_of_plain (plain_operator op)

end Token

namespace Invocation

/-- The words of a command are not empty. -/
structure NoEmptyWord (inv : Invocation) : Prop where
  /-- Its name. -/
  name : inv.name ≠ ""
  /-- Its arguments. -/
  args : ∀ a ∈ inv.args, a ≠ ""
  /-- The target of its standard output. -/
  stdout : ∀ t ∈ inv.redirection.stdout, t.path ≠ ""
  /-- The target of its standard error. -/
  stderr : ∀ t ∈ inv.redirection.stderr, t.path ≠ ""

/-- The parts of a stream's target. -/
def targetTokens (stream : Redirection.Stream) : Option Target → List Token
  | none => []
  | some t => [.operator ⟨stream, t.mode⟩, .word t.path]

/-- The parts of a command: its name, its arguments and its targets. -/
def tokens (inv : Invocation) : List Token :=
  (inv.name :: inv.args).map .word ++
    (targetTokens .out inv.redirection.stdout ++ targetTokens .err inv.redirection.stderr)

/-- A command as it is written, its parts one space apart. -/
def render (inv : Invocation) : String :=
  " ".intercalate (inv.tokens.map Token.text)

/-- A path after an operator of its own is a target, however it is spelled. -/
theorem extract_targetTokens (out err : Option Target) :
    Redirection.extract ((targetTokens .out out ++ targetTokens .err err).map Token.value) =
      ([], ⟨out, err⟩) := by
  cases out <;> cases err <;>
    simp [targetTokens, Token.value, Redirection.extract_operator, Redirection.extract,
      Redirection.orSet]

theorem toList_render (inv : Invocation) :
    inv.render.toList = List.intercalate [' '] (inv.tokens.map (·.text.toList)) := by
  rw [render, String.toList_intercalate, List.map_map]
  rfl

theorem value_ne_empty {inv : Invocation} (h : inv.NoEmptyWord) :
    ∀ t ∈ inv.tokens, t.value ≠ "" := by
  have hop : ∀ op : Redirection.Operator, op.render ≠ "" := by
    rintro ⟨_ | _, _ | _⟩ <;> decide
  have htarget : ∀ (stream : Redirection.Stream) (o : Option Target), (∀ t ∈ o, t.path ≠ "") →
      ∀ t ∈ targetTokens stream o, t.value ≠ "" := by
    rintro stream (_ | t) ho
    · simp [targetTokens]
    · simpa [targetTokens, Token.value, hop] using ho t rfl
  simp only [tokens, List.forall_mem_append, List.forall_mem_map]
  exact ⟨List.forall_mem_cons.2 ⟨h.name, h.args⟩, htarget .out _ h.stdout,
    htarget .err _ h.stderr⟩

/-- **A written command has the words of the command**, its operators among them. -/
theorem ofLine_render {inv : Invocation} (h : inv.NoEmptyWord) :
    Word.ofLine inv.render = inv.tokens.map Token.value := by
  have hparts : ∀ t ∈ inv.tokens,
      Word.Spells t.text.toList t.value.toList ∧ t.value.toList ≠ [] := fun t ht =>
    ⟨t.spells_text, fun hnil => value_ne_empty h t ht (String.toList_eq_nil_iff.1 hnil)⟩
  rw [Word.ofLine, toList_render, Word.split_intercalate hparts, List.map_map]
  simp

theorem tokens_map_value (inv : Invocation) :
    inv.tokens.map Token.value = inv.name :: (inv.args ++
      (targetTokens .out inv.redirection.stdout ++
        targetTokens .err inv.redirection.stderr).map Token.value) := by
  have hword : Token.value ∘ Token.word = id := rfl
  rw [tokens, List.map_append, List.map_map, hword, List.map_id, List.cons_append]

/-- **A written command is read back exactly when no argument starts with an operator.** -/
theorem ofStage?_render_iff {inv : Invocation} (h : inv.NoEmptyWord) :
    ofStage? inv.render = some inv ↔ ∀ a ∈ inv.args, ¬ Redirection.StartsWithOperator a := by
  rw [ofStage?, ofLine_render h, tokens_map_value, ofWords?]
  constructor
  · intro hread a ha
    have hargs := congrArg Invocation.args (Option.some.inj hread)
    exact Redirection.operator?_eq_none_iff.1
      (Redirection.operator?_eq_none_of_mem_extract (hargs ▸ ha))
  · intro hargs
    rw [Redirection.extract_append hargs, extract_targetTokens, List.append_nil]

/-- A written command starts with the quote before its name. -/
theorem head?_render (inv : Invocation) : inv.render.toList.head? = some '\'' := by
  have htokens : inv.tokens.map (·.text.toList) =
      ('\'' :: (inv.name.toList.flatMap Word.quoteChar ++ ['\''])) ::
        (inv.tokens.tail.map (·.text.toList)) := by
    simp [tokens, Token.text, Word.render, Word.quoted]
  rw [toList_render, htokens, List.intercalate_cons_cons_left, List.head?_cons]

/-- The last part of a command is a word. -/
theorem exists_tokens_eq (inv : Invocation) :
    ∃ (init : List Token) (w : String), inv.tokens = init ++ [.word w] := by
  rw [tokens]
  rcases inv.redirection.stderr with _ | err
  · rcases inv.redirection.stdout with _ | out
    · obtain ⟨init, w, h⟩ :=
        (List.eq_nil_or_concat (inv.name :: inv.args)).resolve_left (List.cons_ne_nil _ _)
      exact ⟨init.map .word, w, by simp [h, targetTokens]⟩
    · exact ⟨(inv.name :: inv.args).map .word ++ [.operator ⟨.out, out.mode⟩], out.path,
        by simp [targetTokens]⟩
  · exact ⟨(inv.name :: inv.args).map .word ++ targetTokens .out inv.redirection.stdout ++
      [.operator ⟨.err, err.mode⟩], err.path, by simp [targetTokens]⟩

theorem exists_intercalate_concat (sep : List Char) (xs : List (List Char)) (y : List Char) :
    ∃ z, List.intercalate sep (xs ++ [y]) = z ++ y := by
  induction xs with
  | nil => exact ⟨[], by simp⟩
  | cons x xs ih =>
    obtain ⟨z, hz⟩ := ih
    refine ⟨x ++ sep ++ z, ?_⟩
    rw [List.cons_append, List.intercalate_cons_of_ne_nil (by simp), hz, List.append_assoc _ z]

/-- A written command ends with the quote after its last word. -/
theorem getLast?_render (inv : Invocation) : inv.render.toList.getLast? = some '\'' := by
  obtain ⟨init, w, h⟩ := exists_tokens_eq inv
  obtain ⟨z, hz⟩ :=
    exists_intercalate_concat [' '] (init.map (·.text.toList)) (Word.quoted w.toList)
  have htext : (Token.word w).text.toList = Word.quoted w.toList := String.toList_ofList
  rw [toList_render, h, List.map_append, List.map_singleton, htext, hz, Word.quoted,
    ← List.cons_append, ← List.append_assoc, List.getLast?_concat]

theorem solid_render (inv : Invocation) : Stage.Solid inv.render.toList := by
  rw [toList_render]
  exact Stage.solid_intercalate (List.forall_mem_map.2 fun t _ => t.solid_text)

end Invocation

namespace Line

/-- A pipeline as it is written, its commands a bar between spaces apart. -/
def render (invs : List Invocation) : String :=
  " | ".intercalate (invs.map Invocation.render)

/-- The stages of a written pipeline are its commands as they are written. -/
theorem ofLine_render {invs : List Invocation} (hne : invs ≠ []) :
    Stage.ofLine (render invs) = invs.map Invocation.render := by
  have hquote : ¬ Text.isBlank '\'' := by decide
  refine Stage.ofLine_intercalate (Stage.joinable_of_solid (by simpa using hne) ?_)
  rw [List.map_map, List.forall_mem_map]
  intro inv _
  exact ⟨inv.solid_render, Text.trim_eq_self inv.head?_render hquote inv.getLast?_render hquote⟩

/-- **Writing a pipeline and reading it back.** Whatever characters the names, arguments and paths
of some commands are made of, as long as none of them is empty, the stages of the written pipeline
are the written commands, and a written command is read back as it was exactly when none of its
arguments starts with an operator. -/
theorem parse_render_iff (invs : List Invocation) (hne : invs ≠ [])
    (hwords : ∀ inv ∈ invs, inv.NoEmptyWord) :
    Stage.ofLine (render invs) = invs.map Invocation.render ∧
      ∀ inv ∈ invs, (Invocation.ofStage? inv.render = some inv ↔
        ∀ a ∈ inv.args, ¬ Redirection.StartsWithOperator a) :=
  ⟨ofLine_render hne, fun inv hinv => Invocation.ofStage?_render_iff (hwords inv hinv)⟩

/-- A command with quotes, bars, a line feed and operators in its name and paths, and one with an
argument that starts with an operator. -/
theorem parse_render_of_operator_argument :
    let quotes : Invocation :=
      ⟨">it's", ["a | b", "\\\"\n"], ⟨some ⟨"2>|", .append⟩, some ⟨" ", .truncate⟩⟩⟩
    let operator : Invocation := ⟨"echo", ["2>e"], {}⟩
    Stage.ofLine (render [quotes, operator]) = [quotes.render, operator.render] ∧
      Invocation.ofStage? quotes.render = some quotes ∧
      Invocation.ofStage? operator.render ≠ some operator := by
  intro quotes operator
  have hwords : ∀ inv ∈ [quotes, operator], inv.NoEmptyWord := by
    simp only [List.forall_mem_cons, List.not_mem_nil, false_implies, implies_true, and_true]
    exact ⟨⟨by decide, by decide, by decide, by decide⟩,
      ⟨by decide, by decide, by decide, by decide⟩⟩
  obtain ⟨hstages, hread⟩ := parse_render_iff [quotes, operator] (by simp) hwords
  exact ⟨hstages, (hread quotes (by simp)).2 (by decide),
    fun h => (hread operator (by simp)).1 h "2>e" (by decide) (by decide)⟩

end Line
end LineShell
