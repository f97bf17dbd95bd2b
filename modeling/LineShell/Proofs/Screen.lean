import LineShell.Highlight
import LineShell.Machine.Instance
import LineShell.Proofs.Folding
import LineShell.Proofs.SortedNames
import LineShell.Proofs.Trimming

/-!
# What the screen shows of a coloured line

A screen takes characters one by one. It shows them in the look that is switched on, and keeps the
control sequences to itself: an escape character, a bracket, a number and the letter `m` switch
something on, or all of it off. So what it shows is the text without its control sequences, and what
is switched on at the end is what has been left open.

A word without an escape character is shown as it is (`foldl_put_of_plain`), and in a style it is shown
in the look of the style, with nothing left on after it (`foldl_put_spell`). Words with spaces between
them are then shown one after the other, all spaces in between and in no look of their own
(`foldl_put_intercalate`). Which words have a style is told by their places: `styleWords` goes through
the line with the first word that is not empty still ahead or behind, and `styleWords_eq` says the
same of each word by the words before it.
-/

namespace LineShell
namespace Highlight

/-! ### The screen -/

/-- The colours of characters. -/
inductive Colour where
  /-- For commands that cannot be run. -/
  | red
  /-- For options. -/
  | yellow
  /-- For commands that can be run. -/
  | cyan
  deriving DecidableEq, Repr

/-- How a character looks. -/
structure Look where
  /-- Its colour, if it has one of its own. -/
  colour : Option Colour
  /-- Whether it is bold. -/
  bold : Bool
  deriving DecidableEq, Repr

/-- The look with nothing switched on. -/
def Look.plain : Look := ⟨none, false⟩

/-- The look after a control sequence with a number. -/
def Look.switch (look : Look) : Nat → Look
  | 0 => plain
  | 1 => { look with bold := true }
  | 31 => { look with colour := some .red }
  | 33 => { look with colour := some .yellow }
  | 36 => { look with colour := some .cyan }
  | _ => look

/-- Where a screen is in its input. -/
inductive Mode where
  /-- Outside of control sequences. -/
  | text
  /-- After an escape character. -/
  | escape
  /-- In the number of a control sequence. -/
  | number (n : Nat)
  deriving DecidableEq, Repr

/-- A screen. -/
structure Screen where
  /-- The characters that are shown, with their looks. -/
  cells : List (Char × Look) := []
  /-- The look that is switched on. -/
  look : Look := .plain
  /-- Where it is in its input. -/
  mode : Mode := .text
  deriving DecidableEq, Repr

namespace Screen

/-- Takes one character. -/
def put (sc : Screen) (c : Char) : Screen :=
  match sc.mode with
  | .text =>
    if c = '\x1b' then { sc with mode := .escape }
    else { sc with cells := sc.cells ++ [(c, sc.look)] }
  | .escape => { sc with mode := if c = '[' then .number 0 else .text }
  | .number n =>
    if c = 'm' then { sc with look := sc.look.switch n, mode := .text }
    else { sc with mode := .number (10 * n + (c.toNat - '0'.toNat)) }

/-- The screen after a text. -/
def ofText (text : String) : Screen :=
  text.toList.foldl put {}

/-- The text that is shown: what was taken without the control sequences. -/
def shown (sc : Screen) : String :=
  String.ofList (sc.cells.map Prod.fst)

end Screen

/-- The look of a style. -/
def Style.look : Style → Look
  | known => ⟨some .cyan, true⟩
  | unknown => ⟨some .red, true⟩
  | option => ⟨some .yellow, false⟩

/-- The look of a word that may have a style. -/
def lookOf (style : Option Style) : Look :=
  style.elim .plain Style.look

/-- A word that may have a style, with the control sequences that switch it on and off. -/
def spell (style : Option Style) (word : String) : String :=
  style.elim word (·.apply word)

section Put

variable {cells : List (Char × Look)} {look : Look}

/-- Characters that are no part of a control sequence are shown. -/
theorem foldl_put_of_plain {cs : List Char} (h : '\x1b' ∉ cs) :
    cs.foldl Screen.put ⟨cells, look, .text⟩ = ⟨cells ++ cs.map (·, look), look, .text⟩ := by
  induction cs generalizing cells with
  | nil => simp
  | cons c cs ih =>
    obtain ⟨hc, hcs⟩ := not_or.1 (mt List.mem_cons.2 h)
    have hput : Screen.put ⟨cells, look, .text⟩ c = ⟨cells ++ [(c, look)], look, .text⟩ :=
      if_neg (Ne.symm hc)
    rw [List.foldl_cons, hput, ih hcs, List.append_assoc, List.map_cons, List.singleton_append]

theorem foldl_put_start (style : Style) :
    style.start.toList.foldl Screen.put ⟨cells, .plain, .text⟩ = ⟨cells, style.look, .text⟩ := by
  cases style <;> rfl

theorem foldl_put_reset :
    reset.toList.foldl Screen.put ⟨cells, look, .text⟩ = ⟨cells, .plain, .text⟩ :=
  rfl

/-- **A word is shown in the look of its style**, which is switched off after it. -/
theorem foldl_put_spell (style : Option Style) {word : String} (h : '\x1b' ∉ word.toList) :
    (spell style word).toList.foldl Screen.put ⟨cells, .plain, .text⟩ =
      ⟨cells ++ word.toList.map (·, lookOf style), .plain, .text⟩ := by
  cases style with
  | none => exact foldl_put_of_plain h
  | some style =>
    show (style.start ++ word ++ reset).toList.foldl Screen.put _ = _
    rw [String.toList_append, String.toList_append, List.foldl_append, List.foldl_append,
      foldl_put_start, foldl_put_of_plain h, foldl_put_reset]
    rfl

/-- Words with spaces between them are shown with these spaces. -/
theorem foldl_put_intercalate {words : List (Option Style × String)}
    (h : ∀ w ∈ words, '\x1b' ∉ w.2.toList) :
    (List.intercalate [' '] (words.map fun w => (spell w.1 w.2).toList)).foldl Screen.put
        ⟨cells, .plain, .text⟩ =
      ⟨cells ++ List.intercalate [(' ', .plain)] (words.map fun w => w.2.toList.map (·, lookOf w.1)),
        .plain, .text⟩ := by
  induction words generalizing cells with
  | nil => simp
  | cons w words ih =>
    rw [List.forall_mem_cons] at h
    cases words with
    | nil => simpa using foldl_put_spell w.1 h.1
    | cons w' words =>
      simp only [List.map_cons, List.intercalate_cons_cons, List.foldl_append] at ih ⊢
      rw [foldl_put_spell w.1 h.1, foldl_put_of_plain (by decide), ih h.2]
      simp

end Put

/-! ### The words of a line -/

section Words

variable {σ : Type} [Host σ] {sp : SearchPath} {s : σ}

/-- The style of a word after others: the first word that is not empty is the command, and a later one
that starts with a dash is an option. -/
def style? (sp : SearchPath) (s : σ) (before : List String) (word : String) : Option Style :=
  if word = "" then none
  else if ∀ w ∈ before, w = "" then some (commandStyle sp s word)
  else if word.toList.head? = some '-' then some .option
  else none

/-- Words with their styles, after others. -/
def styled (sp : SearchPath) (s : σ) (before : List String) :
    List String → List (Option Style × String)
  | [] => []
  | word :: rest => (style? sp s before word, word) :: styled sp s (before ++ [word]) rest

theorem map_snd_styled (sp : SearchPath) (s : σ) (before words : List String) :
    (styled sp s before words).map Prod.snd = words := by
  induction words generalizing before with
  | nil => rfl
  | cons word rest ih => rw [styled, List.map_cons, ih]

theorem styled_append (before words words' : List String) :
    styled sp s before (words ++ words') =
      styled sp s before words ++ styled sp s (before ++ words) words' := by
  induction words generalizing before with
  | nil => simp [styled]
  | cons word rest ih => simp [styled, ih]

/-- A word after the command is told by itself. -/
theorem styleArgument_eq (sp : SearchPath) (s : σ) {before : List String}
    (h : ¬ ∀ w ∈ before, w = "") (word : String) :
    styleArgument word = spell (style? sp s before word) word := by
  have hdash : Names.startsWith word "-" ↔ word.toList.head? = some '-' :=
    Names.startsWith_iff_head? rfl
  by_cases hempty : word = ""
  · subst hempty
    simp [styleArgument, style?, spell, Names.startsWith]
  · rw [styleArgument, style?, if_neg hempty, if_neg h]
    by_cases hhead : word.toList.head? = some '-'
    · rw [if_pos (hdash.2 hhead), if_pos hhead]
      rfl
    · rw [if_neg (mt hdash.1 hhead), if_neg hhead]
      rfl

theorem map_styleArgument_eq (sp : SearchPath) (s : σ) {before : List String}
    (h : ¬ ∀ w ∈ before, w = "") (words : List String) :
    words.map styleArgument = (styled sp s before words).map fun w => spell w.1 w.2 := by
  induction words generalizing before with
  | nil => rfl
  | cons word rest ih =>
    have hmore : ¬ ∀ w ∈ before ++ [word], w = "" :=
      mt (fun hall w hw => hall w (List.mem_append_left _ hw)) h
    rw [List.map_cons, styleArgument_eq sp s h, ih hmore, styled, List.map_cons]

/-- **Each word is spelled in the style that the words before it give it.** -/
theorem styleWords_eq {before : List String} (h : ∀ w ∈ before, w = "") (words : List String) :
    styleWords sp s words = (styled sp s before words).map fun w => spell w.1 w.2 := by
  induction words generalizing before with
  | nil => rfl
  | cons word rest ih =>
    rw [styleWords, styled, List.map_cons]
    by_cases hempty : word = ""
    · have hmore : ∀ w ∈ before ++ [word], w = "" := by
        simpa [hempty, or_imp, forall_and] using h
      rw [if_pos hempty, ih hmore, style?, if_pos hempty]
      rfl
    · -- the command is met, and all the words after it are arguments
      have hmore : ¬ ∀ w ∈ before ++ [word], w = "" := fun hall => hempty (hall word (by simp))
      rw [if_neg hempty, map_styleArgument_eq sp s hmore, style?, if_neg hempty, if_pos h]
      rfl

/-- The texts between single spaces of a text. -/
structure Spaced (text : String) (words : List String) : Prop where
  /-- There is one at least, be it empty. -/
  ne_nil : words ≠ []
  /-- None of them holds a space. -/
  free : ∀ w ∈ words, ' ' ∉ w.toList
  /-- With spaces between them they make up the text. -/
  joined : " ".intercalate words = text

theorem spaced_splitOn (text : String) :
    Spaced text ((text.toList.splitOn ' ').map String.ofList) where
  ne_nil := by simp
  free w hw := by
    obtain ⟨cs, hcs, rfl⟩ := List.mem_map.1 hw
    rw [String.toList_ofList]
    exact Path.not_mem_of_mem_splitOn hcs
  joined := by
    rw [← String.toList_inj, String.toList_intercalate, List.map_map]
    simp

theorem Spaced.splitOn_eq {text : String} {words : List String} (h : Spaced text words) :
    (text.toList.splitOn ' ').map String.ofList = words := by
  have hfree : ∀ l ∈ words.map String.toList, ' ' ∉ l := by simpa using h.free
  rw [← h.joined, String.toList_intercalate]
  have hsplit := List.splitOn_intercalate ' ' hfree (by simpa using h.ne_nil)
  simpa using congrArg (List.map String.ofList) hsplit

/-- **A coloured line is its words in their styles**, with the spaces that were there. -/
theorem Spaced.line_eq {text : String} {words : List String} (h : Spaced text words)
    (sp : SearchPath) (s : σ) :
    line sp true s text = " ".intercalate ((styled sp s [] words).map fun w => spell w.1 w.2) := by
  have hnone : ∀ w ∈ ([] : List String), w = "" := by simp
  rw [line, if_pos rfl, h.splitOn_eq, styleWords_eq hnone]

/-- A character that is not in a text is not in its words. -/
theorem Spaced.not_mem {text : String} {words : List String} (h : Spaced text words) {c : Char}
    (hc : c ∉ text.toList) : ∀ w ∈ words, c ∉ w.toList := by
  intro w hw hmem
  refine hc ?_
  rw [← h.joined, String.toList_intercalate]
  exact Stage.mem_intercalate (List.mem_map_of_mem hw) hmem

/-- **What is shown of a coloured line** are its words in their looks, with plain spaces between
them, and nothing is left switched on. -/
theorem Spaced.ofText_line {text : String} {words : List String} (h : Spaced text words)
    (hescape : '\x1b' ∉ text.toList) (sp : SearchPath) (s : σ) :
    Screen.ofText (line sp true s text) =
      ⟨List.intercalate [(' ', .plain)]
        ((styled sp s [] words).map fun w => w.2.toList.map (·, lookOf w.1)), .plain, .text⟩ := by
  have hplain : ∀ w ∈ styled sp s [] words, '\x1b' ∉ w.2.toList := by
    intro w hw
    refine h.not_mem hescape w.2 ?_
    rw [← map_snd_styled sp s [] words]
    exact List.mem_map_of_mem hw
  rw [Screen.ofText, h.line_eq, String.toList_intercalate, List.map_map]
  exact foldl_put_intercalate hplain

theorem map_fst_intercalate (words : List (Option Style × String)) :
    (List.intercalate [(' ', Look.plain)]
        (words.map fun w => w.2.toList.map (·, lookOf w.1))).map Prod.fst =
      List.intercalate [' '] ((words.map Prod.snd).map String.toList) := by
  induction words with
  | nil => rfl
  | cons w words ih =>
    cases words with
    | nil => simp [Function.comp_def]
    | cons w' words =>
      simp only [List.map_cons, List.intercalate_cons_cons, List.map_append] at ih ⊢
      rw [ih]
      simp [Function.comp_def]

theorem Spaced.shown_line {text : String} {words : List String} (h : Spaced text words)
    (hescape : '\x1b' ∉ text.toList) (sp : SearchPath) (s : σ) :
    (Screen.ofText (line sp true s text)).shown = text := by
  rw [h.ofText_line hescape, Screen.shown, map_fst_intercalate, map_snd_styled,
    ← String.toList_inj, String.toList_ofList, ← h.joined, String.toList_intercalate]
  rfl

theorem isSome_style?_iff {before : List String} {word : String} :
    (style? sp s before word).isSome ↔
      word ≠ "" ∧ ((∀ w ∈ before, w = "") ∨ word.toList.head? = some '-') := by
  rw [style?]
  split_ifs with hempty hbefore hdash
  · simp [hempty]
  · simp only [Option.isSome_some, true_iff]
    exact ⟨hempty, .inl hbefore⟩
  · simp only [Option.isSome_some, true_iff]
    exact ⟨hempty, .inr hdash⟩
  · simp only [Option.isSome_none, Bool.false_eq_true, false_iff]
    exact fun h => h.2.elim hbefore hdash

/-- The style of a word in its place is told by the words before it. -/
theorem getElem?_styled (sp : SearchPath) (s : σ) (before : List String) (word : String)
    (after : List String) :
    (styled sp s [] (before ++ word :: after))[before.length]? =
      some (style? sp s before word, word) := by
  have hlength : (styled sp s [] before).length = before.length := by
    rw [← List.length_map Prod.snd, map_snd_styled]
  rw [styled_append, List.nil_append, styled, ← hlength, List.getElem?_append_right (Nat.le_refl _),
    Nat.sub_self, List.getElem?_cons_zero]

/-- **Colours keep the text.** Without colours a line is shown as it is. With colours it is its words
between single spaces, each alone or between the control sequences that switch its style on and off;
a word has a style if it is the first one that is not empty, or a later one that starts with a dash.

If no escape character was typed, the screen shows the text as it was typed, every space included.
It shows each word in the look of its style and everything else plain, and nothing is left switched
on at the end. -/
theorem colours_keep_text (sp : SearchPath) (s : σ) (text : String) :
    line sp false s text = text ∧
    ∃ words, Spaced text words ∧
      line sp true s text = " ".intercalate ((styled sp s [] words).map fun w => spell w.1 w.2) ∧
      (∀ before word after, words = before ++ word :: after → ∃ style,
        (styled sp s [] words)[before.length]? = some (style, word) ∧
        (style.isSome ↔ word ≠ "" ∧ ((∀ w ∈ before, w = "") ∨ word.toList.head? = some '-'))) ∧
      ('\x1b' ∉ text.toList →
        (Screen.ofText (line sp true s text)).shown = text ∧
        Screen.ofText (line sp true s text) =
          ⟨List.intercalate [(' ', .plain)]
            ((styled sp s [] words).map fun w => w.2.toList.map (·, lookOf w.1)),
            .plain, .text⟩) := by
  have hwords := spaced_splitOn text
  refine ⟨rfl, _, hwords, hwords.line_eq sp s, ?_, fun hescape => ?_⟩
  · intro before word after hplace
    rw [hplace]
    exact ⟨_, getElem?_styled sp s before word after, isSome_style?_iff⟩
  · exact ⟨hwords.shown_line hescape sp s, hwords.ofText_line hescape sp s⟩

end Words

/-- The builtin and the option are styled, a word with a dash inside is not, and all spaces are
kept. -/
theorem colours_keep_text_pwd :
    line (.ofValue none) true ({ disk := {} } : Machine) "  pwd  -x a-é " =
        "  \x1b[36m\x1b[1mpwd\x1b[0m  \x1b[33m-x\x1b[0m a-é " ∧
      (Screen.ofText "  \x1b[36m\x1b[1mpwd\x1b[0m  \x1b[33m-x\x1b[0m a-é ").shown =
        "  pwd  -x a-é " ∧
      (Screen.ofText "  \x1b[36m\x1b[1mpwd\x1b[0m  \x1b[33m-x\x1b[0m a-é ").look = .plain := by
  have hline : line (.ofValue none) true ({ disk := {} } : Machine) "  pwd  -x a-é " =
      "  \x1b[36m\x1b[1mpwd\x1b[0m  \x1b[33m-x\x1b[0m a-é " := by decide +kernel
  obtain ⟨-, words, -, -, -, hshown⟩ :=
    colours_keep_text (.ofValue none) ({ disk := {} } : Machine) "  pwd  -x a-é "
  obtain ⟨htext, hscreen⟩ := hshown (by decide)
  rw [hline] at htext hscreen
  exact ⟨hline, htext, by rw [hscreen]⟩

end Highlight
end LineShell
