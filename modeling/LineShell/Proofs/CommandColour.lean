import LineShell.Proofs.Listing
import LineShell.Proofs.Screen

/-!
# What the colour of a command tells

The command word of a line is shown in cyan or in red, to tell whether it can be run. The colour goes
by builtins and the search path. What is run is looked for in one more place: a word with a slash is a
path as seen from the working directory. So the two agree on words without a slash
(`commandStyle_eq_known_iff`), while a word with a slash is red even if it leads to a program.
-/

namespace LineShell

theorem Builtin.slash_not_mem_name (b : Builtin) : '/' ∉ b.name.toList := by
  cases b <;> decide

namespace Highlight

variable {σ : Type} [Host σ] {st : State} {s : σ} {text word : String} {before after : List String}

/-- The command word of a line: the first text between single spaces that is not empty. -/
structure CommandWord (text : String) (before : List String) (word : String)
    (after : List String) : Prop where
  /-- It is one of the texts between single spaces. -/
  spaced : Spaced text (before ++ word :: after)
  /-- Those before it are empty. -/
  first : ∀ w ∈ before, w = ""
  /-- It is not. -/
  ne_empty : word ≠ ""

theorem map_spell_styled_of_empty (sp : SearchPath) (s : σ) {words : List String}
    (h : ∀ w ∈ words, w = "") (before : List String) :
    (styled sp s before words).map (fun w => spell w.1 w.2) = words := by
  induction words generalizing before with
  | nil => rfl
  | cons word rest ih =>
    rw [List.forall_mem_cons] at h
    rw [styled, List.map_cons, ih h.2, style?, if_pos h.1]
    rfl

/-- The command word is shown in its style, with all spaces before it. -/
theorem CommandWord.line_eq (h : CommandWord text before word after) (sp : SearchPath) (s : σ) :
    ∃ rest, rest.length = after.length ∧ line sp true s text =
      " ".intercalate (before ++ (commandStyle sp s word).apply word :: rest) := by
  refine ⟨(styled sp s (before ++ [word]) after).map fun w => spell w.1 w.2, ?_, ?_⟩
  · rw [List.length_map, ← List.length_map Prod.snd, map_snd_styled]
  · rw [h.spaced.line_eq, styled_append, List.map_append, map_spell_styled_of_empty sp s h.first,
      List.nil_append, styled, List.map_cons, style?, if_neg h.ne_empty, if_pos h.first]
    rfl

theorem commandStyle_ne_unknown_iff {sp : SearchPath} :
    commandStyle sp s word ≠ .unknown ↔ commandStyle sp s word = .known := by
  rw [commandStyle]
  split_ifs <;> simp

/-- **A word is cyan if it can be run and holds no slash.** -/
theorem commandStyle_eq_known_iff :
    commandStyle st.searchPath s word = .known ↔
      '/' ∉ word.toList ∧ ∃ c, Command.resolve st s word = some c := by
  have hknown : commandStyle st.searchPath s word = .known ↔
      (∃ b : Builtin, b.name = word) ∨ ∃ program, st.searchPath.find? s word = some program := by
    simp only [← Builtin.ofName?_eq_some_iff, ← Option.isSome_iff_exists]
    rw [commandStyle, ← Bool.or_eq_true]
    split_ifs with h <;> simp [h]
  rw [hknown, Command.exists_resolve_iff]
  by_cases hslash : '/' ∈ word.toList
  · rw [SearchPath.find?_of_not_bare (.inr hslash)]
    refine iff_of_false ?_ fun h => h.1 hslash
    rintro (⟨b, rfl⟩ | ⟨program, h⟩)
    · exact Builtin.slash_not_mem_name b hslash
    · cases h
  · rw [Command.program?_of_bare hslash, and_iff_right hslash]

/-- A word with a slash can be run if it leads to an executable file. -/
theorem exists_resolve_of_slash (hslash : '/' ∈ word.toList) :
    (∃ c, Command.resolve st s word = some c) ↔ Host.isExecutable s (Path.join st.cwd word) := by
  rw [Command.exists_resolve_iff]
  constructor
  · rintro (⟨b, rfl⟩ | ⟨program, h⟩)
    · exact absurd hslash (Builtin.slash_not_mem_name b)
    · cases Command.program?_eq_some_iff.1 h with
      | path _ hx => exact hx
      | found hnot => exact absurd hslash hnot
  · exact fun hx => .inr ⟨_, Command.program?_eq_some_iff.2 (.path hslash hx)⟩

/-- **What the colour of a command tells.** With colours on, the command word of every line is shown in
bold cyan or in bold red, as typed and after the spaces before it. It is cyan if it can be run and
holds no slash, and red otherwise. So the colour tells whether the word can be run, except for a word
with a slash that leads to an executable file from the working directory: this is red, although it can
be run. -/
theorem colour_of_command (st : State) (s : σ) {text word : String} {before after : List String}
    (h : CommandWord text before word after) :
    ∃ (style : Style) (rest : List String), rest.length = after.length ∧
      line st.searchPath true s text = " ".intercalate (before ++ style.apply word :: rest) ∧
      (style = .known ↔ '/' ∉ word.toList ∧ ∃ c, Command.resolve st s word = some c) ∧
      (style = .unknown ↔ '/' ∈ word.toList ∨ Command.resolve st s word = none) ∧
      ((style = .known ↔ ∃ c, Command.resolve st s word = some c) ↔
        ¬ ('/' ∈ word.toList ∧ Host.isExecutable s (Path.join st.cwd word))) := by
  obtain ⟨rest, hlength, hline⟩ := h.line_eq st.searchPath s
  refine ⟨_, rest, hlength, hline, commandStyle_eq_known_iff, ?_, ?_⟩
  · rw [← not_iff_not, ← Ne, commandStyle_ne_unknown_iff, commandStyle_eq_known_iff, not_or,
      ← Ne, Option.ne_none_iff_exists']
  · rw [commandStyle_eq_known_iff]
    by_cases hslash : '/' ∈ word.toList
    · rw [exists_resolve_of_slash hslash]
      simp [hslash]
    · simp [hslash]

/-- A machine with a program in its working directory. -/
def besideTool : Machine :=
  .ofDisk (Disk.base.install [] "/r/tool" (.file [] { executable := true })) "/r" [] []

/-- A program of the search path is shown in cyan. -/
theorem colour_of_command_tool :
    CommandWord "  tool -x" ["", ""] "tool" ["-x"] ∧
      Command.resolve ⟨"/", none, .ofValue (some "/r"), {}⟩ besideTool "tool" =
        some (.external "/r/tool") ∧
      ∃ rest, rest.length = 1 ∧ line (.ofValue (some "/r")) true besideTool "  tool -x" =
        " ".intercalate (["", ""] ++ "\x1b[36m\x1b[1mtool\x1b[0m" :: rest) := by
  have hword : CommandWord "  tool -x" ["", ""] "tool" ["-x"] :=
    ⟨⟨by decide, by decide, by decide⟩, by decide, by decide⟩
  have hresolve : Command.resolve ⟨"/", none, .ofValue (some "/r"), {}⟩ besideTool "tool" =
      some (.external "/r/tool") := by
    decide +kernel
  obtain ⟨style, rest, hlength, hline, hknown, -, -⟩ :=
    colour_of_command ⟨"/", none, .ofValue (some "/r"), {}⟩ besideTool hword
  obtain rfl : style = .known := hknown.2 ⟨by decide, _, hresolve⟩
  exact ⟨hword, hresolve, rest, hlength, hline⟩

/-- **A program can be shown in red.** From `/r` the word `./tool` leads to a program and can be run,
but no directory of the search path is asked for it. -/
theorem program_shown_in_red :
    Command.resolve ⟨"/r", none, .ofValue (some "/r"), {}⟩ besideTool "./tool" =
        some (.external "/r/./tool") ∧
      line (.ofValue (some "/r")) true besideTool "./tool" = Style.unknown.apply "./tool" := by
  decide +kernel

end Highlight
end LineShell
