import LineShell.Machine.Instance
import LineShell.Proofs.Blanks
import LineShell.Proofs.Cutting
import LineShell.Proofs.Segments

/-!
# Where a command word stands

A word is completed as a command name if it is the first one of its stage. What comes before it then
has an empty last stage. The completer does not look for stages, but at the last character before
the word that is not blank, and takes any bar for one that divides stages.

`exists_lastSegment` finds the last stage in a line: it comes after the last dividing bar, or it is
the line. So if it is blank, the last character that is not blank is a dividing bar, if there is
one at all. The completer agrees with that, but it also goes by bars that are quoted or escaped
(`commandFollows_iff`), and offers commands after them, in the middle of a stage.
-/

namespace LineShell

namespace Stage

theorem segments_ne_nil (line : List Char) : segments line ≠ [] := by
  simp [segments]

/-- The last stage of a line as it is spelled. -/
def lastSegment (line : List Char) : List Char :=
  (segments line).getLast (segments_ne_nil line)

/-- The last stage of a line. -/
def last (line : String) : String :=
  (ofLine line).getLast (ofLine_ne_nil line)

/-- The last stage is empty if nothing but blanks comes after the last dividing bar. -/
theorem last_eq_empty_iff {line : String} :
    last line = "" ↔ ∀ c ∈ lastSegment line.toList, Text.isBlank c := by
  have hlast : last line = String.ofList (Text.trim (lastSegment line.toList)) :=
    List.getLast_map ..
  rw [hlast, ← String.ofList_nil, String.ofList_inj, Text.trim_eq_nil_iff]

/-- The last of several texts comes after the last of the bars between them. -/
theorem exists_getLast (L : List (List Char)) (h : L ≠ []) :
    ∃ pre, List.intercalate ['|'] L = pre ++ L.getLast h ∧
      (pre = [] ∨ ∃ a, pre = a ++ ['|'] ∧ a.length ∈ cuts L) ∧ ∀ i ∈ cuts L, i < pre.length := by
  induction L with
  | nil => exact absurd rfl h
  | cons s L ih =>
    cases L with
    | nil => exact ⟨[], by simp, .inl rfl, by simp [cuts]⟩
    | cons u us =>
      obtain ⟨pre, heq, hpre, hlt⟩ := ih (List.cons_ne_nil u us)
      refine ⟨s ++ '|' :: pre, ?_, .inr ?_, ?_⟩
      · rw [List.intercalate_cons_cons, heq, List.getLast_cons_cons]
        simp
      · rcases hpre with rfl | ⟨a, rfl, ha⟩
        · exact ⟨s, rfl, by simp [cuts]⟩
        · refine ⟨s ++ '|' :: a, by simp, ?_⟩
          simp only [cuts, List.mem_cons, List.mem_map]
          exact .inr ⟨a.length, ha, by simp; omega⟩
      · simp only [cuts, List.mem_cons, List.mem_map, List.length_append, List.length_cons]
        rintro i (rfl | ⟨j, hj, rfl⟩)
        · omega
        · have := hlt j hj
          omega

/-- **The last stage comes after the last dividing bar**, if there is one. -/
theorem exists_lastSegment (cs : List Char) :
    ∃ pre, cs = pre ++ lastSegment cs ∧
      (pre = [] ∨ ∃ a, pre = a ++ ['|'] ∧ Word.Meets .bare cs a.length) ∧
      ∀ i, cs[i]? = some '|' → Word.Meets .bare cs i → i < pre.length := by
  obtain ⟨pre, heq, hpre, hlt⟩ := exists_getLast (segments cs) (segments_ne_nil cs)
  rw [intercalate_segments] at heq
  refine ⟨pre, heq, hpre.imp_right ?_, fun i hbar hmeets => hlt i (mem_cuts_scan.2 ⟨hbar, hmeets⟩)⟩
  rintro ⟨a, ha, hcut⟩
  exact ⟨a, ha, (mem_cuts_scan.1 hcut).2⟩

end Stage

namespace Completion

/-- The last character of a text that is not blank is a bar, with this before it. -/
def EndsInBar (head before : List Char) : Prop :=
  ∃ blanks, head = before ++ '|' :: blanks ∧ ∀ c ∈ blanks, Text.isBlank c

/-- The last character of a text that is not blank is a bar, but one that does not divide stages: it
stands between quotes or after a backslash. -/
def EndsInHiddenBar (head : List Char) : Prop :=
  ∃ before, EndsInBar head before ∧ ¬ Word.Meets .bare head before.length

section Bars

variable {head before : List Char}

theorem endsInBar_iff : EndsInBar head before ↔ Text.trimEnd head = before ++ ['|'] := by
  constructor
  · rintro ⟨blanks, rfl, hblanks⟩
    rw [← List.singleton_append, ← List.append_assoc, Text.trimEnd_append_of_blank _ hblanks,
      Text.trimEnd_concat before (by decide)]
  · intro h
    obtain ⟨blanks, hhead, hblanks⟩ := Text.exists_trimEnd head
    exact ⟨blanks, by simpa [h] using hhead, hblanks⟩

theorem commandFollows_iff_bar :
    commandFollows head ↔ (∀ c ∈ head, Text.isBlank c) ∨ ∃ before, EndsInBar head before := by
  simp only [endsInBar_iff, ← List.getLast?_eq_some_iff, ← Text.trimEnd_eq_nil_iff, commandFollows]
  cases h : (Text.trimEnd head).getLast? with
  | none => simpa using List.getLast?_eq_none_iff.1 h
  | some c =>
    have hne : Text.trimEnd head ≠ [] := by
      rintro hnil
      simp [hnil] at h
    simp [hne]

/-- The last stage is blank if the line is, or if a dividing bar is the last character that is
not. -/
theorem blank_lastSegment_iff :
    (∀ c ∈ Stage.lastSegment head, Text.isBlank c) ↔ (∀ c ∈ head, Text.isBlank c) ∨
      ∃ before, EndsInBar head before ∧ Word.Meets .bare head before.length := by
  obtain ⟨pre, heq, hpre, hlt⟩ := Stage.exists_lastSegment head
  have hsuffix : Stage.lastSegment head <:+ head := ⟨pre, heq.symm⟩
  constructor
  · intro hblank
    rcases hpre with rfl | ⟨before, rfl, hmeets⟩
    · exact .inl (heq ▸ hblank)
    · exact .inr ⟨before, ⟨_, by simpa using heq, hblank⟩, hmeets⟩
  · rintro (hblank | ⟨before, ⟨blanks, hhead, hblanks⟩, hmeets⟩) c hc
    · exact hblank c (hsuffix.subset hc)
    · have hbar := hlt before.length (by simp [hhead]) hmeets
      have hlength := congrArg List.length (heq.symm.trans hhead)
      simp only [List.length_append, List.length_cons] at hlength
      have hrest : blanks <:+ head := ⟨before ++ ['|'], by simp [hhead]⟩
      exact hblanks c
        ((List.suffix_of_suffix_length_le hsuffix hrest (by omega)).subset hc)

/-- **The completer expects a command after an empty stage**, and after a bar that is quoted or
escaped. -/
theorem commandFollows_iff {head : String} :
    commandFollows head.toList ↔ Stage.last head = "" ∨ EndsInHiddenBar head.toList := by
  rw [commandFollows_iff_bar, Stage.last_eq_empty_iff, blank_lastSegment_iff, or_assoc]
  refine or_congr_right ?_
  rw [EndsInHiddenBar, ← exists_or]
  refine exists_congr fun before => ?_
  rw [← and_or_left, and_iff_left (em _)]

/-- A bar that divides nothing stands in a stage. -/
theorem EndsInHiddenBar.last_ne_empty {head : String} (h : EndsInHiddenBar head.toList) :
    Stage.last head ≠ "" := by
  obtain ⟨before, hbar, hmeets⟩ := h
  rw [Ne, Stage.last_eq_empty_iff, blank_lastSegment_iff]
  rintro (hblank | ⟨before', hbar', hmeets'⟩)
  · obtain ⟨blanks, hhead, -⟩ := hbar
    exact absurd (hblank '|' (by simp [hhead])) (by decide)
  · have hsame := (endsInBar_iff.1 hbar').symm.trans (endsInBar_iff.1 hbar)
    obtain rfl := List.append_cancel_right hsame
    exact hmeets hmeets'

end Bars

variable {σ : Type} [Host σ]

/-- **Where commands are completed.** For every completer, every machine and every text, let `head`
be what comes before the word at the cursor. If the last stage of `head` is empty the word is
completed from the names of commands. If it is not, the word is completed from the paths, except
that after a bar that is quoted or escaped, with only blanks in between, it is completed from the
names of commands all the same. -/
theorem commands_after_bars (c : Completer) (s : σ) (text : String) :
    ∃ head word, CutAt ' ' text head word ∧
      (Stage.last head = "" → (c.resolve text s).1.suggestion =
        suggest word (commandNames c.searchPath s) (c.presses.press text).count) ∧
      (Stage.last head ≠ "" → ¬ EndsInHiddenBar head.toList → (c.resolve text s).1.suggestion =
        suggest word (pathNames c.cwd word s) (c.presses.press text).count) ∧
      (EndsInHiddenBar head.toList → Stage.last head ≠ "" ∧ (c.resolve text s).1.suggestion =
        suggest word (commandNames c.searchPath s) (c.presses.press text).count) := by
  obtain ⟨head, word, hcut⟩ := exists_cutAt ' ' text
  refine ⟨head, word, hcut, ?_⟩
  rw [c.resolve_eq s hcut, Completer.candidates]
  refine ⟨fun hlast => ?_, fun hlast hhidden => ?_, fun hhidden => ⟨hhidden.last_ne_empty, ?_⟩⟩
  · rw [if_pos (commandFollows_iff.2 (.inl hlast))]
  · rw [if_neg (mt commandFollows_iff.1 (not_or.2 ⟨hlast, hhidden⟩))]
  · rw [if_pos (commandFollows_iff.2 (.inr hhidden))]

/-- After an escaped bar the name of a command is completed, although the words up to it are one
stage and no path starts so. -/
theorem command_after_escaped_bar :
    CutAt ' ' "echo \\| ech" "echo \\| " "ech" ∧ Stage.ofLine "echo \\| " = ["echo \\|"] ∧
      ((Completer.inDirectory "/").resolve "echo \\| ech" ({ disk := {} } : Machine)).1 =
        ⟨8, .replace "echo "⟩ ∧
      suggest "ech" (pathNames "/" "ech" ({ disk := {} } : Machine)) 1 = .bell :=
  ⟨⟨by decide, by decide, by decide⟩, by decide +kernel, by decide +kernel, by decide +kernel⟩

end Completion
end LineShell
