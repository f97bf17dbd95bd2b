import LineShell.Proofs.Changes
import LineShell.Proofs.OperatorReading
import LineShell.Proofs.Parents
import LineShell.Session

/-!
# Output that is sent to a file

A line that sends words to a file by `echo` may be written in eight ways: the operator empties the
file or adds to it, it has a number or not, and it stands apart from the file or not
(`EchoLine`). All of them are read as the same command (`EchoLine.lone?_render`), since in quotes a
word is safe and an operator does not get longer by the file after it.

On a machine such a line writes what it says to the file and does nothing else
(`exists_rewritten`). The directories above the file may be missing before the first line; then
they are made, and from then on the file is there and nothing has to be made. So a file holds, after
any number of lines, what they have added since it was last emptied (`output_accumulates`).
-/

namespace LineShell

/-- A line that sends words to a file. -/
structure EchoLine where
  /-- The words. -/
  words : List String
  /-- The operator before the file, as it is written. -/
  operator : String
  /-- What opening the file does to what it holds. -/
  mode : WriteMode
  /-- Whether the operator stands apart from the file. -/
  apart : Bool
  /-- It is an operator for standard output. -/
  spelled : Redirection.Operator.SpelledBy ⟨.out, mode⟩ operator
  /-- There are no empty words, and none of them starts with an operator. -/
  plain : ∀ w ∈ words, w ≠ "" ∧ ¬ Redirection.StartsWithOperator w

namespace EchoLine

variable (l : EchoLine) (f : String)

/-- The line as it is written, the words and the file in quotes. -/
def render : String :=
  " ".intercalate ("echo" :: l.words.map Word.render ++
    if l.apart then [l.operator, Word.render f] else [l.operator ++ Word.render f])

/-- What the line writes: the words one space apart, and a line feed. -/
def bytes : Bytes :=
  Bytes.ofLine (" ".intercalate l.words)

/-- The command that the line spells. -/
def invocation : Invocation :=
  ⟨"echo", l.words, ⟨some ⟨f, l.mode⟩, none⟩⟩

section Reading

/-- The parts of the line between its spaces, as they are written and as they are read. -/
def parts : List (String × String) :=
  ("echo", "echo") :: l.words.map (fun w => (Word.render w, w)) ++
    if l.apart then [(l.operator, l.operator), (Word.render f, f)]
    else [(l.operator ++ Word.render f, l.operator ++ f)]

theorem toList_render :
    (l.render f).toList = List.intercalate [' '] ((l.parts f).map (·.1.toList)) := by
  have hparts : (l.parts f).map (·.1.toList) = ("echo" :: l.words.map Word.render ++
      if l.apart then [l.operator, Word.render f]
      else [l.operator ++ Word.render f]).map String.toList := by
    rw [parts]
    split_ifs <;> simp [Function.comp_def]
  rw [hparts, render, String.toList_intercalate]
  rfl

theorem operator_ne_empty : l.operator ≠ "" := by
  have htable : ∀ p ∈ Redirection.spellings, p.1 ≠ "" := by decide
  exact htable _ (Redirection.mem_spellings_iff.2 l.spelled)

/-- Each part is read as it should be, and no stage ends in it. -/
theorem spells_parts : ∀ part ∈ l.parts f,
    Word.Spells part.1.toList part.2.toList ∧ Stage.Solid part.1.toList := by
  have hplain {w : String} (h : ∀ c ∈ w.toList, Word.Plain .bare c ∧ c ≠ '|') :
      Word.Spells w.toList w.toList ∧ Stage.Solid w.toList :=
    ⟨Word.spells_of_plain fun c hc => (h c hc).1, Stage.solid_of_plain h⟩
  have hquoted (w : String) :
      Word.Spells (Word.render w).toList w.toList ∧ Stage.Solid (Word.render w).toList :=
    ⟨(Token.word w).spells_text, (Token.word w).solid_text⟩
  have hoperator :=
    hplain (Redirection.plain_of_mem_spellings (Redirection.mem_spellings_iff.2 l.spelled))
  have hecho := hplain (w := "echo") (by simp [Word.Plain])
  rw [parts, List.forall_mem_append, List.forall_mem_cons, List.forall_mem_map]
  refine ⟨⟨hecho, fun w _ => hquoted w⟩, ?_⟩
  split_ifs
  · rw [List.forall_mem_cons, List.forall_mem_singleton]
    exact ⟨hoperator, hquoted f⟩
  · rw [List.forall_mem_singleton, String.toList_append, String.toList_append]
    exact ⟨hoperator.1.append (hquoted f).1, hoperator.2.append (hquoted f).2⟩

/-- **The words of the line** are its parts without their quotes. -/
theorem ofLine_render (hf : f ≠ "") : Word.ofLine (l.render f) = (l.parts f).map (·.2) := by
  have hne : ∀ part ∈ l.parts f, part.2 ≠ "" := by
    rw [parts, List.forall_mem_append, List.forall_mem_cons, List.forall_mem_map]
    refine ⟨⟨by simp, fun w hw => (l.plain w hw).1⟩, ?_⟩
    split_ifs <;> simp [l.operator_ne_empty, hf]
  have hparts : ∀ part ∈ l.parts f,
      Word.Spells part.1.toList part.2.toList ∧ part.2.toList ≠ [] := fun part hpart =>
    ⟨(l.spells_parts f part hpart).1, mt String.toList_eq_nil_iff.1 (hne part hpart)⟩
  rw [Word.ofLine, toList_render, Word.split_intercalate hparts, List.map_map]
  simp [Function.comp_def]

/-- The line ends with the quote after the file. -/
theorem getLast?_render : (l.render f).toList.getLast? = some '\'' := by
  have hquote : (Word.render f).toList.getLast? = some '\'' := by
    rw [Word.render, String.toList_ofList, Word.quoted, ← List.cons_append, List.getLast?_concat]
  have hparts : ∃ init last, l.parts f = init ++ [last] ∧ last.1.toList.getLast? = some '\'' := by
    rw [parts]
    split_ifs
    · exact ⟨("echo", "echo") :: l.words.map (fun w => (Word.render w, w)) ++
        [(l.operator, l.operator)], (Word.render f, f), by simp, hquote⟩
    · refine ⟨_, (l.operator ++ Word.render f, l.operator ++ f), rfl, ?_⟩
      rw [String.toList_append, List.getLast?_append, hquote, Option.some_or]
  obtain ⟨init, last, hparts, hlast⟩ := hparts
  obtain ⟨z, hz⟩ :=
    Invocation.exists_intercalate_concat [' '] (init.map (·.1.toList)) last.1.toList
  rw [toList_render, hparts, List.map_append, List.map_singleton, hz, List.getLast?_append, hlast,
    Option.some_or]

/-- The line is one stage: it has no dividing bar, and nothing to trim. -/
theorem stages_render : Stage.ofLine (l.render f) = [l.render f] := by
  have hsolid : Stage.Solid (l.render f).toList := by
    rw [toList_render]
    exact Stage.solid_intercalate (List.forall_mem_map.2 fun part hpart =>
      (l.spells_parts f part hpart).2)
  have hhead : (l.render f).toList.head? = some 'e' := by
    have hparts : (l.parts f).map (·.1.toList) =
        ('e' :: ['c', 'h', 'o']) :: (l.parts f).tail.map (·.1.toList) := by simp [parts]
    rw [toList_render, hparts, List.intercalate_cons_cons_left, List.head?_cons]
  have htrim : Text.trim (l.render f).toList = (l.render f).toList :=
    Text.trim_eq_self hhead (by decide) (l.getLast?_render f) (by decide)
  have hjoinable : Stage.Joinable ([l.render f].map String.toList) :=
    Stage.joinable_of_solid (by simp) (by simpa using ⟨hsolid, htrim⟩)
  have hofLine := Stage.ofLine_intercalate hjoinable
  rwa [String.intercalate_singleton] at hofLine

/-- A file after an operator for standard output is its target, whether it stands apart or not. -/
theorem extract_target (hf : f ≠ "") (hmark : f.toList.head? ≠ some '>') :
    Redirection.extract (if l.apart then [l.operator, f] else [l.operator ++ f]) =
      ([], ⟨some ⟨f, l.mode⟩, none⟩) := by
  split_ifs
  · exact (Redirection.Reads.apart l.spelled f .done).extract_eq
  · exact (Redirection.Reads.together (l.spelled.longest_append hmark) rfl hf .done).extract_eq

/-- **However it is written, the line spells the same command.** -/
theorem lone?_render (hf : f ≠ "") (hmark : f.toList.head? ≠ some '>') :
    Line.lone? (l.render f) = some (l.invocation f) := by
  have hwords : (l.parts f).map (·.2) =
      "echo" :: (l.words ++ if l.apart then [l.operator, f] else [l.operator ++ f]) := by
    rw [parts]
    split_ifs <;> simp [Function.comp_def]
  have hextract : Redirection.extract
      (l.words ++ if l.apart then [l.operator, f] else [l.operator ++ f]) =
      (l.words, ⟨some ⟨f, l.mode⟩, none⟩) := by
    rw [Redirection.extract_append fun w hw => (l.plain w hw).2, l.extract_target f hf hmark,
      List.append_nil]
  rw [Line.lone?, l.stages_render f]
  show Invocation.ofWords? (Word.ofLine (l.render f)) = _
  rw [l.ofLine_render f hf, hwords, Invocation.ofWords?, hextract]
  rfl

end Reading

section Running

variable {σ : Type} [Host σ] {st : State} {s s₁ s₂ s₃ : σ} {file : Handle}

/-- The command makes the directories above its file, opens the file and writes to it. -/
theorem run_invocation (hmake : Target.makeParent (Path.join st.cwd f) s = (.ok (), s₁))
    (hcreate : Host.create (Path.join st.cwd f) l.mode s₁ = (.ok file, s₂))
    (hwrite : Host.write file l.bytes s₂ = (.ok (), s₃)) :
    (l.invocation f).run st s = (.proceed, st, s₃) := by
  have hopen : Target.openIn st.cwd ⟨f, l.mode⟩ s = (.ok file, s₂) := by
    unfold Target.openIn
    simp only [hmake, hcreate]
  have hresolve : Command.resolve st s "echo" = some (.builtin .echo) := rfl
  have hboth : Target.openBoth st.cwd (l.invocation f).redirection s =
      (.ok (some file, none), s₂) := by
    unfold Target.openBoth Target.openIn?
    simp only [invocation, hopen]
  have hecho : Builtin.run .echo (l.invocation f).args st s₂ =
      (.ok (.text (" ".intercalate l.words)), st, s₂) := rfl
  have hdeliver : deliver (some file) none (.ok (.text (" ".intercalate l.words))) s₂ =
      (.ok (), s₃) := hwrite
  have hrun : (l.invocation f).run st s = runBuiltin .echo (l.invocation f) st s := by
    rw [Invocation.run, invocation, hresolve]
  rw [hrun, runBuiltin, hboth]
  simp only [hecho, hdeliver, complainUnwritten]

end Running

section Content

/-- What a file holds after a line, if it held these bytes before. -/
def after (b : Bytes) (l : EchoLine) : Bytes :=
  Machine.kept l.mode (some b) ++ l.bytes

variable {ls : List EchoLine}

/-- Lines that add to a file leave what it held in front. -/
theorem foldl_after_of_append (h : ∀ l ∈ ls, l.mode = .append) (b : Bytes) :
    ls.foldl after b = b ++ ls.flatMap bytes := by
  induction ls generalizing b with
  | nil => exact (List.append_nil b).symm
  | cons l ls ih =>
    rw [List.forall_mem_cons] at h
    have hafter : after b l = b ++ l.bytes := by rw [after, h.1, Machine.kept, Option.getD_some]
    rw [List.foldl_cons, ih h.2, hafter, List.append_assoc, List.flatMap_cons]

/-- What came before a line that empties the file does not matter. -/
theorem foldl_after_of_truncate {l : EchoLine} (hl : l.mode = .truncate)
    (h : ∀ l ∈ ls, l.mode = .append) (before : List EchoLine) (b : Bytes) :
    (before ++ l :: ls).foldl after b = (l :: ls).flatMap bytes := by
  have hafter (b : Bytes) : after b l = l.bytes := by rw [after, hl, Machine.kept, List.nil_append]
  rw [List.foldl_append, List.foldl_cons, hafter, foldl_after_of_append h, List.flatMap_cons]

end Content
end EchoLine

namespace Machine

/-- What a file holds that output can be sent to; none if it has to be made. -/
inductive Takes (m : Machine) (path : String) : Option Bytes → Prop where
  /-- There is a regular file. -/
  | file {b : Bytes} (h : m.Holds path (some b)) : Takes m path (some b)
  /-- The directories above it can be made as far as they are missing, and then it can be made. Or it
  is there only then, if the path leads down into one of them and up again. -/
  | made {m₁ : Machine} {content : Option Bytes} (hmake : Target.makeParent path m = (.ok (), m₁))
      (h : m₁.Holds path content) : Takes m path content

/-- A file that output can be sent to can be opened once the directories above it are made. If it is
there, none is made. -/
theorem Takes.exists_makeParent {m : Machine} {path : String} {content : Option Bytes}
    (h : m.Takes path content) (hpath : Path.isAbsolute path) :
    ∃ disk, Target.makeParent path m = (.ok (), { m with disk }) ∧
      Holds { m with disk } path content ∧ m.disk.Grows disk ∧
      ∀ b, m.Holds path (some b) → disk = m.disk := by
  cases h with
  | file h => exact ⟨m.disk, h.makeParent_eq hpath, h, .refl _, fun _ _ => rfl⟩
  | @made m₁ _ hmake h =>
    obtain ⟨disk, hdisk, hgrows⟩ := makeParent_grows path m
    obtain rfl : m₁ = { m with disk } := by rw [← hdisk, hmake]
    refine ⟨disk, hmake, h, hgrows, fun b hb => ?_⟩
    have hsame := hmake.symm.trans (hb.makeParent_eq hpath)
    exact congrArg Machine.disk (Prod.mk.inj hsame).2

/-- No path at all leads to the working directory, and that is no file. -/
theorem Holds.ne_empty {m : Machine} {cwd f : String} {content : Option Bytes}
    (h : m.Holds (Path.join cwd f) content) (hcwd : Path.isAbsolute cwd) : f ≠ "" := by
  rintro rfl
  refine h.getLast?_ne ?_
  have hempty : cwd.toList ≠ [] := by
    intro hnil
    simp [Path.isAbsolute, hnil] at hcwd
  by_cases hslash : cwd.toList.getLast? = some '/'
  · simp [Path.join, Path.isAbsolute, hslash]
  · simp [Path.join, Path.isAbsolute, hslash, hempty]

/-- What is found by the path of a file that has been written. -/
theorem Rewritten.exists_find? {m m' : Machine} {path : String} {place : Location} {b : Bytes}
    (h : m.Rewritten path place b m') :
    ∃ mode, m'.disk.find? m'.cwd path = .ok (place, .file b mode) := by
  have hleads := h.leads_after
  cases h.holds with
  | @file place' _ mode hcheck hwalk hget =>
    obtain rfl : place' = place := Leads.unique ⟨_, hwalk, rfl⟩ hleads
    exact ⟨mode, Disk.find?_eq_ok_iff.2 ⟨hcheck, Walk.run_of_runToMake hwalk, hget⟩⟩

end Machine

namespace EchoLine

variable {st : State} {f : String} {m m₁ : Machine} {content : Option Bytes}

/-- **A line writes its words to its file**, after what opening the file has left, and does nothing
else. -/
theorem exists_rewritten (l : EchoLine) (hcwd : Path.isAbsolute st.cwd)
    (hmark : f.toList.head? ≠ some '>')
    (hmake : Target.makeParent (Path.join st.cwd f) m = (.ok (), m₁))
    (hholds : m₁.Holds (Path.join st.cwd f) content) :
    ∃ place m₂, Line.run (l.render f) st m = (.proceed, st, m₂) ∧
      m₁.Rewritten (Path.join st.cwd f) place (Machine.kept l.mode content ++ l.bytes) m₂ := by
  obtain ⟨place, id, m', m₂, hcreate, hwrite, hrewritten⟩ := hholds.exists_rewritten l.mode l.bytes
  refine ⟨place, m₂, ?_, hrewritten⟩
  rw [Line.run_of_lone? (l.lone?_render f (hholds.ne_empty hcwd) hmark)]
  exact l.run_invocation f hmake hcreate hwrite

/-- **Lines write to a file one after the other.** -/
theorem exists_rewritten_runLines (ls : List EchoLine) (hcwd : Path.isAbsolute st.cwd)
    (hmark : f.toList.head? ≠ some '>') {b : Bytes}
    (h : m.Holds (Path.join st.cwd f) (some b)) :
    ∃ place m', Session.runLines (ls.map (·.render f)) st m = (.proceed, st, m') ∧
      m.Rewritten (Path.join st.cwd f) place (ls.foldl after b) m' := by
  induction ls generalizing m b with
  | nil =>
    obtain ⟨place, hself⟩ := h.exists_rewritten_self
    exact ⟨place, m, rfl, hself⟩
  | cons l ls ih =>
    have hmake := h.makeParent_eq (Path.isAbsolute_join hcwd f)
    obtain ⟨place, m₁, hrun, hfirst⟩ := l.exists_rewritten hcwd hmark hmake h
    obtain ⟨_, m', hruns, hothers⟩ := ih hfirst.holds
    refine ⟨place, m', ?_, hfirst.trans hothers⟩
    rw [List.map_cons, Session.runLines, hrun]
    exact hruns

/-- **A file holds what has been sent to it since it was last emptied.** Let a file be there, or let
it be possible to make it with the directories above it, and let lines send words to it, in any of
the ways to write that. They all go to their end and leave the state of the shell alone. If none of
them empties the file, it holds what it held before and then the words of each line, one space
apart and a line feed after them. If one of them is the last to empty it, it holds the words of that
line and of those after it. Nothing is written to the shell's own output and errors, and nothing else
on the disk is different, but that directories are made where nothing was if the file was not
there. -/
theorem output_accumulates (st : State) (m : Machine) (f : String) (content : Option Bytes)
    (ls : List EchoLine) (hcwd : Path.isAbsolute st.cwd) (hmark : f.toList.head? ≠ some '>')
    (h : m.Takes (Path.join st.cwd f) content) :
    ∃ m', Session.runLines (ls.map (·.render f)) st m = (.proceed, st, m') ∧
      m'.output = m.output ∧ m'.errors = m.errors ∧ (ls = [] → m' = m) ∧
      (ls ≠ [] → ∃ place b mode,
        m'.disk.find? m'.cwd (Path.join st.cwd f) = .ok (place, .file b mode) ∧
        ((∀ l ∈ ls, l.mode = .append) → b = content.getD [] ++ ls.flatMap bytes) ∧
        (∀ before l later, ls = before ++ l :: later → l.mode = .truncate →
          (∀ x ∈ later, x.mode = .append) → b = (l :: later).flatMap bytes) ∧
        ∀ other ≠ place, m'.disk.get? other = m.disk.get? other ∨
          (∀ old, ¬ m.Holds (Path.join st.cwd f) (some old)) ∧ m.disk.get? other = none ∧
            m'.disk.get? other = some .directory) := by
  cases ls with
  | nil => exact ⟨m, rfl, rfl, rfl, fun _ => rfl, fun hne => absurd rfl hne⟩
  | cons l ls =>
    -- the first line makes the directories, and the others find the file there
    obtain ⟨disk, hmake, hholds, hgrows, hthere⟩ :=
      h.exists_makeParent (Path.isAbsolute_join hcwd f)
    obtain ⟨place, m₁, hrun, hfirst⟩ := l.exists_rewritten hcwd hmark hmake hholds
    obtain ⟨_, m', hruns, hlater⟩ := exists_rewritten_runLines ls hcwd hmark hfirst.holds
    have hall := hfirst.trans hlater
    obtain ⟨mode, hfind⟩ := hall.exists_find?
    obtain ⟨disk', opened', hrest⟩ := hall.only.rest
    have hb : ls.foldl after (Machine.kept l.mode content ++ l.bytes) =
        (l :: ls).foldl after (content.getD []) := by
      rw [List.foldl_cons, after]
      cases l.mode <;> rfl
    rw [hb] at hfind
    refine ⟨m', ?_, by rw [hrest], by rw [hrest], by simp, fun _ =>
      ⟨place, _, mode, hfind, fun happend => foldl_after_of_append happend _, ?_, ?_⟩⟩
    · rw [List.map_cons, Session.runLines, hrun]
      exact hruns
    · intro before x later hsplit hx happend
      rw [hsplit]
      exact foldl_after_of_truncate hx happend before _
    · intro other hother
      have hdisk : m'.disk.get? other = disk.get? other := hall.only.others hother
      rw [hdisk]
      by_cases hheld : ∃ old, m.Holds (Path.join st.cwd f) (some old)
      · obtain ⟨old, hold⟩ := hheld
        exact .inl (congrArg (Disk.get? · other) (hthere old hold))
      · exact (hgrows other).imp_right fun hnew => ⟨not_exists.1 hheld, hnew⟩

/-- A file in a directory that has to be made, and three lines: the second one empties the file that
the first one has made, and has its operator and the file in one word. -/
theorem output_accumulates_in_new_directory :
    let st : State := ⟨"/tmp", none, .ofValue none, {}⟩
    let m : Machine := .ofDisk Disk.base "/tmp" [] []
    let f := "new/it's >1"
    let first : EchoLine := ⟨["old"], ">>", .append, true, ⟨"", by decide, rfl⟩, by decide⟩
    let second : EchoLine :=
      ⟨["a  b", "|", "it's"], "1>", .truncate, false, ⟨"1", by decide, rfl⟩, by decide⟩
    let third : EchoLine := ⟨[], "1>>", .append, true, ⟨"1", by decide, rfl⟩, by decide⟩
    m.Takes (Path.join st.cwd f) none ∧
      second.render f = "echo 'a  b' '|' 'it'\\''s' 1>'new/it'\\''s >1'" ∧
      ∃ m' place mode,
        Session.runLines ([first, second, third].map (·.render f)) st m = (.proceed, st, m') ∧
        m'.output = [] ∧ m'.errors = [] ∧
        m'.disk.find? m'.cwd (Path.join st.cwd f) =
          .ok (place, .file (Bytes.ofText "a  b | it's\n\n") mode) := by
  intro st m f first second third
  have hmake : Target.makeParent (Path.join st.cwd f) m =
      (.ok (), (Target.makeParent (Path.join st.cwd f) m).2) :=
    Prod.ext (by decide +kernel) rfl
  have hwalk : Walk.runToMake (Target.makeParent (Path.join st.cwd f) m).2.disk
      (Walk.origin (Target.makeParent (Path.join st.cwd f) m).2.cwd (Path.join st.cwd f))
      (Walk.names (Path.join st.cwd f)) = .ok (.missing ["tmp", "new"] "it's >1") := by
    decide +kernel
  have htakes : m.Takes (Path.join st.cwd f) none :=
    .made hmake (.missing (by decide +kernel) hwalk)
  obtain ⟨m', hrun, houtput, herrors, -, hfile⟩ := output_accumulates st m f none
    [first, second, third] (by decide) (by decide) htakes
  obtain ⟨place, b, mode, hfind, -, hlast, -⟩ := hfile (List.cons_ne_nil _ _)
  have hb := hlast [first] second [third] rfl rfl (List.forall_mem_singleton.2 rfl)
  have hbytes : [second, third].flatMap bytes = Bytes.ofText "a  b | it's\n\n" := by decide +kernel
  rw [hb, hbytes] at hfind
  exact ⟨htakes, by decide +kernel, m', place, mode, hrun, houtput, herrors, hfind⟩

end EchoLine
end LineShell
