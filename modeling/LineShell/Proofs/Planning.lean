import LineShell.Line
import LineShell.Machine.Instance
import LineShell.Machine.Setup
import Mathlib.Data.List.Basic

/-!
# Planning a pipeline is all or nothing

Before the first stage of a pipeline is started, all stages have been read and all their names have
been looked up. Reading is one pass over the stages and looking up a second one, and each of them
ends with its leftmost failure (`mapM_of_leftmost`). So a stage without words, wherever it stands,
comes before a name that stands for nothing; of several such names the leftmost counts; and either
way the shell says one line and does nothing else. `run_of_planning` puts the three outcomes
together, with the plan there is when neither happens.
-/

namespace LineShell

section Traversal

variable {α β ε : Type} {f : α → Except ε β}

/-- A pass ends with its leftmost failure. -/
theorem mapM_of_leftmost {before after : List α} {a : α} {e : ε}
    (hbefore : ∀ x ∈ before, ∃ b, f x = .ok b) (ha : f a = .error e) :
    (before ++ a :: after).mapM f = .error e := by
  induction before with
  | nil => simp [bind, Except.bind, ha]
  | cons x before ih =>
    rw [List.forall_mem_cons] at hbefore
    obtain ⟨b, hx⟩ := hbefore.1
    simp [bind, Except.bind, hx, ih hbefore.2]

/-- A pass without a failure gives one result for each place, in order. -/
theorem exists_mapM_eq_ok {g : α → Option β} (hfg : ∀ a b, g a = some b → f a = .ok b)
    {l : List α} (h : ∀ a ∈ l, g a ≠ none) :
    ∃ r, l.mapM f = .ok r ∧ l.map g = r.map some := by
  induction l with
  | nil => exact ⟨[], rfl, rfl⟩
  | cons a l ih =>
    rw [List.forall_mem_cons] at h
    obtain ⟨b, hb⟩ := Option.ne_none_iff_exists'.1 h.1
    obtain ⟨r, hr, hall⟩ := ih h.2
    refine ⟨b :: r, ?_, by rw [List.map_cons, List.map_cons, hb, hall]⟩
    simp [bind, Except.bind, pure, Except.pure, hfg a b hb, hr]

/-- Where something fails, there is a leftmost failure. -/
theorem exists_leftmost {p : α → Prop} {l : List α} (h : ∃ a ∈ l, p a) :
    ∃ before a after, l = before ++ a :: after ∧ p a ∧ ∀ x ∈ before, ¬ p x := by
  classical
  obtain ⟨a, ha, hp⟩ := h
  cases hf : l.find? fun x => decide (p x) with
  | none => exact absurd (decide_eq_true hp) (List.find?_eq_none.1 hf a ha)
  | some x =>
    obtain ⟨hx, before, after, hl, hbefore⟩ := List.find?_eq_some_iff_append.1 hf
    exact ⟨before, x, after, hl, of_decide_eq_true hx, by simpa using hbefore⟩

end Traversal

namespace Pipeline

variable {σ : Type} [Host σ]

/-- Reading fails if a stage has no words, whatever the other stages are. -/
theorem parse_of_blank {stages : List String} (h : ∃ stage ∈ stages, Word.ofLine stage = []) :
    parse stages = .error (.unexpected "|") := by
  obtain ⟨before, stage, after, rfl, hstage, hbefore⟩ := exists_leftmost h
  refine mapM_of_leftmost (fun u hu => ?_) ?_
  · obtain ⟨inv, hinv⟩ : ∃ inv, Invocation.ofStage? u = some inv :=
      Option.ne_none_iff_exists'.1 (Invocation.ofStage?_eq_none_iff.not.2 (hbefore u hu))
    exact ⟨inv, by rw [hinv]⟩
  · rw [Invocation.ofStage?_eq_none_iff.2 hstage]

/-- Reading stages with words gives their commands. -/
theorem exists_parse {stages : List String} (h : ∀ stage ∈ stages, Word.ofLine stage ≠ []) :
    ∃ invs, parse stages = .ok invs ∧ stages.map Invocation.ofStage? = invs.map some :=
  exists_mapM_eq_ok (fun _ _ hinv => by rw [hinv])
    fun stage hstage => Invocation.ofStage?_eq_none_iff.not.2 (h stage hstage)

theorem mem_commands {stages : List String} {invs : List Invocation}
    (h : stages.map Invocation.ofStage? = invs.map some) {stage : String} (hs : stage ∈ stages) :
    ∃ inv ∈ invs, Invocation.ofStage? stage = some inv := by
  have hmem := List.mem_map_of_mem (f := Invocation.ofStage?) hs
  rw [h, List.mem_map] at hmem
  obtain ⟨inv, hinv, heq⟩ := hmem
  exact ⟨inv, hinv, heq.symm⟩

/-- Looking up fails with the leftmost name that stands for nothing. -/
theorem plan_of_leftmost {st : State} {s : σ} {before after : List Invocation} {inv : Invocation}
    (hbefore : ∀ i ∈ before, Command.resolve st s i.name ≠ none)
    (hinv : Command.resolve st s inv.name = none) :
    plan st s (before ++ inv :: after) = .error (.notFound inv.name) := by
  refine mapM_of_leftmost (fun i hi => ?_) ?_
  · obtain ⟨command, hc⟩ := Option.ne_none_iff_exists'.1 (hbefore i hi)
    exact ⟨⟨i, command⟩, by rw [hc]⟩
  · rw [hinv]

/-- Looking up names that all stand for something gives each command with what its name stands
for. -/
theorem exists_plan {st : State} {s : σ} {invs : List Invocation}
    (h : ∀ inv ∈ invs, Command.resolve st s inv.name ≠ none) :
    ∃ stages, plan st s invs = .ok stages ∧
      invs.map (fun inv => (Command.resolve st s inv.name).map (PlannedStage.mk inv)) =
        stages.map some := by
  refine exists_mapM_eq_ok (fun inv stage hs => ?_) fun inv hinv hnone =>
    h inv hinv (Option.map_eq_none_iff.1 hnone)
  obtain ⟨command, hc, rfl⟩ := Option.map_eq_some_iff.1 hs
  rw [hc]

end Pipeline

namespace Line

variable {σ : Type} [Host σ]

/-- A line with several stages that cannot be planned is a message. -/
theorem run_of_error {line : String} {st : State} {s : σ} {e : PipelineError}
    (htwo : 2 ≤ (Stage.ofLine line).length)
    (h : (Pipeline.parse (Stage.ofLine line)).bind (Pipeline.plan st s) = .error e) :
    run line st s = (.proceed, st, Host.complainLine e.message s) := by
  rw [run]
  split
  next hs => simp [hs] at htwo
  · simp [Pipeline.run, h]

/-- A stage without words, wherever it stands, makes the line a message. -/
theorem run_of_blank {line : String} (htwo : 2 ≤ (Stage.ofLine line).length) (st : State) (s : σ)
    (hblank : ∃ stage ∈ Stage.ofLine line, Word.ofLine stage = []) :
    run line st s = (.proceed, st,
      Host.complainLine "conch: syntax error near unexpected token `|'" s) := by
  have hplan : (Pipeline.parse (Stage.ofLine line)).bind (Pipeline.plan st s) =
      .error (.unexpected "|") := by
    rw [Pipeline.parse_of_blank hblank]
    rfl
  have hmessage : (PipelineError.unexpected "|").message =
      "conch: syntax error near unexpected token `|'" := by decide
  rw [run_of_error htwo hplan, hmessage]

/-- If all stages have words, the leftmost name that stands for nothing makes the line a message. -/
theorem run_of_unknown {line : String} (htwo : 2 ≤ (Stage.ofLine line).length) {st : State} {s : σ}
    (hwords : ∀ stage ∈ Stage.ofLine line, Word.ofLine stage ≠ [])
    (hunknown : ∃ stage ∈ Stage.ofLine line, ∃ name, (Word.ofLine stage).head? = some name ∧
      Command.resolve st s name = none) :
    ∃ before stage after name, Stage.ofLine line = before ++ stage :: after ∧
      (∀ u ∈ before, ∀ n, (Word.ofLine u).head? = some n → Command.resolve st s n ≠ none) ∧
      (Word.ofLine stage).head? = some name ∧ Command.resolve st s name = none ∧
      run line st s = (.proceed, st, Host.complainLine s!"{name}: command not found" s) := by
  obtain ⟨invs, hparse, hinvs⟩ := Pipeline.exists_parse hwords
  have hunknown : ∃ inv ∈ invs, Command.resolve st s inv.name = none := by
    obtain ⟨stage, hstage, name, hname, hnone⟩ := hunknown
    obtain ⟨inv, hinv, hread⟩ := Pipeline.mem_commands hinvs hstage
    rw [Invocation.head?_of_ofStage? hread, Option.some.injEq] at hname
    exact ⟨inv, hinv, hname ▸ hnone⟩
  obtain ⟨before', inv, after', rfl, hnone, hbefore⟩ := exists_leftmost hunknown
  -- the commands are cut at the leftmost failure, and so are the stages that they were read from
  rw [List.map_append, List.map_cons, List.map_eq_append_iff] at hinvs
  obtain ⟨before, rest, hline, hinvs, hrest⟩ := hinvs
  obtain ⟨stage, after, rfl, hread, -⟩ := List.map_eq_cons_iff.1 hrest
  have hplan : (Pipeline.parse (Stage.ofLine line)).bind (Pipeline.plan st s) =
      .error (.notFound inv.name) := by
    rw [hparse]
    exact Pipeline.plan_of_leftmost hbefore hnone
  refine ⟨before, stage, after, inv.name, hline, fun u hu n hn => ?_,
    Invocation.head?_of_ofStage? hread, hnone, run_of_error htwo hplan⟩
  obtain ⟨inv', hinv', hread'⟩ := Pipeline.mem_commands hinvs hu
  rw [Invocation.head?_of_ofStage? hread', Option.some.injEq] at hn
  exact hn ▸ hbefore inv' hinv'

/-- If all stages have words and all names stand for something, there is a plan. -/
theorem exists_plan_of_known {line : String} {st : State} {s : σ}
    (hknown : ∀ stage ∈ Stage.ofLine line, ∃ name, (Word.ofLine stage).head? = some name ∧
      Command.resolve st s name ≠ none) :
    ∃ plan, (Pipeline.parse (Stage.ofLine line)).bind (Pipeline.plan st s) = .ok plan ∧
      (Stage.ofLine line).map (fun stage => (Invocation.ofStage? stage).bind fun inv =>
        (Command.resolve st s inv.name).map (PlannedStage.mk inv)) = plan.map some := by
  have hwords : ∀ stage ∈ Stage.ofLine line, Word.ofLine stage ≠ [] := by
    intro stage hstage hnil
    obtain ⟨name, hname, -⟩ := hknown stage hstage
    simp [hnil] at hname
  obtain ⟨invs, hparse, hinvs⟩ := Pipeline.exists_parse hwords
  have hresolved : ∀ inv ∈ invs, Command.resolve st s inv.name ≠ none := by
    intro inv hinv
    obtain ⟨stage, hstage, hread⟩ : ∃ stage ∈ Stage.ofLine line,
        Invocation.ofStage? stage = some inv := by
      simpa [← hinvs] using List.mem_map_of_mem (f := some) hinv
    obtain ⟨name, hname, hsome⟩ := hknown stage hstage
    rw [Invocation.head?_of_ofStage? hread, Option.some.injEq] at hname
    exact hname ▸ hsome
  obtain ⟨plan, hplan, hstages⟩ := Pipeline.exists_plan hresolved
  let lookUp (inv : Invocation) : Option PlannedStage :=
    (Command.resolve st s inv.name).map (PlannedStage.mk inv)
  refine ⟨plan, by rw [hparse]; exact hplan, ?_⟩
  calc (Stage.ofLine line).map (fun stage => (Invocation.ofStage? stage).bind lookUp)
      = ((Stage.ofLine line).map Invocation.ofStage?).map (·.bind lookUp) := by
        rw [List.map_map]
        rfl
    _ = (invs.map some).map (·.bind lookUp) := by rw [hinvs]
    _ = invs.map lookUp := by
        rw [List.map_map]
        rfl
    _ = plan.map some := hstages

/-- **A pipeline that cannot be planned does nothing.** If a stage has no words, the only thing that
happens is the message about the bar. If all have words and a name stands for nothing, the only
thing that happens is the message about the leftmost such name. Otherwise there is a plan, with one
stage for each stage of the line, in order: the stage's own command and what its own name stands
for. -/
theorem run_of_planning {line : String} (htwo : 2 ≤ (Stage.ofLine line).length) (st : State)
    (s : σ) :
    ((∃ stage ∈ Stage.ofLine line, Word.ofLine stage = []) →
      run line st s = (.proceed, st,
        Host.complainLine "conch: syntax error near unexpected token `|'" s)) ∧
    ((∀ stage ∈ Stage.ofLine line, Word.ofLine stage ≠ []) →
      (∃ stage ∈ Stage.ofLine line, ∃ name, (Word.ofLine stage).head? = some name ∧
        Command.resolve st s name = none) →
      ∃ before stage after name, Stage.ofLine line = before ++ stage :: after ∧
        (∀ u ∈ before, ∀ n, (Word.ofLine u).head? = some n → Command.resolve st s n ≠ none) ∧
        (Word.ofLine stage).head? = some name ∧ Command.resolve st s name = none ∧
        run line st s = (.proceed, st, Host.complainLine s!"{name}: command not found" s)) ∧
    ((∀ stage ∈ Stage.ofLine line, ∃ name, (Word.ofLine stage).head? = some name ∧
        Command.resolve st s name ≠ none) →
      ∃ plan, (Pipeline.parse (Stage.ofLine line)).bind (Pipeline.plan st s) = .ok plan ∧
        (Stage.ofLine line).map (fun stage => (Invocation.ofStage? stage).bind fun inv =>
          (Command.resolve st s inv.name).map (PlannedStage.mk inv)) = plan.map some) := by
  refine ⟨fun hblank => ?_, fun hwords hunknown => ?_, fun hknown => ?_⟩
  · exact run_of_blank htwo st s hblank
  · exact run_of_unknown htwo hwords hunknown
  · exact exists_plan_of_known hknown

/-- A shell in the root of a machine on which there are no programs. -/
def bareState : State := ⟨"/", none, .ofValue none, {}⟩

/-- A machine without programs. -/
def bareMachine : Machine := .ofDisk .base "/" [] []

/-- Without programs: a blank stage is told of although a name before it stands for nothing; of two
names that stand for nothing the left one is told of, although a builtin with a target stands before
it; and builtins are planned. -/
theorem planning_without_programs :
    run "nosuch > f | | echo x" bareState bareMachine = (.proceed, bareState,
      Host.complainLine "conch: syntax error near unexpected token `|'" bareMachine) ∧
    run "echo a > f | nosuch | other" bareState bareMachine = (.proceed, bareState,
      Host.complainLine "nosuch: command not found" bareMachine) ∧
    ∃ plan, (Pipeline.parse (Stage.ofLine "echo a | pwd")).bind
      (Pipeline.plan bareState bareMachine) = .ok plan ∧ plan.length = 2 := by
  have hblank := run_of_planning
    (show 2 ≤ (Stage.ofLine "nosuch > f | | echo x").length by decide +kernel) bareState bareMachine
  have hunknown := run_of_planning
    (show 2 ≤ (Stage.ofLine "echo a > f | nosuch | other").length by decide +kernel) bareState
    bareMachine
  have hknown := run_of_planning
    (show 2 ≤ (Stage.ofLine "echo a | pwd").length by decide +kernel) bareState bareMachine
  refine ⟨hblank.1 ⟨"", by decide +kernel, by decide +kernel⟩, ?_, ?_⟩
  · obtain ⟨before, stage, after, name, hline, hbefore, hname, hnone, hrun⟩ :=
      hunknown.2.1 (by decide +kernel)
        ⟨"nosuch", by decide +kernel, "nosuch", by decide +kernel, by decide +kernel⟩
    have hstages : Stage.ofLine "echo a > f | nosuch | other" =
        ["echo a > f", "nosuch", "other"] := by decide +kernel
    rw [hstages] at hline
    match before, hline with
    | [], hline =>
      obtain rfl := (List.cons.inj hline).1
      have hecho : (Word.ofLine "echo a > f").head? = some "echo" := by decide +kernel
      rw [hecho, Option.some.injEq] at hname
      rw [← hname] at hnone
      exact absurd hnone (by decide +kernel)
    | [_], hline =>
      obtain rfl := (List.cons.inj (List.cons.inj hline).2).1
      have hnosuch : (Word.ofLine "nosuch").head? = some "nosuch" := by decide +kernel
      rw [hnosuch, Option.some.injEq] at hname
      rw [hrun, ← hname]
      rfl
    | _ :: u :: _, hline =>
      obtain rfl := (List.cons.inj (List.cons.inj hline).2).1
      exact absurd (show Command.resolve bareState bareMachine "nosuch" = none by decide +kernel)
        (hbefore "nosuch" (by simp) "nosuch" (by decide +kernel))
  · obtain ⟨plan, hplan, hstages⟩ := hknown.2.2 fun stage hstage => by
      have hall : ∀ stage ∈ Stage.ofLine "echo a | pwd", ∃ name ∈ (Word.ofLine stage).head?,
        Command.resolve bareState bareMachine name ≠ none := by decide +kernel
      exact hall stage hstage
    refine ⟨plan, hplan, ?_⟩
    rw [← List.length_map (f := some), ← hstages, List.length_map]
    decide +kernel

end Line
end LineShell
