import LineShell.Proofs.Naming
import LineShell.Proofs.Planning
import LineShell.Proofs.StageCalls
import LineShell.Proofs.Unopened
import Mathlib.Tactic.TFAE

/-!
# A name stands for the same thing, whoever asks

Three parts of the shell take a name for something, and each of them answers in its own way.

| who asks       | a builtin                 | a program      | nothing                   |
|----------------|---------------------------|----------------|---------------------------|
| `type`         | `name is a shell builtin` | `name is P`    | `name: not found`         |
| a lone command | the builtin is run        | `P` is started | `name: command not found` |
| a stage        | the builtin is planned    | `P` is started | the pipeline is given up  |

For each entry of the table there is a lemma that it is the answer if and only if the name stands
for what the column says; so the entries of a column are equivalent (`classified_alike`). What the
shell does is told by its calls, since on a machine that cares for none of them all commands come
to the same.
-/

namespace LineShell

variable {σ : Type} [Host σ]

namespace Command

/-- One program is started, that in a given file, and in a given directory. -/
def Spawns (program dir : String) (calls : List Call) : Prop :=
  ∃ launch answer, launch.program = program ∧ launch.dir = dir ∧
    calls.filter Call.starts = [.start launch answer]

section Spawns

variable {program program' dir dir' : String} {calls : List Call}

theorem Spawns.unique (h : Spawns program dir calls) (h' : Spawns program' dir' calls) :
    program = program' := by
  obtain ⟨launch, answer, rfl, -, hstarts⟩ := h
  obtain ⟨launch', answer', rfl, -, hstarts'⟩ := h'
  have hsame : [Call.start launch answer] = [.start launch' answer'] := hstarts.symm.trans hstarts'
  simp only [List.cons.injEq, Call.start.injEq] at hsame
  rw [hsame.1.1]

theorem not_spawns (h : ∀ call ∈ calls, call.starts = false) : ¬ Spawns program dir calls := by
  rintro ⟨launch, answer, -, -, hstarts⟩
  rw [Call.filter_starts_eq_nil h] at hstarts
  cases hstarts

theorem spawns_concat (h : ∀ call ∈ calls, call.starts = false) (launch : Launch)
    (answer : Except OsError Child) :
    Spawns launch.program launch.dir (calls ++ [.start launch answer]) := by
  refine ⟨launch, answer, rfl, rfl, ?_⟩
  rw [List.filter_append, Call.filter_starts_eq_nil h]
  rfl

theorem Spawns.append (h : Spawns program dir calls) {new : List Call}
    (hnew : ∀ call ∈ new, call.starts = false) : Spawns program dir (calls ++ new) := by
  obtain ⟨launch, answer, hprogram, hdir, hstarts⟩ := h
  refine ⟨launch, answer, hprogram, hdir, ?_⟩
  rw [List.filter_append, hstarts, Call.filter_starts_eq_nil hnew, List.append_nil]

end Spawns

end Command

open Command

/-! ### A lone command -/

/-- A command by itself, without targets. -/
def Invocation.plain (name : String) : Invocation := ⟨name, [], {}⟩

/-- A command with a target for its standard output and none for its errors. -/
def Invocation.aimed (name : String) : Invocation :=
  ⟨name, [], { stdout := some ⟨"out", .truncate⟩ }⟩

section Alone

variable {st : State} {s : σ} {name program : String}

/-- A builtin with a target opens it, or tries to. -/
theorem exists_opens_runBuiltin (b : Builtin) {inv : Invocation} {t : Target}
    (ht : inv.redirection.stdout = some t) (st : State) (s : σ) :
    ∃ call ∈ (runBuiltin b inv st ({ machine := s } : Recorded σ)).2.2.calls, call.opens := by
  have hguarded := guarded_runBuiltin b inv st s
  generalize (runBuiltin b inv st ({ machine := s } : Recorded σ)).2.2.calls = calls at hguarded ⊢
  cases hguarded with
  | run _ htried | refused _ htried =>
    obtain ⟨call, hcall, hopens⟩ := htried.exists_opens ht
    exact ⟨call, List.mem_append_left _ hcall, hopens⟩

/-- A builtin is no report, since it opens the target of its output first. -/
theorem runBuiltin_aimed_ne (b : Builtin) (st : State) (s : σ) (message : String) :
    runBuiltin b (.aimed name) st ({ machine := s } : Recorded σ) ≠ (.proceed, st,
      report st.cwd (Invocation.aimed name).redirection message { machine := s }) := by
  intro h
  have haimed : (Invocation.aimed name).redirection.stdout = some ⟨"out", .truncate⟩ := rfl
  obtain ⟨call, hcall, hopens⟩ := exists_opens_runBuiltin b haimed st s
  rw [h] at hcall
  rcases (adds_report st.cwd _ message { machine := s }).forall_mem call hcall with ⟨t, ht, -⟩ | hw
  · cases ht
  · simp [(Call.other_of_writes hw).2.2] at hopens

theorem Invocation.run_of_builtin (inv : Invocation) {b : Builtin}
    (hc : resolve st s inv.name = some (.builtin b)) :
    inv.run st ({ machine := s } : Recorded σ) = runBuiltin b inv st { machine := s } := by
  simp only [run, resolve_recorded, hc]

theorem Invocation.run_of_none (inv : Invocation) (hc : resolve st s inv.name = none) :
    inv.run st ({ machine := s } : Recorded σ) = (.proceed, st,
      report st.cwd inv.redirection s!"{inv.name}: command not found" { machine := s }) := by
  simp only [run, resolve_recorded, hc]
  rfl

/-- A lone program whose targets can be opened is started in the working directory, and nothing else
is. -/
theorem Invocation.spawns_run {inv : Invocation}
    (hc : resolve st s inv.name = some (.external program))
    (hopen : inv.redirection.Openable st.cwd s) :
    Spawns program st.cwd (inv.run st ({ machine := s } : Recorded σ)).2.2.calls := by
  obtain ⟨⟨out, err⟩, s₁, tried, hrecord, htried⟩ := hopen.exists_recorded
  simp only [run, resolve_recorded, hc, runProgram, hrecord]
  generalize hl : Launch.mk program inv.name inv.args st.cwd .inherited _ _ = launch
  have hspawns (answer : Except OsError Child) :
      Spawns program st.cwd (tried ++ [.start launch answer]) :=
    hl ▸ spawns_concat htried launch answer
  have hstart := Recorded.calls_start launch (⟨s₁, tried⟩ : Recorded σ)
  rcases hs : Host.start launch (⟨s₁, tried⟩ : Recorded σ) with ⟨e | child, r₂⟩ <;>
    simp only [hs] at hstart ⊢
  · -- that it could not be started is reported
    obtain ⟨said, hsaid, hnot⟩ := adds_report_not_starts st.cwd inv.redirection
      (ProcessError.spawn inv.name e).message r₂
    rw [hsaid, hstart]
    exact (hspawns _).append hnot
  · have hwait := adds_awaitProgram child r₂
    rcases hw : awaitProgram child r₂ with ⟨e | _, r₃⟩ <;> rw [hw] at hwait
    · obtain ⟨said, hsaid, hnot⟩ :=
        hwait.trans (adds_report_not_starts st.cwd inv.redirection e.message r₃)
      rw [hsaid, hstart]
      exact (hspawns _).append hnot
    · obtain ⟨waited, hwaited, hnot⟩ := hwait
      rw [hwaited, hstart]
      exact (hspawns _).append hnot

namespace Command

/-- Each lone command of a name is run as a builtin, with its own arguments and targets. -/
def DispatchedTo (st : State) (s : σ) (name : String) (b : Builtin) : Prop :=
  ∀ inv : Invocation, inv.name = name →
    inv.run st ({ machine := s } : Recorded σ) = runBuiltin b inv st { machine := s }

/-- Each lone command of a name starts the program in a file in the working directory, and no other,
if its targets can be opened. -/
def SpawnedAlone (st : State) (s : σ) (name program : String) : Prop :=
  ∀ inv : Invocation, inv.name = name → inv.redirection.Openable st.cwd s →
    Spawns program st.cwd (inv.run st ({ machine := s } : Recorded σ)).2.2.calls

/-- Each lone command of a name comes to the report that there is no such command. -/
def UnknownAlone (st : State) (s : σ) (name : String) : Prop :=
  ∀ inv : Invocation, inv.name = name → inv.run st ({ machine := s } : Recorded σ) = (.proceed, st,
    report st.cwd inv.redirection s!"{name}: command not found" { machine := s })

theorem openable_plain (name cwd : String) (s : σ) :
    (Invocation.plain name).redirection.Openable cwd s :=
  ⟨by simp [Invocation.plain], by simp [Invocation.plain]⟩

/-- A program by itself is started, so it is taken for nothing else. -/
theorem spawns_plain (hc : resolve st s name = some (.external program)) :
    Spawns program st.cwd
      ((Invocation.plain name).run st ({ machine := s } : Recorded σ)).2.2.calls :=
  Invocation.spawns_run hc (openable_plain name st.cwd s)

theorem exists_dispatchedTo_iff :
    (∃ b, DispatchedTo st s name b) ↔ ∃ b, resolve st s name = some (.builtin b) := by
  constructor
  · rintro ⟨b, h⟩
    rcases hc : resolve st s name with _ | b' | program
    · have hrun := Invocation.run_of_none (.aimed name) hc
      exact absurd ((h (.aimed name) rfl).symm.trans hrun) (runBuiltin_aimed_ne b st s _)
    · exact ⟨b', rfl⟩
    · have hspawns := spawns_plain hc
      rw [h (.plain name) rfl] at hspawns
      exact absurd hspawns (not_spawns (not_starts_runBuiltin b (.plain name) st s))
  · rintro ⟨b, hc⟩
    refine ⟨b, ?_⟩
    rintro inv rfl
    exact inv.run_of_builtin hc

theorem spawnedAlone_iff :
    SpawnedAlone st s name program ↔ resolve st s name = some (.external program) := by
  constructor
  · intro h
    have hspawns := h (.plain name) rfl (openable_plain name st.cwd s)
    rcases hc : resolve st s name with _ | b | program'
    · rw [Invocation.run_of_none _ hc] at hspawns
      exact absurd hspawns (not_spawns (adds_report_not_starts ..).forall_mem)
    · rw [Invocation.run_of_builtin _ hc] at hspawns
      exact absurd hspawns (not_spawns (not_starts_runBuiltin b (.plain name) st s))
    · rw [hspawns.unique (spawns_plain hc)]
  · rintro hc inv rfl hopen
    exact Invocation.spawns_run hc hopen

theorem unknownAlone_iff : UnknownAlone st s name ↔ resolve st s name = none := by
  constructor
  · intro h
    rcases hc : resolve st s name with _ | b | program
    · rfl
    · have hrun := Invocation.run_of_builtin (.aimed name) hc
      exact absurd (hrun.symm.trans (h (.aimed name) rfl)) (runBuiltin_aimed_ne b st s _)
    · have hspawns := spawns_plain hc
      rw [h (.plain name) rfl] at hspawns
      exact absurd hspawns (not_spawns (adds_report_not_starts ..).forall_mem)
  · rintro hc inv rfl
    exact inv.run_of_none hc

end Command
end Alone

/-! ### A stage of a pipeline -/

namespace Pipeline

/-- A pipeline with a name that stands for nothing is given up for such a name. -/
theorem exists_unknown {st : State} {s : σ} {invs : List Invocation}
    (h : ∃ inv ∈ invs, resolve st s inv.name = none) :
    ∃ unknown, resolve st s unknown = none ∧ plan st s invs = .error (.notFound unknown) := by
  obtain ⟨before, inv, after, rfl, hnone, hbefore⟩ := exists_leftmost h
  exact ⟨inv.name, hnone, plan_of_leftmost hbefore hnone⟩

/-- A pipeline in which one command is still missing: the commands before it and after it, with
their plans. -/
structure Gap (st : State) (s : σ) where
  /-- The commands before the gap. -/
  before : List Invocation
  /-- The commands after it. -/
  after : List Invocation
  /-- How those before it are planned. -/
  front : List PlannedStage
  /-- How those after it are planned. -/
  back : List PlannedStage
  /-- The names before it stand for something. -/
  plan_before : plan st s before = .ok front
  /-- So do the names after it. -/
  plan_after : plan st s after = .ok back
  /-- With the missing command there are two stages at least. -/
  others : before ++ after ≠ []

namespace Gap

variable {st : State} {s : σ}

/-- The pipeline with a command in the gap. -/
def fill (g : Gap st s) (inv : Invocation) : List Invocation :=
  g.before ++ inv :: g.after

/-- The first place of two, before `echo`. -/
def beforeEcho (st : State) (s : σ) : Gap st s where
  before := []
  after := [.plain "echo"]
  front := []
  back := [⟨.plain "echo", .builtin .echo⟩]
  plan_before := rfl
  plan_after := rfl
  others := by simp

theorem plan_fill_of_some (g : Gap st s) {inv : Invocation} {c : Command}
    (hc : resolve st s inv.name = some c) :
    plan st s (g.fill inv) = .ok (g.front ++ ⟨inv, c⟩ :: g.back) := by
  have hbefore := g.plan_before
  have hafter := g.plan_after
  unfold plan at hbefore hafter ⊢
  simp [fill, hbefore, hafter, hc, bind, Except.bind, pure, Except.pure]

theorem plan_fill_of_none (g : Gap st s) {inv : Invocation} (hc : resolve st s inv.name = none) :
    plan st s (g.fill inv) = .error (.notFound inv.name) := by
  have hbefore := g.plan_before
  unfold plan at hbefore ⊢
  simp [fill, hbefore, hc, bind, Except.bind]

end Gap

theorem spawns_startStage {st : State} {inv : Invocation} {last : Bool} {s : σ}
    (hopen : (inv.redirection.used last).Openable st.cwd s) (input : Input) (program : String) :
    Spawns program st.cwd
      (startStage st input program inv last ({ machine := s } : Recorded σ)).2.calls := by
  obtain ⟨⟨out, err⟩, s₁, tried, hrecord, htried⟩ := hopen.exists_recorded
  simp only [startStage, openOutputs_eq, hrecord]
  generalize hl : Launch.mk program inv.name inv.args st.cwd input _ _ = launch
  have hspawns (answer : Except OsError Child) :
      Spawns program st.cwd (tried ++ [.start launch answer]) :=
    hl ▸ spawns_concat htried launch answer
  have hstart := Recorded.calls_start launch (⟨s₁, tried⟩ : Recorded σ)
  rcases hs : Host.start launch (⟨s₁, tried⟩ : Recorded σ) with ⟨e | child, r₂⟩ <;>
    simp only [hs] at hstart ⊢
  · exact hstart ▸ hspawns (.error e)
  · exact hstart ▸ hspawns (.ok child)

/-- A stage whose program can open its targets starts this program, and nothing else. -/
theorem StageRun.spawns {r : StageRun σ} {program : String}
    (hc : r.stage.command = .external program)
    (hopen : r.targets.Openable r.before.state.cwd r.before.machine) :
    Spawns program r.before.state.cwd r.calls := by
  obtain ⟨⟨inv, command⟩, rest, p⟩ := r
  obtain rfl : command = .external program := hc
  have hspawns := spawns_startStage hopen p.input program
  simp only [calls, pass, Point.recorded, Point.map]
  rcases hs : startStage p.state p.input program inv rest.isEmpty
    ({ machine := p.machine } : Recorded σ) with ⟨e | child, r₁⟩ <;> rw [hs] at hspawns
  · exact hspawns
  · -- handing on closes a pipe at most
    obtain ⟨new, hnew, hadds⟩ := adds_handOn child rest r₁
    simp only [hnew]
    refine hspawns.append fun call hcall => ?_
    obtain ⟨q, -, rfl⟩ := hadds call hcall
    rfl

end Pipeline

namespace Command

section Stages

variable {st : State} {s : σ} {name program : String}

/-- Wherever a command of a name is put into a pipeline, its stage is planned as one thing. -/
def PlannedAs (st : State) (s : σ) (name : String) (c : Command) : Prop :=
  ∀ (g : Pipeline.Gap st s) (inv : Invocation), inv.name = name →
    Pipeline.plan st s (g.fill inv) = .ok (g.front ++ ⟨inv, c⟩ :: g.back)

/-- Wherever a command of a name is put into a pipeline, there is a plan, and when the stage of the
command is come to it starts the program in a file in the working directory that the stages before
have left it, and no other, if it can open its targets. -/
def SpawnedInPipelines (st : State) (s : σ) (name program : String) : Prop :=
  ∀ (g : Pipeline.Gap st s) (inv : Invocation), inv.name = name →
    ∃ stages, Pipeline.plan st s (g.fill inv) = .ok stages ∧
      ∀ r, (Pipeline.stageRuns stages ⟨st, .empty, s⟩)[g.front.length]? = some r →
        r.stage.invocation = inv ∧
          (r.targets.Openable r.before.state.cwd r.before.machine →
            Spawns program r.before.state.cwd r.calls)

/-- Each pipeline with a command of a name is given up, and for this name if all others in it stand
for something. -/
def Abandoned (st : State) (s : σ) (name : String) : Prop :=
  ∀ inv : Invocation, inv.name = name →
    (∀ invs, inv ∈ invs → ∃ unknown, Pipeline.plan st s invs = .error (.notFound unknown)) ∧
      ∀ g : Pipeline.Gap st s, Pipeline.plan st s (g.fill inv) = .error (.notFound name)

theorem plannedAs_iff {c : Command} : PlannedAs st s name c ↔ resolve st s name = some c := by
  constructor
  · intro h
    have hplan := h (.beforeEcho st s) (.plain name) rfl
    rcases hc : resolve st s name with _ | c'
    · rw [Pipeline.Gap.plan_fill_of_none _ hc] at hplan
      cases hplan
    · rw [Pipeline.Gap.plan_fill_of_some _ hc] at hplan
      simpa using hplan
  · rintro hc g inv rfl
    exact g.plan_fill_of_some hc

theorem abandoned_iff : Abandoned st s name ↔ resolve st s name = none := by
  constructor
  · intro h
    have hplan := (h (.plain name) rfl).2 (.beforeEcho st s)
    rcases hc : resolve st s name with _ | c
    · rfl
    · rw [Pipeline.Gap.plan_fill_of_some _ hc] at hplan
      cases hplan
  · rintro hc inv rfl
    refine ⟨fun invs hinv => ?_, fun g => g.plan_fill_of_none hc⟩
    obtain ⟨unknown, -, hplan⟩ := Pipeline.exists_unknown ⟨inv, hinv, hc⟩
    exact ⟨unknown, hplan⟩

theorem spawnedInPipelines_iff :
    SpawnedInPipelines st s name program ↔ resolve st s name = some (.external program) := by
  constructor
  · intro h
    obtain ⟨stages, hplan, hstages⟩ := h (.beforeEcho st s) (.plain name) rfl
    rcases hc : resolve st s name with _ | c
    · rw [Pipeline.Gap.plan_fill_of_none _ hc] at hplan
      cases hplan
    · rw [Pipeline.Gap.plan_fill_of_some _ hc] at hplan
      obtain rfl := Except.ok.inj hplan
      -- the first stage is come to where the pipeline starts, and it has no targets
      let r : Pipeline.StageRun σ :=
        ⟨⟨.plain name, c⟩, (Pipeline.Gap.beforeEcho st s).back, ⟨st, .empty, s⟩⟩
      have hopen : r.targets.Openable r.before.state.cwd r.before.machine := by
        constructor
        · intro t ht
          cases ht
        · intro t ht
          cases ht
      have hspawns := (hstages r rfl).2 hopen
      cases c with
      | builtin b => exact absurd hspawns (not_spawns (Pipeline.StageRun.served rfl).starts)
      | external program' => rw [hspawns.unique (Pipeline.StageRun.spawns rfl hopen)]
  · rintro hc g inv rfl
    refine ⟨_, g.plan_fill_of_some hc, fun r hr => ?_⟩
    have hstage : r.stage = ⟨inv, .external program⟩ := by
      simpa using (Pipeline.stage_of_getElem? hr).symm
    refine ⟨by rw [hstage], fun hopen => ?_⟩
    exact Pipeline.StageRun.spawns (by rw [hstage]) hopen

end Stages

/-- **A name stands for the same thing, whoever asks.** For every state, machine and name, the three
parts of the shell agree on a builtin, on the file of a program and on nothing at all, and that is
what the name, the working directory and the search path say: a builtin comes before any program,
and otherwise a name with a slash is a path and any other is looked for. Several names are told of
one by one, in order.

The command of a line with one stage is a lone command. A line of several stages with a name that
`type` does not find comes to the message about such a name, and about this one if the others stand
for something. -/
theorem classified_alike (st : State) (s : σ) (name : String) :
    List.TFAE [
      Reports st s name s!"{name} is a shell builtin",
      ∃ b, DispatchedTo st s name b,
      ∃ b, PlannedAs st s name (.builtin b),
      ∃ b : Builtin, b.name = name] ∧
    (∀ b : Builtin, b.name = name → DispatchedTo st s name b ∧ PlannedAs st s name (.builtin b)) ∧
    (∀ program, List.TFAE [
      program ≠ "a shell builtin" ∧ Reports st s name s!"{name} is {program}",
      SpawnedAlone st s name program,
      SpawnedInPipelines st s name program,
      (∀ b : Builtin, b.name ≠ name) ∧ IsProgram st s name program]) ∧
    List.TFAE [
      Reports st s name s!"{name}: not found",
      UnknownAlone st s name,
      Abandoned st s name,
      (∀ b : Builtin, b.name ≠ name) ∧ ∀ program, ¬ IsProgram st s name program] ∧
    (∀ names : List String, names ≠ [] → ∃ texts, List.Forall₂ (Reports st s) names texts ∧
      Builtin.type.run names st s = (.ok (.text ("\n".intercalate texts)), st, s)) ∧
    (∀ line inv, Line.lone? line = some inv →
      ∀ r : Recorded σ, Line.run line st r = inv.run st r) ∧
    ∀ line invs (inv : Invocation), 2 ≤ (Stage.ofLine line).length →
      Pipeline.parse (Stage.ofLine line) = .ok invs → inv ∈ invs → inv.name = name →
      Reports st s name s!"{name}: not found" →
      ∃ unknown, Reports st s unknown s!"{unknown}: not found" ∧
        (∀ g : Pipeline.Gap st s, invs = g.fill inv → unknown = name) ∧
        Line.run line st s =
          (.proceed, st, Host.complainLine s!"{unknown}: command not found" s) := by
  refine ⟨?_, ?_, fun program => ?_, ?_, fun names => exists_reports st s,
    fun line inv hlone r => Line.run_of_lone? hlone st r, ?_⟩
  · have hbuiltin : (∃ b : Builtin, b.name = name) ↔ ∃ b, resolve st s name = some (.builtin b) :=
      exists_congr fun b => resolve_eq_builtin_iff.symm
    rw [hbuiltin]
    tfae_have 1 ↔ 4 := reports_builtin_iff
    tfae_have 2 ↔ 4 := exists_dispatchedTo_iff
    tfae_have 3 ↔ 4 := exists_congr fun b => plannedAs_iff
    tfae_finish
  · rintro b rfl
    have hc : resolve st s b.name = some (.builtin b) := resolve_eq_builtin_iff.2 rfl
    refine ⟨fun inv hinv => ?_, plannedAs_iff.2 hc⟩
    exact inv.run_of_builtin (hinv ▸ hc)
  · rw [← resolve_eq_external_iff]
    tfae_have 1 ↔ 4 := reports_program_iff
    tfae_have 2 ↔ 4 := spawnedAlone_iff
    tfae_have 3 ↔ 4 := spawnedInPipelines_iff
    tfae_finish
  · rw [← resolve_eq_none_iff]
    tfae_have 1 ↔ 4 := reports_nothing_iff
    tfae_have 2 ↔ 4 := unknownAlone_iff
    tfae_have 3 ↔ 4 := abandoned_iff
    tfae_finish
  · rintro line invs inv htwo hparse hinv rfl hreports
    have hc : resolve st s inv.name = none := reports_nothing_iff.1 hreports
    obtain ⟨unknown, hunknown, hplan⟩ := Pipeline.exists_unknown ⟨inv, hinv, hc⟩
    refine ⟨unknown, reports_nothing_iff.2 hunknown, ?_, ?_⟩
    · rintro g rfl
      rw [g.plan_fill_of_none hc] at hplan
      simpa using hplan.symm
    · exact Line.run_of_error htwo (by rw [hparse]; exact hplan)

/-- With a program `echo` in the working directory, which is also searched, `echo` is the builtin
and `./echo` the program. -/
example :
    let disk := Disk.base.install [] "/r/echo" (.file [] { executable := true })
    (Builtin.type.run ["echo", "./echo", "nosuch"] ⟨"/r", none, .ofValue (some "/r"), {}⟩
      (Machine.ofDisk disk "/r" [] [])).1 =
        .ok (.text "echo is a shell builtin\n./echo is /r/./echo\nnosuch: not found") := by
  decide +kernel

end Command
end LineShell
