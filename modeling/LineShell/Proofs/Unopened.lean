import LineShell.Proofs.Changes
import LineShell.Proofs.StageRuns
import LineShell.Proofs.Targets

/-!
# A command whose output cannot be opened is never run

A command comes to be run by three routes: as a lone builtin, as a lone program and as a stage of a
pipeline. On each of them its targets are tried before anything else is done for it, from the
working directory that it finds, and it is run only if all of them are open (`Command.Guarded`). So
`cd` opens its targets in the directory that it is about to leave.

If a target cannot be opened, a builtin leaves the state as it was and a program is not started, and
the shell goes on (`never_run_unopened`). A builtin in front of another stage has no part in this:
it has no targets but that of its errors, which is opened when there is an error to be told.
-/

namespace LineShell

variable {σ : Type}

theorem Recorded.Adds.grows {P : Call → Prop} {r r' : Recorded σ} (h : Adds P r r') :
    r.calls <+: r'.calls := by
  obtain ⟨new, hnew, -⟩ := h
  exact ⟨new, hnew.symm⟩

variable [Host σ]

namespace Command

/-- The calls begin with those of running a command: those that a builtin makes by itself, or the
start of a program. -/
def Begins (c : Command) (inv : Invocation) (st : State) (s : σ) (calls : List Call) : Prop :=
  match c with
  | builtin b => (b.run inv.args st ({ machine := s } : Recorded σ)).2.2.calls <+: calls
  | external program => ∃ launch answer, launch.program = program ∧ launch.dir = st.cwd ∧
      [.start launch answer] <+: calls

theorem Begins.append {c : Command} {inv : Invocation} {st : State} {s : σ} {calls : List Call}
    (h : c.Begins inv st s calls) (new : List Call) : c.Begins inv st s (calls ++ new) := by
  cases c with
  | builtin b => exact h.trans (List.prefix_append ..)
  | external program =>
    obtain ⟨launch, answer, hprogram, hdir, hcalls⟩ := h
    exact ⟨launch, answer, hprogram, hdir, hcalls.trans (List.prefix_append ..)⟩

/-- The calls for a command in their order. Its targets are tried first, from the directory that it
finds, and it is run only if they are all open. -/
inductive Guarded (c : Command) (inv : Invocation) (redirection : Redirection) (st : State)
    (s : σ) : List Call → Prop where
  /-- The targets are opened, and then the command is run on the machine that this leaves. -/
  | run {files : Option Handle × Option Handle} {s₁ : σ} {tried more : List Call}
      (hopen : Target.openBoth st.cwd redirection s = (.ok files, s₁))
      (htried : redirection.Trial st.cwd (.ok files) tried) (hmore : c.Begins inv st s₁ more) :
    Guarded c inv redirection st s (tried ++ more)
  /-- A target blocks, and nothing is started. -/
  | refused {e : ProcessError} {s₁ : σ} {tried more : List Call}
      (hblocked : redirection.Blocked st.cwd s e s₁)
      (htried : redirection.Trial st.cwd (.error e) tried)
      (hmore : ∀ call ∈ more, call.starts = false) :
    Guarded c inv redirection st s (tried ++ more)

section Guarded

variable {c : Command} {inv : Invocation} {redirection : Redirection} {st : State} {s : σ}
  {calls : List Call}

theorem Guarded.append (h : c.Guarded inv redirection st s calls) {new : List Call}
    (hnew : ∀ call ∈ new, call.starts = false) : c.Guarded inv redirection st s (calls ++ new) := by
  cases h with
  | run hopen htried hmore =>
    rw [List.append_assoc]
    exact .run hopen htried (hmore.append new)
  | refused hblocked htried hmore =>
    rw [List.append_assoc]
    exact .refused hblocked htried (List.forall_mem_append.2 ⟨hmore, hnew⟩)

/-- A program that is started right after its targets have been opened. -/
theorem Guarded.of_start {program : String} {files : Option Handle × Option Handle} {s₁ : σ}
    {tried : List Call} {launch : Launch} {answer : Except OsError Child}
    (hopen : Target.openBoth st.cwd redirection s = (.ok files, s₁))
    (htried : redirection.Trial st.cwd (.ok files) tried) (hprogram : launch.program = program)
    (hdir : launch.dir = st.cwd) (h : tried ++ [.start launch answer] <+: calls) :
    (external program).Guarded inv redirection st s calls := by
  obtain ⟨more, rfl⟩ := h
  rw [List.append_assoc]
  exact .run hopen htried ⟨launch, answer, hprogram, hdir, more, rfl⟩

/-- With a target that cannot be opened nothing is started. -/
theorem Guarded.not_starts (h : c.Guarded inv redirection st s calls)
    (hopen : ¬ redirection.Openable st.cwd s) : ∀ call ∈ calls, call.starts = false := by
  cases h with
  | run hopened => exact absurd (Redirection.openable_iff.2 ⟨_, _, hopened⟩) hopen
  | refused _ htried hmore => exact List.forall_mem_append.2 ⟨htried.not_starts, hmore⟩

end Guarded

/-- The machine after it has been told that a target of a lone command cannot be opened: for a
builtin on the shell's standard error, for a program on its own. -/
def tell (c : Command) (inv : Invocation) (cwd : String) (e : ProcessError) (s : σ) : σ :=
  match c with
  | builtin _ => Host.complainLine s!"{inv.name}: {e.message}" s
  | external _ => report cwd inv.redirection e.message s

end Command

open Command

/-- A builtin whose target blocks is not run. -/
theorem runBuiltin_of_blocked {b : Builtin} {inv : Invocation} {st : State} {s s' : σ}
    {e : ProcessError} (h : inv.redirection.Blocked st.cwd s e s') :
    runBuiltin b inv st s = (.proceed, st, (builtin b).tell inv st.cwd e s') := by
  rw [runBuiltin, Redirection.blocked_iff.1 h, Command.tell]

/-- A builtin with targets is run after they have been opened. -/
theorem guarded_runBuiltin (b : Builtin) (inv : Invocation) (st : State) (s : σ) :
    (builtin b).Guarded inv inv.redirection st s
      (runBuiltin b inv st ({ machine := s } : Recorded σ)).2.2.calls := by
  obtain ⟨result, s₁, tried, hopen, hrecord, htried⟩ :=
    Redirection.exists_trial st.cwd inv.redirection s
  rcases result with e | ⟨out, err⟩
  · have hrun : runBuiltin b inv st ({ machine := s } : Recorded σ) = _ :=
      runBuiltin_of_blocked (Redirection.blocked_iff.2 hrecord)
    rw [hrun]
    exact .refused (Redirection.blocked_iff.2 hopen) htried fun call hcall => by
      rw [List.mem_singleton.1 hcall]
      rfl
  · -- what the builtin does by itself comes right after the calls for its targets
    have hown : (b.run inv.args st (⟨s₁, tried⟩ : Recorded σ)).2.2.calls =
        tried ++ (b.run inv.args st ({ machine := s₁ } : Recorded σ)).2.2.calls := by
      have honto := b.run_map (Recorded.onto tried) inv.args st { machine := s₁ }
      simp only [Recorded.onto_apply, List.append_nil] at honto
      rw [honto]
      rfl
    obtain ⟨said, hsaid⟩ := (adds_runBuiltin_of_run (b := b) hrecord).grows
    rw [← hsaid, hown, List.append_assoc]
    exact .run hopen htried ⟨said, rfl⟩

/-- A lone program whose target blocks is not started. -/
theorem Invocation.run_of_blocked {inv : Invocation} {st : State} {s s' : σ} {c : Command}
    {e : ProcessError} (hc : Command.resolve st s inv.name = some c)
    (h : inv.redirection.Blocked st.cwd s e s') :
    inv.run st s = (.proceed, st, c.tell inv st.cwd e s') := by
  rw [run, hc]
  cases c with
  | builtin b => exact runBuiltin_of_blocked h
  | external program => simp only [runProgram, Redirection.blocked_iff.1 h, Command.tell]

/-- A lone command is run after its targets have been opened. -/
theorem Invocation.guarded_run {inv : Invocation} {st : State} {s : σ} {c : Command}
    (hc : Command.resolve st s inv.name = some c) :
    c.Guarded inv inv.redirection st s (inv.run st ({ machine := s } : Recorded σ)).2.2.calls := by
  have hc' : Command.resolve st ({ machine := s } : Recorded σ) inv.name = some c :=
    (Command.resolve_recorded st s inv.name).trans hc
  cases c with
  | builtin b =>
    simp only [run, hc']
    exact guarded_runBuiltin b inv st s
  | external program =>
    obtain ⟨result, s₁, tried, hopen, hrecord, htried⟩ :=
      Redirection.exists_trial st.cwd inv.redirection s
    rcases result with e | ⟨out, err⟩
    · rw [Invocation.run_of_blocked hc' (Redirection.blocked_iff.2 hrecord)]
      obtain ⟨new, hnew, hnot⟩ :=
        adds_report_not_starts st.cwd inv.redirection e.message (⟨s₁, tried⟩ : Recorded σ)
      rw [Command.tell, hnew]
      exact .refused (Redirection.blocked_iff.2 hopen) htried hnot
    · simp only [run, hc', runProgram, hrecord]
      generalize hl : Launch.mk program inv.name inv.args st.cwd .inherited _ _ = launch
      have hstart := Recorded.calls_start launch (⟨s₁, tried⟩ : Recorded σ)
      have hprogram : launch.program = program := by rw [← hl]
      have hdir : launch.dir = st.cwd := by rw [← hl]
      rcases hs : Host.start launch (⟨s₁, tried⟩ : Recorded σ) with ⟨e | child, r₂⟩ <;>
        simp only [hs] at hstart ⊢
      · exact .of_start hopen htried hprogram hdir (hstart ▸ (adds_report ..).grows)
      · have hwait := adds_awaitProgram child r₂
        rcases hw : awaitProgram child r₂ with ⟨e | _, r₃⟩ <;> rw [hw] at hwait
        · have hadds := hwait.trans (adds_report_not_starts st.cwd inv.redirection e.message r₃)
          exact .of_start hopen htried hprogram hdir (hstart ▸ hadds.grows)
        · exact .of_start hopen htried hprogram hdir (hstart ▸ hwait.grows)

namespace Pipeline

/-- A program of a pipeline whose target blocks is not started. -/
theorem startStage_of_blocked {st : State} {input : Input} {program : String} {inv : Invocation}
    {last : Bool} {s s' : σ} {e : ProcessError}
    (h : (inv.redirection.used last).Blocked st.cwd s e s') :
    startStage st input program inv last s = (.error e, discard input s') := by
  simp only [startStage, openOutputs_eq, Redirection.blocked_iff.1 h]

/-- A program of a pipeline is started after the targets that it uses have been opened. -/
theorem guarded_startStage (st : State) (input : Input) (program : String) (inv : Invocation)
    (last : Bool) (s : σ) :
    (external program).Guarded inv (inv.redirection.used last) st s
      (startStage st input program inv last ({ machine := s } : Recorded σ)).2.calls := by
  obtain ⟨result, s₁, tried, hopen, hrecord, htried⟩ :=
    Redirection.exists_trial st.cwd (inv.redirection.used last) s
  rcases result with e | ⟨out, err⟩
  · rw [startStage_of_blocked (Redirection.blocked_iff.2 hrecord), calls_discard]
    refine .refused (Redirection.blocked_iff.2 hopen) htried fun call hcall => ?_
    cases input with
    | pipe p =>
      rw [List.mem_singleton.1 hcall]
      rfl
    | _ => cases hcall
  · simp only [startStage, openOutputs_eq, hrecord]
    generalize hl : Launch.mk program inv.name inv.args st.cwd input _ _ = launch
    have hstart := Recorded.calls_start launch (⟨s₁, tried⟩ : Recorded σ)
    have hprogram : launch.program = program := by rw [← hl]
    have hdir : launch.dir = st.cwd := by rw [← hl]
    rcases hs : Host.start launch (⟨s₁, tried⟩ : Recorded σ) with ⟨e | child, r₂⟩ <;>
      simp only [hs] at hstart ⊢
    · exact hstart ▸ .of_start hopen htried hprogram hdir List.prefix_rfl
    · exact hstart ▸ .of_start hopen htried hprogram hdir List.prefix_rfl

namespace StageRun

/-- The targets that the stage uses. -/
def targets (r : StageRun σ) : Redirection :=
  r.stage.invocation.redirection.used r.rest.isEmpty

/-- The stage of a program and the last stage are run after the targets that they use have been
opened. -/
theorem guarded {r : StageRun σ} (h : ∀ b, r.stage.command = .builtin b → r.rest = []) :
    r.stage.command.Guarded r.stage.invocation r.targets r.before.state r.before.machine
      r.calls := by
  obtain ⟨⟨inv, b | program⟩, rest, p⟩ := r
  · obtain rfl : rest = [] := h b rfl
    exact guarded_runBuiltin b inv p.state p.machine
  · have hguarded := guarded_startStage p.state p.input program inv rest.isEmpty p.machine
    simp only [calls, pass, Point.recorded, Point.map]
    rcases hs : startStage p.state p.input program inv rest.isEmpty
      ({ machine := p.machine } : Recorded σ) with ⟨e | child, r₁⟩ <;> rw [hs] at hguarded
    · exact hguarded
    · obtain ⟨new, hnew, hadds⟩ := adds_handOn child rest r₁
      simp only [hnew]
      refine hguarded.append fun call hcall => ?_
      obtain ⟨q, -, rfl⟩ := hadds call hcall
      rfl

/-- What comes of a stage whose target blocks: a builtin of the last stage tells it and leaves the
state alone, and a program gives up the pipeline. -/
theorem pass_of_blocked {r : StageRun σ} (h : ∀ b, r.stage.command = .builtin b → r.rest = [])
    {e : ProcessError} {s' : σ}
    (hblocked : r.targets.Blocked r.before.state.cwd r.before.machine e s') :
    r.after.state = r.before.state ∧
    (∀ b, r.stage.command = .builtin b → r.outcome = .ok none ∧
      r.after.machine = (builtin b).tell r.stage.invocation r.before.state.cwd e s') ∧
    ∀ program, r.stage.command = .external program → r.outcome = .error e ∧
      r.after.machine = discard r.before.input s' := by
  obtain ⟨⟨inv, b | program⟩, rest, p⟩ := r
  · obtain rfl : rest = [] := h b rfl
    have hrun : runBuiltin b inv p.state p.machine = _ := runBuiltin_of_blocked hblocked
    refine ⟨?_, fun b' hb => ?_, fun _ hp => (by cases hp)⟩
    · simp [after, pass, hrun]
    · obtain rfl : b = b' := by simpa using hb
      simp [outcome, after, pass, hrun]
  · have hstart : startStage p.state p.input program inv rest.isEmpty p.machine = _ :=
      startStage_of_blocked hblocked
    refine ⟨?_, fun _ hb => (by cases hb), fun _ _ => ?_⟩
    · simp [after, pass, hstart]
    · simp [outcome, after, pass, hstart]

end StageRun
end Pipeline

/-- **A command whose output cannot be opened is never run.** For a lone command, for a program of a
pipeline and for a builtin in its last stage: the targets that it uses are tried before anything
else is done for it, standard output before standard error, from the working directory that the
command finds, and it is run only if all of them are open. If one cannot be opened, no program is
started and the state stays exactly as it was; a lone command and the last builtin come to nothing
but a message, and a program gives up its pipeline. In all these cases the shell goes on. -/
theorem never_run_unopened (st : State) (s : σ) :
    (∀ (line : String) (inv : Invocation) (c : Command), Line.lone? line = some inv →
      Command.resolve st s inv.name = some c →
      c.Guarded inv inv.redirection st s
        (Line.run line st ({ machine := s } : Recorded σ)).2.2.calls ∧
      (¬ inv.redirection.Openable st.cwd s →
        (∀ call ∈ (Line.run line st ({ machine := s } : Recorded σ)).2.2.calls,
          call.starts = false) ∧
        ∃ e s', inv.redirection.Blocked st.cwd s e s' ∧
          Line.run line st s = (.proceed, st, c.tell inv st.cwd e s'))) ∧
    (∀ (stages : List PlannedStage), ∀ r ∈ Pipeline.stageRuns stages ⟨st, .empty, s⟩,
      (∀ b, r.stage.command = .builtin b → r.rest = []) →
      r.stage.command.Guarded r.stage.invocation r.targets r.before.state r.before.machine
        r.calls ∧
      (¬ r.targets.Openable r.before.state.cwd r.before.machine →
        (∀ call ∈ r.calls, call.starts = false) ∧
        r.after.state = r.before.state ∧
        ∃ e s', r.targets.Blocked r.before.state.cwd r.before.machine e s' ∧
          (∀ b, r.stage.command = .builtin b → r.outcome = .ok none ∧
            r.after.machine = (builtin b).tell r.stage.invocation r.before.state.cwd e s') ∧
          ∀ program, r.stage.command = .external program → r.outcome = .error e ∧
            r.after.machine = Pipeline.discard r.before.input s')) ∧
    ∀ line : String, 2 ≤ (Stage.ofLine line).length →
      (Line.run line st s).1 = .proceed ∧ (Line.run line st s).2.1 = st := by
  refine ⟨fun line inv c hlone hc => ?_, fun stages r _ hlast => ?_, fun line h =>
    Line.run_of_two_le h st s⟩
  · rw [Line.run_of_lone? hlone, Line.run_of_lone? hlone]
    have hguarded := Invocation.guarded_run hc
    refine ⟨hguarded, fun hopen => ⟨hguarded.not_starts hopen, ?_⟩⟩
    obtain ⟨e, s', hblocked⟩ := Redirection.not_openable_iff.1 hopen
    exact ⟨e, s', hblocked, Invocation.run_of_blocked hc hblocked⟩
  · have hguarded := Pipeline.StageRun.guarded hlast
    refine ⟨hguarded, fun hopen => ⟨hguarded.not_starts hopen, ?_⟩⟩
    obtain ⟨e, s', hblocked⟩ := Redirection.not_openable_iff.1 hopen
    obtain ⟨hstate, hrest⟩ := Pipeline.StageRun.pass_of_blocked hlast hblocked
    exact ⟨hstate, e, s', hblocked, hrest⟩

namespace Machine

open State (besideSub)

/-- A `cd` to `sub` with its output sent to the directory itself stays where it is, and with its
output sent to a file it makes this in the directory that it leaves. -/
theorem never_run_unopened_cd :
    (∃ e s', Line.run "cd sub > sub" ⟨"/r", none, .ofValue none, {}⟩ besideSub =
      (.proceed, ⟨"/r", none, .ofValue none, {}⟩,
        Host.complainLine s!"cd: {ProcessError.message e}" s')) ∧
    (∃ file more, (Line.run "cd sub > f" ⟨"/r", none, .ofValue none, {}⟩
        ({ machine := besideSub } : Recorded Machine)).2.2.calls =
      [.makeDirs "/r" (.ok ()), .create "/r/f" .truncate (.ok file)] ++ more) ∧
    (Line.run "cd sub > f" ⟨"/r", none, .ofValue none, {}⟩ besideSub).2.1.cwd = "/r/sub" := by
  obtain ⟨hlone, -⟩ := never_run_unopened ⟨"/r", none, .ofValue none, {}⟩ besideSub
  refine ⟨?_, ?_, by decide +kernel⟩
  · have hnot : ¬ (Redirection.mk (some ⟨"sub", .truncate⟩) none).Openable "/r" besideSub := by
      rw [Redirection.openable_iff]
      rintro ⟨files, s', h⟩
      have hok : (Target.openBoth "/r" (Redirection.mk (some ⟨"sub", .truncate⟩) none)
        besideSub).1.isOk = false := by decide +kernel
      rw [h] at hok
      cases hok
    obtain ⟨-, hrefused⟩ := hlone "cd sub > sub"
      ⟨"cd", ["sub"], ⟨some ⟨"sub", .truncate⟩, none⟩⟩ (.builtin .cd) (by decide +kernel) rfl
    obtain ⟨-, e, s', -, hrun⟩ := hrefused hnot
    exact ⟨e, s', hrun⟩
  · obtain ⟨hguarded, -⟩ := hlone "cd sub > f" ⟨"cd", ["sub"], ⟨some ⟨"f", .truncate⟩, none⟩⟩
      (.builtin .cd) (by decide +kernel) rfl
    generalize (Line.run "cd sub > f" ⟨"/r", none, .ofValue none, {}⟩
      ({ machine := besideSub } : Recorded Machine)).2.2.calls = calls at hguarded ⊢
    have hok : (Target.openBoth "/r" (Redirection.mk (some ⟨"f", .truncate⟩) none)
      besideSub).1.isOk = true := by decide +kernel
    cases hguarded with
    | refused hblocked =>
      rw [Redirection.blocked_iff.1 hblocked] at hok
      cases hok
    | run _ htried _ =>
      obtain ⟨hout, herr⟩ := htried
      cases hout with
      | some t file =>
        cases herr
        exact ⟨file, _, rfl⟩

end Machine
end LineShell
