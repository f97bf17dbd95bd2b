import LineShell.Proofs.Containment
import LineShell.Proofs.Feeding
import LineShell.Proofs.Unopened

/-!
# Where it is told that a program cannot be started

A program may be found, and its targets may be open, and still the machine can refuse to start it:
`Invocation.Unstarted`. That is told on one line, which names the program and the reason, but not by
everybody in the same place.

* A lone command tells it where the command wanted its errors. If that target can be opened once
  more and written to, the line ends up there, and the shell's own standard error gets nothing
  (`Line.ToldAside`).
* A stage of a pipeline gives its failure to the pipeline, which does not know the targets of its
  stages. So the line is written to the shell's standard error, after all programs that were started
  have been waited for, and the target that was opened for the errors of the stage gets nothing
  (`Pipeline.ToldByShell`). This is so in every place of a pipeline and for every cause.
-/

namespace LineShell

variable {σ : Type} [Host σ]

namespace Invocation

/-- What a program is started with: its command as typed, and targets that are open. -/
def launch (inv : Invocation) (program dir : String) (stdin : Input) (stdout : Output)
    (err : Option Handle) : Launch :=
  { program, name := inv.name, args := inv.args, dir, stdin, stdout, stderr := .ofTarget err }

/-- The machine refuses to start a program: the targets of a redirection have been opened for it, it
is to be started with them, and this fails for a cause and leaves another machine. -/
def Unstarted (inv : Invocation) (program : String) (redirection : Redirection) (stdin : Input)
    (stdout : Option Handle → Output) (st : State) (s : σ) (cause : OsError) (s' : σ) : Prop :=
  ∃ out err s₁, Target.openBoth st.cwd redirection s = (.ok (out, err), s₁) ∧
    Host.start (inv.launch program st.cwd stdin (stdout out) err) s₁ = (.error cause, s')

/-- What is told of a program that cannot be started. -/
def refusal (inv : Invocation) (cause : OsError) : String :=
  s!"{inv.name}: {cause.reason}"

section Unstarted

variable {inv : Invocation} {program : String} {st : State} {s s' : σ} {cause : OsError}

/-- On record the machine refuses alike, and the record shows the targets that were opened and the
start that failed. -/
theorem Unstarted.exists_recorded {redirection : Redirection} {stdin : Input}
    {stdout : Option Handle → Output}
    (h : inv.Unstarted program redirection stdin stdout st s cause s') :
    ∃ out err tried, redirection.Trial st.cwd (.ok (out, err)) tried ∧
      inv.Unstarted program redirection stdin stdout st ({ machine := s } : Recorded σ) cause
        ⟨s', tried ++
          [.start (inv.launch program st.cwd stdin (stdout out) err) (.error cause)]⟩ := by
  obtain ⟨out, err, s₁, hopen, hstart⟩ := h
  obtain ⟨result, s₂, tried, hopen', hrecord, htried⟩ :=
    Redirection.exists_trial st.cwd redirection s
  obtain ⟨rfl, rfl⟩ := Prod.mk.inj (hopen'.symm.trans hopen)
  refine ⟨out, err, tried, htried, out, err, _, hrecord, ?_⟩
  show Recorded.record tried _ (Host.start _ s₂) = _
  rw [hstart]
  rfl

/-- A lone program that is refused is not run. -/
theorem runProgram_of_unstarted
    (h : inv.Unstarted program inv.redirection .inherited .ofTarget st s cause s') :
    runProgram program inv st s = (.error (.spawn inv.name cause), s') := by
  obtain ⟨out, err, s₁, hopen, hstart⟩ := h
  rw [launch] at hstart
  simp only [runProgram, hopen, hstart]

/-- A lone program that is refused comes to a report. -/
theorem run_of_unstarted (hc : Command.resolve st s inv.name = some (.external program))
    (h : inv.Unstarted program inv.redirection .inherited .ofTarget st s cause s') :
    inv.run st s = (.proceed, st, report st.cwd inv.redirection (inv.refusal cause) s') := by
  simp only [run, hc, runProgram_of_unstarted h, ProcessError.message, refusal]

end Unstarted
end Invocation

/-- A report that can be made: the target of standard error is opened and written to. -/
theorem report_of_openIn {cwd message : String} {redirection : Redirection} {t : Target}
    {file : Handle} {s s₁ s₂ : σ} (ht : redirection.stderr = some t)
    (hopen : t.openIn cwd s = (.ok file, s₁))
    (hwrite : Host.write file (Bytes.ofLine message) s₁ = (.ok (), s₂)) :
    report cwd redirection message s = s₂ := by
  simp only [report, ht, Target.openIn?_some, hopen, hwrite]

/-- A target that can be opened is opened on record. -/
theorem Target.exists_openIn_recorded {cwd : String} {t : Target} {file : Handle} {s s' : σ}
    (h : t.openIn cwd s = (.ok file, s')) (calls : List Call) :
    ∃ opened, Opening cwd (some t) (some file) opened ∧
      t.openIn cwd (⟨s, calls⟩ : Recorded σ) = (.ok file, ⟨s', calls ++ opened⟩) := by
  have hmap : t.openIn cwd s = _ := openIn_map Recorded.forget cwd t ⟨s, calls⟩
  rcases ho : t.openIn cwd (⟨s, calls⟩ : Recorded σ) with ⟨result, r⟩
  rw [ho] at hmap
  obtain ⟨rfl, rfl⟩ := Prod.mk.inj (h.symm.trans hmap)
  have hopen : openIn? cwd (some t) (⟨s, calls⟩ : Recorded σ) = (.ok (some file), r) := by
    rw [openIn?_some, ho]
  obtain ⟨opened, hopening, hcalls⟩ := opening_of_openIn? hopen
  exact ⟨opened, hopening, by rw [← hcalls]; rfl⟩

theorem Call.not_writes_of_opens {call : Call} (h : call.opens) : call.writes = false := by
  cases call <;> first | rfl | cases h

/-- The failure of a lone program is told where the command wanted its errors, and nowhere else. -/
structure Line.ToldAside (line : String) (st : State) (s : σ) (inv : Invocation) (program : String)
    (cause : OsError) (t : Target) (file : Handle) (told : σ) : Prop where
  /-- The shell goes on, on the machine that has been told. -/
  run : Line.run line st s = (.proceed, st, told)
  /-- The targets are opened, the start fails, the target of standard error is opened once more, and
  the line is written to it. -/
  calls : ∃ out err tried opened, inv.redirection.Trial st.cwd (.ok (out, err)) tried ∧
    Target.Opening st.cwd (some t) (some file) opened ∧
    (Line.run line st ({ machine := s } : Recorded σ)).2.2.calls =
      tried ++ [.start (inv.launch program st.cwd .inherited (.ofTarget out) err) (.error cause)] ++
        opened ++ [.write file (Bytes.ofLine (inv.refusal cause)) (.ok ())]
  /-- The shell's standard error gets nothing. -/
  silent : ∀ call ∈ (Line.run line st ({ machine := s } : Recorded σ)).2.2.calls,
    call.complains = false

/-- A lone program that cannot be started tells it to the target of its errors. -/
theorem Line.toldAside {line : String} {st : State} {s s₁ s₂ s₃ : σ} {inv : Invocation}
    {program : String} {cause : OsError} {t : Target} {file : Handle}
    (hlone : lone? line = some inv)
    (hc : Command.resolve st s inv.name = some (.external program))
    (hun : inv.Unstarted program inv.redirection .inherited .ofTarget st s cause s₁)
    (ht : inv.redirection.stderr = some t) (hopen : t.openIn st.cwd s₁ = (.ok file, s₂))
    (hwrite : Host.write file (Bytes.ofLine (inv.refusal cause)) s₂ = (.ok (), s₃)) :
    ToldAside line st s inv program cause t file s₃ := by
  have hc' : Command.resolve st ({ machine := s } : Recorded σ) inv.name =
      some (.external program) := (Command.resolve_recorded st s inv.name).trans hc
  obtain ⟨out, err, tried, htried, hun'⟩ := hun.exists_recorded
  obtain ⟨opened, hopening, hopen'⟩ := Target.exists_openIn_recorded hopen
    (tried ++ [.start (inv.launch program st.cwd .inherited (.ofTarget out) err) (.error cause)])
  have hwrite' (calls : List Call) :
      Host.write file (Bytes.ofLine (inv.refusal cause)) (⟨s₂, calls⟩ : Recorded σ) =
        (.ok (), ⟨s₃, calls ++ [.write file (Bytes.ofLine (inv.refusal cause)) (.ok ())]⟩) := by
    show Recorded.record calls _ (Host.write _ _ s₂) = _
    rw [hwrite]
    rfl
  have hcalls : (run line st ({ machine := s } : Recorded σ)).2.2.calls =
      tried ++ [.start (inv.launch program st.cwd .inherited (.ofTarget out) err) (.error cause)] ++
        opened ++ [.write file (Bytes.ofLine (inv.refusal cause)) (.ok ())] := by
    rw [run_of_lone? hlone, Invocation.run_of_unstarted hc' hun',
      report_of_openIn ht hopen' (hwrite' _)]
  refine ⟨?_, ⟨out, err, tried, opened, htried, hopening, hcalls⟩, fun call hcall => ?_⟩
  · rw [run_of_lone? hlone, Invocation.run_of_unstarted hc hun, report_of_openIn ht hopen hwrite]
  · rw [hcalls] at hcall
    simp only [List.mem_append, List.mem_singleton] at hcall
    rcases hcall with ((hcall | rfl) | hcall) | rfl
    · exact Call.not_complains_of_own (.inl (htried.opens call hcall))
    · rfl
    · obtain ⟨t', -, ht'⟩ := hopening.opens call hcall
      exact Call.not_complains_of_own (.inl ht'.opens)
    · rfl

namespace Pipeline

/-- The machine refuses to start the program of a stage. -/
def StageRun.Unstarted (r : StageRun σ) (program : String) (cause : OsError) (s' : σ) : Prop :=
  r.stage.command = .external program ∧
    r.stage.invocation.Unstarted program r.targets r.before.input
      (fun out => if r.rest.isEmpty then .ofTarget out else .pipe) r.before.state r.before.machine
      cause s'

theorem startStage_of_unstarted {st : State} {input : Input} {program : String} {inv : Invocation}
    {last : Bool} {s s' : σ} {cause : OsError}
    (h : inv.Unstarted program (inv.redirection.used last) input
      (fun out => if last then .ofTarget out else .pipe) st s cause s') :
    startStage st input program inv last s = (.error (.spawn inv.name cause), s') := by
  obtain ⟨out, err, s₁, hopen, hstart⟩ := h
  rw [Invocation.launch] at hstart
  simp only [startStage, openOutputs_eq, hopen, hstart]

namespace StageRun

variable {r : StageRun σ} {program : String} {cause : OsError} {s' : σ}

/-- A stage whose program is refused gives up the pipeline. -/
theorem outcome_of_unstarted (h : r.Unstarted program cause s') :
    r.outcome = .error (.spawn r.stage.invocation.name cause) := by
  obtain ⟨⟨inv, command⟩, rest, p⟩ := r
  obtain ⟨rfl, hun⟩ := h
  have hstart : startStage p.state p.input program inv rest.isEmpty p.machine = _ :=
    startStage_of_unstarted hun
  simp only [outcome, pass, hstart]

/-- A stage whose program is refused has opened the targets that it uses, and then the start has
failed; it has done nothing else. -/
theorem calls_of_unstarted (h : r.Unstarted program cause s') :
    ∃ out err tried, r.targets.Trial r.before.state.cwd (.ok (out, err)) tried ∧
      r.calls = tried ++ [.start (r.stage.invocation.launch program r.before.state.cwd
        r.before.input (if r.rest.isEmpty then .ofTarget out else .pipe) err) (.error cause)] := by
  obtain ⟨⟨inv, command⟩, rest, p⟩ := r
  obtain ⟨rfl, hun⟩ := h
  obtain ⟨out, err, tried, htried, hun'⟩ := hun.exists_recorded
  have hstart : startStage p.state p.input program inv rest.isEmpty
      ({ machine := p.machine } : Recorded σ) = _ := startStage_of_unstarted hun'
  refine ⟨out, err, tried, htried, ?_⟩
  simp only [calls, pass, Point.recorded, Point.map, hstart]

end StageRun

/-- The failure of a program in the place `k` of a pipeline is told on the shell's standard error,
whatever targets the program has. -/
structure ToldByShell (line : String) (st : State) (s : σ) (stages : List PlannedStage) (k : Nat)
    (r : StageRun σ) (program : String) (cause : OsError) : Prop where
  /-- The shell goes on; the line comes after all that the pipeline does. -/
  run : Line.run line st s =
    (.proceed, st, Host.complainLine (r.stage.invocation.refusal cause) (execute st stages s).2)
  /-- The stages up to this one do their part, the programs of those before it are waited for, and
  then the line is written to the shell's standard error. -/
  calls : (Line.run line st ({ machine := s } : Recorded σ)).2.2.calls =
    ((stageRuns stages ⟨st, .empty, s⟩).take k).flatMap StageRun.calls ++ r.calls ++
      (((stageRuns stages ⟨st, .empty, s⟩).take k).filterMap StageRun.child?).map Call.wait ++
      [.complain (Bytes.ofLine (r.stage.invocation.refusal cause))]
  /-- The stage opens the targets that it uses, and the start fails. -/
  opened : ∃ out err tried, r.targets.Trial r.before.state.cwd (.ok (out, err)) tried ∧
    r.calls = tried ++ [.start (r.stage.invocation.launch program r.before.state.cwd
      r.before.input (if r.rest.isEmpty then .ofTarget out else .pipe) err) (.error cause)]
  /-- Nothing is written for the stage. -/
  unwritten : ∀ call ∈ r.calls, call.writes = false

/-- A program of a pipeline that cannot be started is told of by the shell. -/
theorem toldByShell {line : String} {st : State} {s s' : σ} {stages : List PlannedStage} {k : Nat}
    {r : StageRun σ} {program : String} {cause : OsError}
    (htwo : 2 ≤ (Stage.ofLine line).length)
    (hplan : (parse (Stage.ofLine line)).bind (plan st s) = .ok stages)
    (hr : (stageRuns stages ⟨st, .empty, s⟩)[k]? = some r) (hun : r.Unstarted program cause s') :
    ToldByShell line st s stages k r program cause := by
  have hfails := StageRun.outcome_of_unstarted hun
  have hcontained := contained_of_error hr hfails
  obtain ⟨out, err, tried, htried, hcalls⟩ := StageRun.calls_of_unstarted hun
  have hflat : (stageRuns stages ⟨st, .empty, s⟩).flatMap StageRun.calls =
      ((stageRuns stages ⟨st, .empty, s⟩).take k).flatMap StageRun.calls ++ r.calls := by
    conv_lhs => rw [← stageRuns_take_append hr hfails]
    rw [List.flatMap_append, List.flatMap_singleton]
  refine ⟨Line.run_of_stage_error htwo hplan hr hfails, ?_, ⟨out, err, tried, htried, hcalls⟩,
    fun call hcall => ?_⟩
  · have hplan' : (parse (Stage.ofLine line)).bind (plan st ({ machine := s } : Recorded σ)) =
        .ok stages := by
      rw [← hplan, ← plan_map Recorded.forget]
      rfl
    obtain ⟨r', hr', ho⟩ := exists_recorded hr
    have hruns := hcontained.calls
    rw [hflat] at hruns
    rw [Line.run_of_stage_error htwo hplan' hr' (ho.trans hfails)]
    exact congrArg (· ++ [Call.complain (Bytes.ofLine (r.stage.invocation.refusal cause))]) hruns
  · rw [hcalls, List.mem_append, List.mem_singleton] at hcall
    rcases hcall with hcall | rfl
    · exact Call.not_writes_of_opens (htried.opens call hcall)
    · rfl

end Pipeline

/-- **Where it is told that a program cannot be started.** A program is found, its targets are open,
and the machine refuses to start it, whatever the cause.

* If it is a lone command and the target of its errors can be opened once more and takes the line
  with the program's name and the reason, the line is written there, and the shell's standard error
  gets nothing.
* If it is a stage of a pipeline, in whatever place, that line is written to the shell's standard
  error, whatever the targets of the stage are, and nothing is written for the stage. -/
theorem start_failure_told (line : String) (st : State) (s : σ) :
    (∀ (inv : Invocation) (program : String) (cause : OsError) (s₁ : σ),
      Line.lone? line = some inv → Command.resolve st s inv.name = some (.external program) →
      inv.Unstarted program inv.redirection .inherited .ofTarget st s cause s₁ →
      ∀ (t : Target) (file : Handle) (s₂ s₃ : σ), inv.redirection.stderr = some t →
        t.openIn st.cwd s₁ = (.ok file, s₂) →
        Host.write file (Bytes.ofLine s!"{inv.name}: {cause.reason}") s₂ = (.ok (), s₃) →
        Line.ToldAside line st s inv program cause t file s₃) ∧
    ∀ stages : List PlannedStage, 2 ≤ (Stage.ofLine line).length →
      (Pipeline.parse (Stage.ofLine line)).bind (Pipeline.plan st s) = .ok stages →
      ∀ (k : Nat) (r : Pipeline.StageRun σ) (program : String) (cause : OsError) (s₁ : σ),
        (Pipeline.stageRuns stages ⟨st, .empty, s⟩)[k]? = some r → r.Unstarted program cause s₁ →
        Pipeline.ToldByShell line st s stages k r program cause := by
  constructor
  · intro inv program cause s₁ hlone hc hun t file s₂ s₃ ht hopen hwrite
    exact Line.toldAside hlone hc hun ht hopen hwrite
  · intro stages htwo hplan k r program cause s₁ hr hun
    exact Pipeline.toldByShell htwo hplan hr hun

namespace Machine

/-- A machine with a file in `/r` that may be executed and is no program. -/
def withJunk : Machine :=
  .ofDisk (Disk.base.install [] "/r/bad" (.file (Bytes.ofText "junk\n") { executable := true }))
    "/r" [] []

/-- The command `bad 2> err`. -/
def badAside : Invocation := ⟨"bad", [], { stderr := some ⟨"err", .truncate⟩ }⟩

/-- The stages of `echo hi | bad 2> err`. -/
def echoBad : List PlannedStage :=
  [⟨⟨"echo", ["hi"], {}⟩, .builtin .echo⟩, ⟨badAside, .external "/r/bad"⟩]

/-- An answer of a machine that is known, and the machine that it leaves. -/
theorem eq_mk_of_fst {α : Type} {x : α × Machine} {a : α} (h : x.1 = a) : x = (a, x.2) :=
  Prod.ext h rfl

/-- `bad` cannot be started and tells so in its target; behind a builtin it is told of by the
shell. -/
theorem start_failure_told_junk :
    (∃ file m, Line.ToldAside "bad 2> err" inScripts withJunk badAside "/r/bad" .notExecutable
        ⟨"err", .truncate⟩ file m ∧
      m.disk.read [] "/r/err" = .ok (Bytes.ofLine "bad: Exec format error") ∧ m.errors = []) ∧
    ∃ r, Pipeline.ToldByShell "echo hi | bad 2> err" inScripts withJunk echoBad 1 r "/r/bad"
      .notExecutable := by
  constructor
  · obtain ⟨hlone, -⟩ := start_failure_told "bad 2> err" inScripts withJunk
    have hun : badAside.Unstarted "/r/bad" badAside.redirection .inherited .ofTarget inScripts
        withJunk .notExecutable _ :=
      ⟨none, some ⟨0⟩, _, eq_mk_of_fst (by decide +kernel), eq_mk_of_fst (by decide +kernel)⟩
    have htold := hlone badAside "/r/bad" .notExecutable _ (by decide +kernel) (by decide +kernel)
      hun ⟨"err", .truncate⟩ ⟨1⟩ _ _ rfl (eq_mk_of_fst (by decide +kernel))
      (eq_mk_of_fst (by decide +kernel))
    exact ⟨⟨1⟩, _, htold, by decide +kernel, by decide +kernel⟩
  · obtain ⟨-, hstages⟩ := start_failure_told "echo hi | bad 2> err" inScripts withJunk
    have hun : (⟨⟨badAside, .external "/r/bad"⟩, [], inScripts, .buffer (Bytes.ofLine "hi"),
        withJunk⟩ : Pipeline.StageRun Machine).Unstarted "/r/bad" .notExecutable _ :=
      ⟨rfl, none, some ⟨0⟩, _, eq_mk_of_fst (by decide +kernel), eq_mk_of_fst (by decide +kernel)⟩
    exact ⟨_, hstages echoBad (by decide +kernel) (by decide +kernel) 1 _ "/r/bad" .notExecutable _
      rfl hun⟩

/-- In a pipeline the target of `bad` is made and stays empty, and the shell's standard error gets
the line. -/
theorem refusal_misses_target :
    (Line.run "echo hi | bad 2> err" inScripts withJunk).2.2.errors =
      Bytes.ofLine "bad: Exec format error" ∧
    (Line.run "echo hi | bad 2> err" inScripts withJunk).2.2.disk.read [] "/r/err" = .ok [] := by
  constructor <;> decide +kernel

end Machine
end LineShell
