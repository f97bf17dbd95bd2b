import LineShell.Machine.Instance
import LineShell.Machine.Setup
import LineShell.Proofs.StageCalls

/-!
# How the stages of a pipeline are connected

`Wiring` says where the streams of the programs in a pipeline come from and go to, and which targets
are opened:

| stage                    | reads                   | its standard output goes              |
|--------------------------|-------------------------|---------------------------------------|
| program, first           | the null device         | as below                              |
| program after a program  | that program's pipe     | as below                              |
| program after a builtin  | that builtin's own text | as below                              |
| program before the last  | as above                | into a pipe; its target is not opened |
| program before a builtin | as above                | into a pipe that is closed unread     |
| last stage               | as above                | to its target or to the shell's       |

`connected` says that every pipeline that succeeds is connected so, on any machine that gives a pipe
to a program whose output is to go into one (`Host.GivesPipes`).
-/

namespace LineShell

/-- The machine keeps its promise about pipes: a program whose output is to go into a pipe has
one. -/
def Host.GivesPipes (σ : Type) [Host σ] : Prop :=
  ∀ (launch : Launch) (s s' : σ) (child : Child), launch.stdout = .pipe →
    Host.start launch s = (.ok child, s') → child.output.isSome

namespace Pipeline

variable {σ : Type} [Host σ]

/-- The stages without the targets that pipes stand before: only the last stage keeps its target of
standard output. -/
def unshadowed : List PlannedStage → List PlannedStage
  | [] => []
  | [stage] => [stage]
  | ⟨inv, command⟩ :: next :: rest =>
    ⟨{ inv with redirection := { inv.redirection with stdout := none } }, command⟩ ::
      unshadowed (next :: rest)

theorem isEmpty_unshadowed (stages : List PlannedStage) :
    (unshadowed stages).isEmpty = stages.isEmpty := by
  match stages with
  | [] | [_] | _ :: _ :: _ => rfl

theorem handOn_unshadowed (child : Child) (rest : List PlannedStage) (s : σ) :
    handOn child (unshadowed rest) s = handOn child rest s := by
  match rest with
  | [] | [_] => rfl
  | ⟨_, .builtin _⟩ :: _ :: _ | ⟨_, .external _⟩ :: _ :: _ =>
    unfold handOn
    cases child.output <;> rfl

theorem startAll_unshadowed (st : State) (input : Input) (stages : List PlannedStage) (s : σ) :
    startAll st input (unshadowed stages) s = startAll st input stages s := by
  induction stages generalizing st input s with
  | nil => rfl
  | cons stage rest ih =>
    cases rest with
    | nil => rfl
    | cons next rest =>
      -- what is left of the target is not looked at: neither by a report nor by a program that
      -- is not the last
      rcases stage with ⟨inv, b | program⟩
      · simp only [unshadowed, startAll, isEmpty_unshadowed, ih]
        rfl
      · simp only [unshadowed, startAll, isEmpty_unshadowed, handOn_unshadowed, ih]
        rfl

/-- **The pipe shadows targets.** A pipeline does the same without the targets of standard output of
the stages before the last. -/
theorem execute_unshadowed (st : State) (stages : List PlannedStage) (s : σ) :
    execute st (unshadowed stages) s = execute st stages s := by
  rw [execute, startAll_unshadowed, execute]

/-- How the stages of a pipeline are connected, told from the runs of the stages. -/
structure Wiring (stages : List PlannedStage) (runs : List (StageRun σ)) : Prop where
  /-- Each stage is run once, in order. -/
  complete : runs.map StageRun.stage = stages
  /-- A run knows the stages after it; the last one has none. -/
  rest : ∀ {i : Nat} {r : StageRun σ}, runs[i]? = some r → r.rest = stages.drop (i + 1)
  /-- A program is started once, the one that was planned, with its own name and arguments. -/
  program : ∀ {r : StageRun σ} {program : String}, r ∈ runs → r.stage.command = .external program →
    ∃ launch child, r.calls.filter Call.starts = [.start launch (.ok child)] ∧
      launch.program = program ∧ launch.name = r.stage.invocation.name ∧
      launch.args = r.stage.invocation.args
  /-- A builtin starts nothing. -/
  builtin : ∀ {r : StageRun σ} {b : Builtin}, r ∈ runs → r.stage.command = .builtin b →
    r.calls.filter Call.starts = []
  /-- A program in the first stage reads from the null device. -/
  first : ∀ {r : StageRun σ} {launch : Launch} {child : Child}, runs[0]? = some r →
    r.Starts launch child → launch.stdin = .empty
  /-- A program after a program reads the live output of that program. -/
  after_program : ∀ {i : Nat} {r r' : StageRun σ} {launch launch' : Launch} {child child' : Child},
    runs[i]? = some r → runs[i + 1]? = some r' → r.Starts launch child → r'.Starts launch' child' →
    ∃ p, child.output = some p ∧ launch'.stdin = .pipe p
  /-- A program after a builtin reads what that builtin gave back, and nothing else. -/
  after_builtin : ∀ {i : Nat} {r r' : StageRun σ} {b : Builtin} {launch : Launch} {child : Child},
    runs[i]? = some r → runs[i + 1]? = some r' → r.stage.command = .builtin b →
    r'.Starts launch child → launch.stdin = .buffer
      (Outcome.fed (b.run r.stage.invocation.args r.before.state r.before.machine).1)
  /-- The output of a program before a builtin is closed at once. A stage that reads a pipe with the
  same number would have it from another program. -/
  before_builtin : ∀ {i : Nat} {r r' : StageRun σ} {b : Builtin} {launch : Launch} {child : Child},
    runs[i]? = some r → runs[i + 1]? = some r' → r.Starts launch child →
    r'.stage.command = .builtin b → ∃ p, child.output = some p ∧ .hangUp p ∈ r.calls ∧
      ∀ {j : Nat} {u : StageRun σ} {launch' : Launch} {child' : Child}, runs[j]? = some u →
        u.Starts launch' child' → launch'.stdin = .pipe p →
        ∃ k ≠ i, ∃ v launch'' child'', runs[k]? = some v ∧ v.Starts launch'' child'' ∧
          child''.output = some p
  /-- The output of a program before the last stage goes into a pipe, whatever its target is. -/
  interior_stdout : ∀ {r : StageRun σ} {launch : Launch} {child : Child}, r ∈ runs →
    r.rest ≠ [] → r.Starts launch child → launch.stdout = .pipe
  /-- Before the last stage, no file is opened but the targets of standard error, and those that a
  builtin opens by itself. -/
  interior_opens : ∀ {r : StageRun σ} {call : Call}, r ∈ runs → r.rest ≠ [] → call ∈ r.calls →
    call.opens →
    (∃ t ∈ r.stage.invocation.redirection.stderr, t.Opens r.before.state.cwd call) ∨
      ∃ b, r.stage.command = .builtin b ∧ call ∈ r.ownCalls b
  /-- Only the last stage prints, and only if it has no target. -/
  prints : ∀ {r : StageRun σ} {call : Call}, r ∈ runs → call ∈ r.calls → call.prints →
    r.rest = [] ∧ r.stage.invocation.redirection.stdout = none
  /-- The output of a program in the last stage goes to its target or to the shell's. -/
  last_program : ∀ {r : StageRun σ} {launch : Launch} {child : Child}, r ∈ runs → r.rest = [] →
    r.Starts launch child → r.GoesTo r.stage.invocation.redirection.stdout launch.stdout
  /-- The text of a builtin in the last stage goes to its target or to the shell's standard output,
  if its targets can be opened. -/
  last_builtin : ∀ {r : StageRun σ} {b : Builtin} {out err : Option Handle} {text : String}
      {st : State} {s s' : σ},
    r ∈ runs → r.rest = [] → r.stage.command = .builtin b →
    Target.openBoth r.before.state.cwd r.stage.invocation.redirection r.before.machine =
      (.ok (out, err), s) →
    b.run r.stage.invocation.args r.before.state s = (.ok (.text text), st, s') →
    r.GoesTo r.stage.invocation.redirection.stdout (.ofTarget out) ∧
      ∃ answer, out.elim (Call.print (Bytes.ofLine text) answer)
        (Call.write · (Bytes.ofLine text) answer) ∈ r.calls
  /-- The errors of a program go to its target or to the shell's standard error. -/
  stderr : ∀ {r : StageRun σ} {launch : Launch} {child : Child}, r ∈ runs →
    r.Starts launch child → r.GoesTo r.stage.invocation.redirection.stderr launch.stderr

section

variable {stages : List PlannedStage} {p : Point σ}

/-- A program before the last stage has a pipe. -/
theorem StageRun.Launched.exists_output (hσ : Host.GivesPipes σ) {r : StageRun σ} {launch : Launch}
    {child : Child} (h : r.Launched launch child) (hr : r.rest ≠ []) :
    ∃ p, child.output = some p := by
  obtain ⟨s, s', hs⟩ := h.started
  exact Option.isSome_iff_exists.1 (hσ launch s s' child (h.interior hr) hs)

/-- What a program reads: nothing in the first stage, the output of a program before it, or what a
builtin before it gave back. -/
theorem stdin_of_starts (hσ : Host.GivesPipes σ)
    (hok : ∀ r ∈ stageRuns stages p, ∃ child?, r.outcome = .ok child?) {i : Nat}
    {r r' : StageRun σ} {launch' : Launch} {child' : Child}
    (hr : (stageRuns stages p)[i]? = some r) (hr' : (stageRuns stages p)[i + 1]? = some r')
    (hs : r'.Starts launch' child') :
    (∃ launch child q, r.Starts launch child ∧ child.output = some q ∧ launch'.stdin = .pipe q) ∨
      ∃ b, r.stage.command = .builtin b ∧ launch'.stdin = .buffer
        (Outcome.fed (b.run r.stage.invocation.args r.before.state r.before.machine).1) := by
  have hrest := rest_eq_cons hr hr'
  have hne : r.rest ≠ [] := by simp [hrest]
  have hlaunched := StageRun.launched_of_starts (hok r' (List.mem_of_getElem? hr')) hs
  rw [hlaunched.stdin, before_of_getElem?_succ hr hr']
  cases hc : r.stage.command with
  | builtin b => exact .inr ⟨b, rfl, (StageRun.served hc).fed hne⟩
  | external program =>
    obtain ⟨child?, hok⟩ := hok r (List.mem_of_getElem? hr)
    obtain ⟨launch, child, h⟩ := StageRun.exists_launched hc hok
    obtain ⟨q, hq⟩ := h.exists_output hσ hne
    have hnext : r'.stage = ⟨r'.stage.invocation, .external launch'.program⟩ := by
      rw [← hlaunched.program]
    rw [hnext] at hrest
    exact .inl ⟨launch, child, q, h.mem_starts, hq, h.handed hq hrest⟩

/-- A pipe that a program reads is the output of a program in the stage right before it. -/
theorem source_of_pipe (hσ : Host.GivesPipes σ)
    (hok : ∀ r ∈ stageRuns stages p, ∃ child?, r.outcome = .ok child?) (hp : p.input = .empty)
    {j : Nat} {u : StageRun σ} {launch' : Launch} {child' : Child} {q : Pipe}
    (hu : (stageRuns stages p)[j]? = some u) (hs : u.Starts launch' child')
    (hq : launch'.stdin = .pipe q) :
    ∃ k v launch child, j = k + 1 ∧ (stageRuns stages p)[k]? = some v ∧ v.Starts launch child ∧
      child.output = some q := by
  cases j with
  | zero =>
    have hlaunched := StageRun.launched_of_starts (hok u (List.mem_of_getElem? hu)) hs
    rw [hlaunched.stdin, before_of_getElem?_zero hu, hp] at hq
    cases hq
  | succ k =>
    have hk : k < (stageRuns stages p).length := by
      have := (List.getElem?_eq_some_iff.1 hu).1
      omega
    have hv := List.getElem?_eq_getElem hk
    rcases stdin_of_starts hσ hok hv hu hs with ⟨launch, child, q', hl, hq', hin⟩ | ⟨b, -, hin⟩
    · obtain rfl := Input.pipe.inj (hin.symm.trans hq)
      exact ⟨k, _, launch, child, rfl, hv, hl, hq'⟩
    · simp [hin] at hq

/-- A pipeline that succeeds is connected. -/
theorem wiring_of_ok (hσ : Host.GivesPipes σ) {st : State} {s : σ}
    (h : (execute st stages s).1 = .ok ()) :
    Wiring stages (stageRuns stages ⟨st, .empty, s⟩) := by
  have hstart : (startAll st .empty stages s).1 = .ok () := h
  have hok := (startAll_ok_iff stages ⟨st, .empty, s⟩).1 hstart
  have hlaunched {r : StageRun σ} {launch : Launch} {child : Child}
      (hr : r ∈ stageRuns stages ⟨st, .empty, s⟩) (hs : r.Starts launch child) :
      r.Launched launch child := StageRun.launched_of_starts (hok r hr) hs
  have hbuiltin {r : StageRun σ} {b : Builtin} {launch : Launch} {child : Child}
      (hc : r.stage.command = .builtin b) : ¬ r.Starts launch child := fun hs => by
    simpa [Call.starts] using (StageRun.served hc).starts _ hs
  have hfirst {r : StageRun σ} {launch : Launch} {child : Child}
      (hr : (stageRuns stages ⟨st, .empty, s⟩)[0]? = some r) (hs : r.Starts launch child) :
      launch.stdin = .empty := by
    rw [(hlaunched (List.mem_of_getElem? hr) hs).stdin, before_of_getElem?_zero hr]
  exact {
    complete := map_stage_stageRuns (p := ⟨st, .empty, s⟩) hstart
    rest := rest_of_getElem?
    program := fun {r _} hr hc => by
      obtain ⟨child?, hr⟩ := hok r hr
      obtain ⟨launch, child, hl⟩ := StageRun.exists_launched hc hr
      refine ⟨launch, child, hl.starts, ?_, hl.name, hl.args⟩
      simpa [hc, eq_comm] using hl.program
    builtin := fun hr hc => by
      refine List.filter_eq_nil_iff.2 fun call hcall => ?_
      simp [(StageRun.served hc).starts call hcall]
    first := hfirst
    after_program := fun hr hr' hs hs' => by
      rcases stdin_of_starts hσ hok hr hr' hs' with ⟨launch, child, q, hl, hq, hin⟩ | ⟨b, hb, -⟩
      · obtain ⟨rfl, rfl⟩ := (hlaunched (List.mem_of_getElem? hr) hl).eq_of_starts hs
        exact ⟨q, hq, hin⟩
      · exact absurd hs (hbuiltin hb)
    after_builtin := fun hr hr' hc hs => by
      rcases stdin_of_starts hσ hok hr hr' hs with ⟨launch, child, q, hl, -⟩ | ⟨b', hb', hin⟩
      · exact absurd hl (hbuiltin hc)
      · obtain rfl := Command.builtin.inj (hc.symm.trans hb')
        exact hin
    before_builtin := fun {i r r' b launch child} hr hr' hs hc => by
      have hl := hlaunched (List.mem_of_getElem? hr) hs
      have hrest := rest_eq_cons hr hr'
      obtain ⟨q, hq⟩ := hl.exists_output hσ (by simp [hrest])
      have hnext : r'.stage = ⟨r'.stage.invocation, .builtin b⟩ := by rw [← hc]
      refine ⟨q, hq, hl.closed hq (hnext ▸ hrest), fun {j u _ _} hu hs' hin => ?_⟩
      obtain ⟨k, v, launch'', child'', rfl, hv, hs'', hq'⟩ := source_of_pipe hσ hok rfl hu hs' hin
      refine ⟨k, ?_, v, launch'', child'', hv, hs'', hq'⟩
      -- a reader stands right behind the program it reads, but there the builtin stands
      rintro rfl
      obtain rfl := Option.some.inj (hr'.symm.trans hu)
      exact hbuiltin hc hs'
    interior_stdout := fun hr hne hs => (hlaunched hr hs).interior hne
    interior_opens := fun {r call} hr hne hcall hopens => by
      cases hc : r.stage.command with
      | builtin b =>
        exact ((StageRun.served hc).opens hne call hcall hopens).imp_right fun h => ⟨b, rfl, h⟩
      | external program =>
        obtain ⟨child?, hr⟩ := hok r hr
        obtain ⟨launch, child, hl⟩ := StageRun.exists_launched hc hr
        exact .inl (hl.opens hne call hcall hopens)
    prints := fun {r call} hr hcall hprints => by
      cases hc : r.stage.command with
      | builtin b => exact (StageRun.served hc).prints call hcall hprints
      | external program =>
        obtain ⟨child?, hr⟩ := hok r hr
        obtain ⟨launch, child, hl⟩ := StageRun.exists_launched hc hr
        simp [hl.prints call hcall] at hprints
    last_program := fun hr hnil hs => (hlaunched hr hs).last hnil
    last_builtin := fun hr hnil hc ho hb => (StageRun.served hc).delivered hnil ho hb
    stderr := fun hr hs => (hlaunched hr hs).stderr }

end

/-- **How the stages of a pipeline are connected.** The calls that a pipeline makes on the machine
are those of its stages in order, and then it waits for its programs; keeping the record changes
nothing. If nothing is opened or started in vain it succeeds, and if it succeeds its stages are
connected as `Wiring` says. And it does all the same without the targets of standard output of the
stages before the last. -/
theorem connected (hσ : Host.GivesPipes σ) (st : State) (stages : List PlannedStage) (s : σ) :
    (execute st stages ({ machine := s } : Recorded σ)).map id Recorded.machine =
      execute st stages s ∧
    (execute st stages ({ machine := s } : Recorded σ)).2.calls =
      (stageRuns stages ⟨st, .empty, s⟩).flatMap StageRun.calls ++
        ((stageRuns stages ⟨st, .empty, s⟩).filterMap StageRun.child?).map Call.wait ∧
    ((∀ r ∈ stageRuns stages ⟨st, .empty, s⟩, ∀ call ∈ r.calls, call.fails = false) →
      (execute st stages s).1 = .ok ()) ∧
    ((execute st stages s).1 = .ok () → Wiring stages (stageRuns stages ⟨st, .empty, s⟩)) ∧
    execute st (unshadowed stages) s = execute st stages s := by
  refine ⟨(execute_map Recorded.forget st stages _).symm, calls_execute st stages s, fun hall => ?_,
    wiring_of_ok hσ, execute_unshadowed st stages s⟩
  refine (startAll_ok_iff stages ⟨st, .empty, s⟩).2 fun r hr => ?_
  cases ho : r.outcome with
  | ok child? => exact ⟨child?, rfl⟩
  | error e =>
    obtain ⟨call, hcall, hfails⟩ := StageRun.exists_fails ho
    simp [hall r hr call hcall] at hfails

end Pipeline

namespace Machine

/-- A machine gives pipes. -/
theorem givesPipes : Host.GivesPipes Machine := by
  intro launch m m' child hpipe hstart
  have hstartIn : ∃ dir, startIn dir launch m = (.ok child, m') := by
    simp only [Host.start, start] at hstart
    split at hstart
    · simp at hstart
    · split at hstart
      · simp at hstart
      · split at hstart
        · simp at hstart
        next dir _ => exact ⟨dir, hstart⟩
  obtain ⟨dir, hstartIn⟩ := hstartIn
  simp only [startIn, hpipe, openOutput] at hstartIn
  split at hstartIn
  · simp at hstartIn
  · simp only [Prod.mk.injEq, Except.ok.injEq] at hstartIn
    rw [← hstartIn.1]
    rfl

/-- A machine with two programs in `/r`. -/
def withScripts : Machine :=
  .ofDisk
    ((Disk.base.install [] "/r/up" (.file (Bytes.ofText "#!/bin/sh\necho up\n")
      { executable := true })).install []
      "/r/down" (.file (Bytes.ofText "#!/bin/sh\nread x\n") { executable := true })) "/r" [] []

/-- The stages of `up > a | echo hi > a | down > b 2> c`. -/
def upEchoDown : List PlannedStage :=
  [⟨⟨"up", [], { stdout := some ⟨"a", .truncate⟩ }⟩, .external "/r/up"⟩,
    ⟨⟨"echo", ["hi"], { stdout := some ⟨"a", .truncate⟩ }⟩, .builtin .echo⟩,
    ⟨⟨"down", [], { stdout := some ⟨"b", .truncate⟩, stderr := some ⟨"c", .truncate⟩ }⟩,
      .external "/r/down"⟩]

/-- Between two programs, a builtin is read and the program before it is not. -/
theorem connected_upEchoDown :
    ∃ runs : List (Pipeline.StageRun Machine), Pipeline.Wiring upEchoDown runs ∧
      ∃ r launch child, runs[2]? = some r ∧ r.Starts launch child ∧
        launch.stdin = .buffer (Bytes.ofLine "hi") := by
  have hall := Pipeline.connected givesPipes ⟨"/r", none, .ofValue none, {}⟩ upEchoDown withScripts
  have hok : (Pipeline.execute ⟨"/r", none, .ofValue none, {}⟩ upEchoDown withScripts).1 =
      .ok () := by decide +kernel
  have hw := hall.2.2.2.1 hok
  refine ⟨_, hw, ?_⟩
  generalize Pipeline.stageRuns upEchoDown
    (⟨⟨"/r", none, .ofValue none, {}⟩, .empty, withScripts⟩ : Pipeline.Point Machine) = runs at hw ⊢
  obtain ⟨r₀, runs, rfl, -, hstages⟩ := List.map_eq_cons_iff.1 hw.complete
  obtain ⟨r₁, runs, rfl, h₁, hstages⟩ := List.map_eq_cons_iff.1 hstages
  obtain ⟨r₂, runs, rfl, h₂, -⟩ := List.map_eq_cons_iff.1 hstages
  obtain ⟨launch, child, hstarts, -⟩ :=
    hw.program (r := r₂) (by simp) (congrArg PlannedStage.command h₂)
  have hstarts : r₂.Starts launch child := by
    have hmem : Call.start launch (.ok child) ∈ r₂.calls.filter Call.starts := by simp [hstarts]
    exact (List.mem_filter.1 hmem).1
  refine ⟨r₂, launch, child, rfl, hstarts, ?_⟩
  have hin := hw.after_builtin (i := 1) (r := r₁) rfl rfl (congrArg PlannedStage.command h₁) hstarts
  rw [hin, h₁]
  rfl

end Machine
end LineShell
