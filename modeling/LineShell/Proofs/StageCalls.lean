import LineShell.Proofs.Calls
import LineShell.Proofs.Operations
import LineShell.Proofs.StageRuns

/-!
# What the stages of a pipeline do

A stage of a pipeline is a program or a builtin. `StageRun.Launched` says what the run of a program
amounts to: what it is started with, which targets are opened for it, and what becomes of its
output. `StageRun.Served` says the same of a builtin. Every run that is come to and does not fail is
one of the two (`exists_launched`, `served`), and one that fails has made a call that failed
(`exists_fails`), so nothing else needs to be known of the stages.
-/

namespace LineShell

/-- What a builtin leaves for the next stage to read: its text on a line of its own, or nothing. -/
def Outcome.fed : Except CommandError Outcome → Bytes
  | .ok (.text s) => Bytes.ofLine s
  | _ => []

variable {σ : Type} [Host σ]

/-- An action on a history file that fails leaves the state alone, since it gives back the history
that it was given. -/
theorem Builtin.state_of_runFileAction {a : FileAction} {st st' : State} {path : String} {s s' : σ}
    {e : CommandError} (h : runFileAction a st path s = (.error e, st', s')) : st' = st := by
  rw [runFileAction] at h
  split at h
  · exact (Prod.mk.inj (Prod.mk.inj h).2).1.symm
  next file _ =>
    have hchange := History.change_apply st.history s file a
    rcases ha : a.apply st.history file s with ⟨cause | _, history, s₁⟩ <;> rw [ha] at h hchange
    · obtain rfl := hchange.eq_of_error
      exact (Prod.mk.inj (Prod.mk.inj h).2).1.symm
    · cases (Prod.mk.inj h).1

/-- A builtin that fails leaves the state alone. -/
theorem Builtin.state_of_error {b : Builtin} {args : List String} {st st' : State} {s s' : σ}
    {e : CommandError} (h : b.run args st s = (.error e, st', s')) : st' = st := by
  cases b with
  | cd =>
    rw [run] at h
    split at h <;> simp_all
  | history =>
    rw [run] at h
    unfold runHistory at h
    split at h
    · simp at h
    · split at h
      · simp_all
      · exact state_of_runFileAction h
      · split at h
        · simp_all
        · split at h <;> simp_all
  | _ => simp_all [run]

namespace Pipeline

/-- A builtin feeds what it gives back. -/
theorem feedBuiltin_fst (b : Builtin) (inv : Invocation) (st : State) (s : σ) :
    (feedBuiltin b inv st s).1 = Outcome.fed (b.run inv.args st s).1 := by
  rw [feedBuiltin]
  rcases b.run inv.args st s with ⟨e | text | _ | _, st', s'⟩ <;> rfl

/-- Beyond what it does by itself, a builtin that feeds makes at most a report. -/
theorem adds_feedBuiltin (b : Builtin) (inv : Invocation) (st : State) (r : Recorded σ) :
    Recorded.Adds (fun call => (∃ t ∈ inv.redirection.stderr, t.Opens st.cwd call) ∨ call.writes)
      (b.run inv.args st r).2.2 (feedBuiltin b inv st r).2.2 := by
  rw [feedBuiltin]
  rcases h : b.run inv.args st r with ⟨e | text | _ | _, st', r'⟩
  · obtain rfl := Builtin.state_of_error h
    exact adds_report st'.cwd inv.redirection e.message r'
  all_goals exact .refl _ r'

namespace StageRun

/-- The stage starts a program. -/
def Starts (r : StageRun σ) (launch : Launch) (child : Child) : Prop :=
  .start launch (.ok child) ∈ r.calls

/-- An output stream goes to a target that the stage has opened, or to the shell's if there is no
target. -/
def GoesTo (r : StageRun σ) (target : Option Target) (output : Output) : Prop :=
  match target with
  | none => output = .inherited
  | some t => ∃ h, .create (Path.join r.before.state.cwd t.path) t.mode (.ok h) ∈ r.calls ∧
      output = .file h

theorem goesTo_of_opening {r : StageRun σ} {t : Option Target} {file : Option Handle}
    {calls : List Call} (h : Target.Opening r.before.state.cwd t file calls)
    (hcalls : ∀ call ∈ calls, call ∈ r.calls) : r.GoesTo t (.ofTarget file) := by
  cases h with
  | none => rfl
  | some t h => exact ⟨h, hcalls _ (by simp), rfl⟩

/-- The run of a program: what it is started with, what is opened for it and what becomes of its
output. -/
structure Launched (r : StageRun σ) (launch : Launch) (child : Child) : Prop where
  /-- It succeeds. -/
  outcome : r.outcome = .ok (some child)
  /-- One program is started. -/
  starts : r.calls.filter Call.starts = [.start launch (.ok child)]
  /-- The machine has started it. -/
  started : ∃ s s' : σ, Host.start launch s = (.ok child, s')
  /-- It is the program that was planned. -/
  program : r.stage.command = .external launch.program
  /-- It is called as it was typed. -/
  name : launch.name = r.stage.invocation.name
  /-- It has the arguments that were typed. -/
  args : launch.args = r.stage.invocation.args
  /-- It works in the directory of the copied state. -/
  dir : launch.dir = r.before.state.cwd
  /-- It reads what the stage before has left. -/
  stdin : launch.stdin = r.before.input
  /-- In the last stage, its output goes where it was sent. -/
  last : r.rest = [] → r.GoesTo r.stage.invocation.redirection.stdout launch.stdout
  /-- In every other stage, its output goes into a pipe. -/
  interior : r.rest ≠ [] → launch.stdout = .pipe
  /-- Its errors go where they were sent. -/
  stderr : r.GoesTo r.stage.invocation.redirection.stderr launch.stderr
  /-- In a stage that is not the last, only the target of its errors is opened. -/
  opens : r.rest ≠ [] → ∀ call ∈ r.calls, call.opens →
    ∃ t ∈ r.stage.invocation.redirection.stderr, t.Opens r.before.state.cwd call
  /-- Nothing is printed. -/
  prints : ∀ call ∈ r.calls, call.prints = false
  /-- Its pipe is left to a program that follows. -/
  handed : ∀ {p inv program rest}, child.output = some p →
    r.rest = ⟨inv, .external program⟩ :: rest → r.after.input = .pipe p
  /-- Its pipe is closed before a builtin. -/
  closed : ∀ {p inv b rest}, child.output = some p →
    r.rest = ⟨inv, .builtin b⟩ :: rest → .hangUp p ∈ r.calls

/-- The calls of a program that is run: its targets are opened, it is started, and its output is
handed on. -/
theorem calls_of_program {r : StageRun σ} {program : String} {child? : Option Child}
    (hc : r.stage.command = .external program) (h : r.outcome = .ok child?) :
    ∃ out err outCalls errCalls launch child, ∃ r₁ : Recorded σ,
      Target.Opening r.before.state.cwd
        (if r.rest.isEmpty then r.stage.invocation.redirection.stdout else none) out outCalls ∧
      Target.Opening r.before.state.cwd r.stage.invocation.redirection.stderr err errCalls ∧
      launch = { program, name := r.stage.invocation.name, args := r.stage.invocation.args,
                 dir := r.before.state.cwd, stdin := r.before.input,
                 stdout := if r.rest.isEmpty then .ofTarget out else .pipe,
                 stderr := .ofTarget err } ∧
      (∃ s s' : σ, Host.start launch s = (.ok child, s')) ∧ child? = some child ∧
      r₁.calls = outCalls ++ errCalls ++ [.start launch (.ok child)] ∧
      handOn child r.rest r₁ = (r.after.input, ⟨r.after.machine, r.calls⟩) := by
  obtain ⟨⟨inv, command⟩, rest, p⟩ := r
  obtain rfl : command = .external program := hc
  have hpass := StageRun.pass_recorded (⟨⟨inv, .external program⟩, rest, p⟩ : StageRun σ)
  rw [h] at hpass
  simp only [pass] at hpass
  rcases hs : startStage p.recorded.state p.recorded.input program inv rest.isEmpty
    p.recorded.machine with ⟨e | child, r₁⟩
  · simp [hs] at hpass
  · obtain ⟨out, err, outCalls, errCalls, launch, hout, herr, hlaunch, hstarted, hcalls⟩ :=
      calls_of_startStage hs
    simp only [hs, Prod.mk.injEq, Except.ok.injEq, Point.mk.injEq] at hpass
    exact ⟨out, err, outCalls, errCalls, launch, child, r₁, hout, herr, hlaunch, hstarted,
      hpass.1.symm, hcalls, Prod.ext hpass.2.2.1 hpass.2.2.2⟩

/-- A program that is run is launched. -/
theorem exists_launched {r : StageRun σ} {program : String} {child? : Option Child}
    (hc : r.stage.command = .external program) (h : r.outcome = .ok child?) :
    ∃ launch child, r.Launched launch child := by
  obtain ⟨out, err, outCalls, errCalls, launch, child, r₁, hout, herr, hlaunch, hstarted, rfl,
    hcalls, hhand⟩ := calls_of_program hc h
  obtain ⟨closing, hclosing, honly⟩ := adds_handOn child r.rest r₁
  simp only [hhand, hcalls] at hclosing
  -- every call is for a target, starts the program or closes its output
  have hmem {call : Call} (hcall : call ∈ r.calls) :
      (∃ t ∈ if r.rest.isEmpty then r.stage.invocation.redirection.stdout else none,
        t.Opens r.before.state.cwd call) ∨
      (∃ t ∈ r.stage.invocation.redirection.stderr, t.Opens r.before.state.cwd call) ∨
      call = .start launch (.ok child) ∨ ∃ p ∈ child.output, call = .hangUp p := by
    rw [hclosing, List.mem_append, List.mem_append, List.mem_append, List.mem_singleton] at hcall
    rcases hcall with ((hcall | hcall) | hcall) | hcall
    · exact .inl (hout.opens call hcall)
    · exact .inr (.inl (herr.opens call hcall))
    · exact .inr (.inr (.inl hcall))
    · exact .inr (.inr (.inr (honly call hcall)))
  have hclosed : closing.filter Call.starts = [] := by
    refine Call.filter_starts_eq_nil fun call hcall => ?_
    obtain ⟨p, -, rfl⟩ := honly call hcall
    rfl
  refine ⟨launch, child, ?_⟩
  have hlast : r.rest = [] ↔ r.rest.isEmpty = true := List.isEmpty_iff.symm
  exact {
    outcome := h
    starts := by
      rw [hclosing, List.filter_append, List.filter_append, List.filter_append, hout.filter_starts,
        herr.filter_starts, hclosed]
      rfl
    started := hstarted
    program := by rw [hc, hlaunch]
    name := by rw [hlaunch]
    args := by rw [hlaunch]
    dir := by rw [hlaunch]
    stdin := by rw [hlaunch]
    last := fun hr => by
      rw [if_pos (hlast.1 hr)] at hout
      rw [hlaunch]
      simp only [if_pos (hlast.1 hr)]
      exact goesTo_of_opening hout fun call hcall => by simp [hclosing, hcall]
    interior := fun hr => by
      rw [hlaunch]
      exact if_neg (hr ∘ hlast.2)
    stderr := by
      rw [hlaunch]
      exact goesTo_of_opening herr fun call hcall => by simp [hclosing, hcall]
    opens := fun hr call hcall hopens => by
      rcases hmem hcall with ⟨t, ht, -⟩ | herr | rfl | ⟨p, -, rfl⟩
      · rw [if_neg (hr ∘ hlast.2)] at ht
        cases ht
      · exact herr
      · cases hopens
      · cases hopens
    prints := fun call hcall => by
      rcases hmem hcall with ⟨t, -, ht⟩ | ⟨t, -, ht⟩ | rfl | ⟨p, -, rfl⟩
      · exact (Call.other_of_opens ht.opens).2
      · exact (Call.other_of_opens ht.opens).2
      · rfl
      · rfl
    handed := fun hp hr => by
      rw [hr, handOn_program hp] at hhand
      exact (congrArg Prod.fst hhand).symm
    closed := fun {p _ _ _} hp hr => by
      rw [hr, handOn_builtin hp] at hhand
      have hcalls' : (Host.hangUp p r₁).calls = r.calls := by rw [(Prod.mk.inj hhand).2]
      rw [← hcalls', Recorded.calls_hangUp]
      exact List.mem_append_right _ (List.mem_singleton_self _) }

theorem Launched.mem_starts {r : StageRun σ} {launch : Launch} {child : Child}
    (h : r.Launched launch child) : r.Starts launch child := by
  have hmem : Call.start launch (.ok child) ∈ r.calls.filter Call.starts := by simp [h.starts]
  exact (List.mem_filter.1 hmem).1

/-- What is started is what was launched. -/
theorem Launched.eq_of_starts {r : StageRun σ} {launch launch' : Launch} {child child' : Child}
    (h : r.Launched launch child) (hs : r.Starts launch' child') :
    launch' = launch ∧ child' = child := by
  have hmem : Call.start launch' (.ok child') ∈ r.calls.filter Call.starts :=
    List.mem_filter.2 ⟨hs, rfl⟩
  simpa [h.starts] using hmem

/-- The calls that a builtin makes by itself, whatever its targets are. -/
def ownCalls (r : StageRun σ) (b : Builtin) : List Call :=
  (b.run r.stage.invocation.args r.before.state
    ({ machine := r.before.machine } : Recorded σ)).2.2.calls

/-- The run of a builtin: what it feeds to the next stage, what is opened for it and what becomes of
its text in the last stage. -/
structure Served (r : StageRun σ) (b : Builtin) : Prop where
  /-- It succeeds as a stage, whatever the builtin does. -/
  outcome : r.outcome = .ok none
  /-- No program is started. -/
  starts : ∀ call ∈ r.calls, call.starts = false
  /-- Only the last stage prints, and only if it has no target. -/
  prints : ∀ call ∈ r.calls, call.prints →
    r.rest = [] ∧ r.stage.invocation.redirection.stdout = none
  /-- In a stage that is not the last, what the builtin gives back is left for the next one. -/
  fed : r.rest ≠ [] → r.after.input = .buffer
    (Outcome.fed (b.run r.stage.invocation.args r.before.state r.before.machine).1)
  /-- In a stage that is not the last, only the target of errors is opened, and what the builtin
  opens by itself. -/
  opens : r.rest ≠ [] → ∀ call ∈ r.calls, call.opens →
    (∃ t ∈ r.stage.invocation.redirection.stderr, t.Opens r.before.state.cwd call) ∨
      call ∈ r.ownCalls b
  /-- In the last stage, a text is written where it was sent. -/
  delivered : r.rest = [] → ∀ {out err s text st s'},
    Target.openBoth r.before.state.cwd r.stage.invocation.redirection r.before.machine =
      (.ok (out, err), s) →
    b.run r.stage.invocation.args r.before.state s = (.ok (.text text), st, s') →
    r.GoesTo r.stage.invocation.redirection.stdout (.ofTarget out) ∧
      ∃ answer, out.elim (Call.print (Bytes.ofLine text) answer)
        (Call.write · (Bytes.ofLine text) answer) ∈ r.calls

theorem served_last {inv : Invocation} {b : Builtin} {p : Point σ} :
    (⟨⟨inv, .builtin b⟩, [], p⟩ : StageRun σ).Served b := by
  have hadds := (adds_runBuiltin b inv p.state { machine := p.machine }).forall_mem
  refine ⟨rfl, not_starts_runBuiltin b inv p.state p.machine, fun call hcall hprints => ⟨rfl, ?_⟩,
    fun h => absurd rfl h, fun h => absurd rfl h, fun _ {out err s text st s'} ho hb => ?_⟩
  · rcases hadds call hcall with h | h | ⟨-, h⟩
    · simp [(Call.other_of_opens h).2] at hprints
    · simp [(Call.other_of_writes h).2.1] at hprints
    · exact h
  · -- on record, the targets are opened and the builtin is run as on the machine itself
    have hopen := Target.openBoth_map Recorded.forget p.state.cwd inv.redirection
      { machine := p.machine }
    rcases ho' : Target.openBoth p.state.cwd inv.redirection
      ({ machine := p.machine } : Recorded σ) with ⟨opened, r₁⟩
    obtain ⟨rfl, rfl⟩ := Prod.mk.inj (ho.symm.trans (ho' ▸ hopen))
    have hrun := b.run_map Recorded.forget inv.args p.state r₁
    rcases hb' : b.run inv.args p.state r₁ with ⟨result, st₂, r₂⟩
    obtain ⟨rfl, -⟩ := Prod.mk.inj (hb.symm.trans (hb' ▸ hrun))
    obtain ⟨outCalls, errCalls, hout, -, hcalls⟩ := Target.opening_of_openBoth ho'
    obtain ⟨new, hnew, -⟩ := adds_runBuiltin_of_openBoth (b := b) ho'
    have hall : (⟨⟨inv, .builtin b⟩, [], p⟩ : StageRun σ).calls = outCalls ++ errCalls ++ new := by
      rw [← List.nil_append (outCalls ++ errCalls), ← hcalls]
      exact hnew
    exact ⟨goesTo_of_opening hout fun call hcall => by simp [hall, hcall],
      text_mem_runBuiltin ho' hb'⟩

/-- A builtin that is run is served. -/
theorem served {r : StageRun σ} {b : Builtin} (hc : r.stage.command = .builtin b) : r.Served b := by
  obtain ⟨⟨inv, command⟩, rest, p⟩ := r
  obtain rfl : command = .builtin b := hc
  cases rest with
  | nil => exact served_last
  | cons next rest =>
    obtain ⟨new, hnew, hadds⟩ :=
      adds_feedBuiltin b inv p.state ({ machine := p.machine } : Recorded σ)
    have hown := (b.adds_run inv.args p.state ({ machine := p.machine } : Recorded σ)).forall_mem
    -- the builtin makes its own calls, and after them at most those of a report
    have hmem {call : Call} (hcall : call ∈ (feedBuiltin b inv p.state
        ({ machine := p.machine } : Recorded σ)).2.2.calls) :
        call ∈ (⟨⟨inv, .builtin b⟩, next :: rest, p⟩ : StageRun σ).ownCalls b ∨
        (∃ t ∈ inv.redirection.stderr, t.Opens p.state.cwd call) ∨ call.writes := by
      rw [hnew, List.mem_append] at hcall
      exact hcall.imp_right (hadds call)
    have hother {call : Call} (hcall : call ∈ (feedBuiltin b inv p.state
        ({ machine := p.machine } : Recorded σ)).2.2.calls) : call.opens ∨ call.writes := by
      rcases hmem hcall with h | ⟨t, -, ht⟩ | h
      · exact (hown call h).imp_right Call.writes_of_fills
      · exact .inl ht.opens
      · exact .inr h
    refine ⟨rfl, fun call hcall => ?_, fun call hcall hprints => ?_, fun _ => ?_,
      fun _ call hcall hopens => ?_, fun h => by cases h⟩
    · rcases hother hcall with h | h
      · exact (Call.other_of_opens h).1
      · exact (Call.other_of_writes h).1
    · rcases hother hcall with h | h
      · simp [(Call.other_of_opens h).2] at hprints
      · simp [(Call.other_of_writes h).2.1] at hprints
    · exact congrArg Input.buffer (feedBuiltin_fst b inv p.state p.machine)
    · rcases hmem hcall with h | h | h
      · exact .inr h
      · exact .inl h
      · simp [(Call.other_of_writes h).2.2] at hopens

/-- A stage that starts a program is the run of that program. -/
theorem launched_of_starts {r : StageRun σ} {launch : Launch} {child : Child}
    (hok : ∃ child?, r.outcome = .ok child?) (hs : r.Starts launch child) :
    r.Launched launch child := by
  obtain ⟨child?, hok⟩ := hok
  cases hc : r.stage.command with
  | builtin b => exact absurd ((served hc).starts _ hs) (by simp [Call.starts])
  | external program =>
    obtain ⟨launch', child', h⟩ := exists_launched hc hok
    obtain ⟨rfl, rfl⟩ := h.eq_of_starts hs
    exact h

/-- A stage that fails is a program that was not started. -/
theorem stop_of_outcome {r : StageRun σ} {e : ProcessError} (h : r.outcome = .error e) :
    ∃ program, r.stage.command = .external program ∧
      Stop r.before.state r.before.input program r.stage.invocation r.rest.isEmpty e r.calls := by
  obtain ⟨⟨inv, b | program⟩, rest, p⟩ := r
  · have hserved : StageRun.Served ⟨⟨inv, .builtin b⟩, rest, p⟩ b := served rfl
    simp [hserved.outcome] at h
  · have hpass := StageRun.pass_recorded (⟨⟨inv, .external program⟩, rest, p⟩ : StageRun σ)
    rw [h] at hpass
    simp only [pass] at hpass
    rcases hs : startStage p.recorded.state p.recorded.input program inv rest.isEmpty
      p.recorded.machine with ⟨e' | child, r₁⟩
    · obtain ⟨calls, hstop, hcalls⟩ := stop_of_startStage hs
      simp only [hs, Prod.mk.injEq, Except.error.injEq, Point.mk.injEq] at hpass
      obtain ⟨rfl, -, -, rfl⟩ := hpass
      refine ⟨program, rfl, ?_⟩
      rw [show StageRun.calls ⟨⟨inv, .external program⟩, rest, p⟩ = calls from hcalls]
      exact hstop
    · simp [hs] at hpass

/-- Each call of a program that was started opens something, and not in vain, or starts the program
with the input that was handed on, or closes a pipe. -/
theorem call_of_program {r : StageRun σ} {program : String} {child? : Option Child}
    (hc : r.stage.command = .external program) (h : r.outcome = .ok child?) {call : Call}
    (hcall : call ∈ r.calls) :
    call.opens ∧ call.fails = false ∨
      (∃ launch child, launch.stdin = r.before.input ∧ call = .start launch (.ok child)) ∨
      ∃ p, call = .hangUp p := by
  obtain ⟨out, err, outCalls, errCalls, launch, child, r₁, hout, herr, hlaunch, -, -, hcalls,
    hhand⟩ := calls_of_program hc h
  obtain ⟨closing, hclosing, honly⟩ := adds_handOn child r.rest r₁
  simp only [hhand, hcalls] at hclosing
  rw [hclosing, List.mem_append, List.mem_append, List.mem_append, List.mem_singleton] at hcall
  rcases hcall with ((hcall | hcall) | hcall) | hcall
  · obtain ⟨t, -, ht⟩ := hout.opens call hcall
    exact .inl ⟨ht.opens, hout.not_fails call hcall⟩
  · obtain ⟨t, -, ht⟩ := herr.opens call hcall
    exact .inl ⟨ht.opens, herr.not_fails call hcall⟩
  · exact .inr (.inl ⟨launch, child, by rw [hlaunch], hcall⟩)
  · obtain ⟨p, -, hp⟩ := honly call hcall
    exact .inr (.inr ⟨p, hp⟩)

/-- Whether it is started or not, a program is to read what the stage before has left. -/
theorem stdin_of_start {r : StageRun σ} {launch : Launch} {answer : Except OsError Child}
    (h : .start launch answer ∈ r.calls) : launch.stdin = r.before.input := by
  cases ho : r.outcome with
  | error e =>
    obtain ⟨program, -, hstop⟩ := stop_of_outcome ho
    rcases hstop.call_of_mem h with h | ⟨p, h⟩ | ⟨launch', cause, hstdin, h⟩
    · cases h
    · cases h
    · obtain ⟨rfl, -⟩ := Call.start.inj h
      exact hstdin
  | ok child? =>
    cases hc : r.stage.command with
    | builtin b => exact absurd ((served hc).starts _ h) (by simp [Call.starts])
    | external program =>
      rcases call_of_program hc ho h with ⟨h, -⟩ | ⟨launch', child, hstdin, h⟩ | ⟨p, h⟩
      · cases h
      · obtain ⟨rfl, -⟩ := Call.start.inj h
        exact hstdin
      · cases h

/-- A stage that fails has made a call that failed. -/
theorem exists_fails {r : StageRun σ} {e : ProcessError} (h : r.outcome = .error e) :
    ∃ call ∈ r.calls, call.fails := by
  obtain ⟨program, -, hstop⟩ := stop_of_outcome h
  exact hstop.exists_fails

end StageRun

end Pipeline
end LineShell
