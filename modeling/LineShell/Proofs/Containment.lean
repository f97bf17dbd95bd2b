import LineShell.Proofs.Wiring

/-!
# A failure in the middle of a pipeline

A stage of a pipeline fails when one of its targets is refused or its program cannot be started. By
then the stages before it have been started, and the stages after it have not been come to.
`Contained` says what becomes of the pipeline:

| stages           | what becomes of them                                     |
|------------------|----------------------------------------------------------|
| before it        | they have been passed; their programs are waited for     |
| the one that fails | its failure is that of the pipeline; it starts nothing |
| after it         | nothing; the pipeline does the same with any others      |

That the shell waits for what it has started does not depend on a failure: whatever happens, the
calls of a pipeline end with one `wait` for each program that it has started, in the order of the
starts, and there is no other (`exists_calls_execute`).
-/

namespace LineShell
namespace Call

/-- The program that the call has started, if it has started one. -/
def started? : Call → Option Child
  | start _ (.ok child) => some child
  | _ => none

/-- Whether the call waits for a program. -/
def awaits : Call → Bool
  | wait _ => true
  | _ => false

theorem not_awaits_of_opens {call : Call} (h : call.opens) : call.awaits = false := by
  cases call <;> first | rfl | cases h

theorem not_awaits_of_writes {call : Call} (h : call.writes) : call.awaits = false := by
  cases call <;> first | rfl | cases h

theorem not_awaits_of_prints {call : Call} (h : call.prints) : call.awaits = false := by
  cases call <;> first | rfl | cases h

theorem started?_of_not_starts {call : Call} (h : call.starts = false) : call.started? = none := by
  cases call <;> first | rfl | cases h

/-- Programs are started by the calls that start something. -/
theorem filterMap_started? (calls : List Call) :
    calls.filterMap started? = (calls.filter starts).filterMap started? := by
  rw [List.filterMap_filter]
  refine List.filterMap_congr fun call _ => ?_
  cases h : call.starts with
  | true => rfl
  | false => exact started?_of_not_starts h

end Call

namespace Pipeline

variable {σ τ : Type} [Host σ] [Host τ]

/-- A stage looks at the one after it, and no further. -/
theorem pass_of_head? {rest rest' : List PlannedStage} (h : rest.head? = rest'.head?)
    (stage : PlannedStage) (p : Point σ) : pass stage rest p = pass stage rest' p := by
  match rest, rest', h with
  | [], [], _ => rfl
  | next :: rest, next' :: rest', h =>
    obtain rfl : next = next' := Option.some.inj h
    have hhand (child : Child) (s : σ) :
        handOn child (next :: rest) s = handOn child (next :: rest') s := by
      obtain ⟨inv, b | program⟩ := next <;> cases hp : child.output <;> simp [handOn, hp]
    obtain ⟨inv, b | program⟩ := stage
    · rfl
    · simp only [pass, List.isEmpty_cons, hhand]

/-- A stage that fails only looks whether it is the last. -/
theorem pass_of_error {stage : PlannedStage} {rest rest' : List PlannedStage} {p p' : Point σ}
    {e : ProcessError} (h : pass stage rest p = (.error e, p'))
    (hrest : rest'.isEmpty = rest.isEmpty) : pass stage rest' p = (.error e, p') := by
  obtain ⟨inv, b | program⟩ := stage
  · cases hr : rest.isEmpty <;> simp [pass, hr] at h
  · simp only [pass, hrest] at h ⊢
    rcases hs : startStage p.state p.input program inv rest.isEmpty p.machine with ⟨e' | child, s⟩
    · simpa only [hs] using h
    · simp [hs] at h

/-- The same run of a stage on another machine. -/
def StageRun.map (φ : Host.Hom σ τ) (r : StageRun σ) : StageRun τ :=
  ⟨r.stage, r.rest, r.before.map φ⟩

theorem StageRun.outcome_map (φ : Host.Hom σ τ) (r : StageRun σ) :
    (r.map φ).outcome = r.outcome := by
  rw [outcome, map, pass_map]
  rfl

/-- The same stages are come to on machines that belong together. -/
theorem stageRuns_map (φ : Host.Hom σ τ) (stages : List PlannedStage) (p : Point σ) :
    stageRuns stages (p.map φ) = (stageRuns stages p).map (StageRun.map φ) :=
  stageRuns_reword φ.rewording stages p

/-- On record the same stages are come to, and they fail alike. -/
theorem exists_recorded {stages : List PlannedStage} {p : Point σ} {k : Nat} {r : StageRun σ}
    (h : (stageRuns stages p)[k]? = some r) :
    ∃ r', (stageRuns stages p.recorded)[k]? = some r' ∧ r'.outcome = r.outcome := by
  have hforget : stageRuns stages p =
      (stageRuns stages p.recorded).map (StageRun.map Recorded.forget) :=
    stageRuns_map Recorded.forget stages p.recorded
  rw [hforget, List.getElem?_map, Option.map_eq_some_iff] at h
  obtain ⟨r', hr', rfl⟩ := h
  exact ⟨r', hr', (r'.outcome_map Recorded.forget).symm⟩

/-- The stages that are come to are the first ones. -/
theorem map_stage_isPrefix (stages : List PlannedStage) (p : Point σ) :
    (stageRuns stages p).map StageRun.stage <+: stages := by
  induction stages generalizing p with
  | nil => exact List.prefix_rfl
  | cons stage rest ih =>
    rcases h : pass stage rest p with ⟨e | child, p'⟩
    · rw [stageRuns_of_error h]
      exact ⟨rest, rfl⟩
    · rw [stageRuns_of_ok h, List.map_cons, List.prefix_cons_inj]
      exact ih p'

section Failure

variable {stages : List PlannedStage} {p : Point σ} {k : Nat} {r : StageRun σ} {e : ProcessError}

/-- A stage that fails is the first one, or it is come to from where the first one leads. -/
theorem failure_cases {stage : PlannedStage} {rest : List PlannedStage}
    (hr : (stageRuns (stage :: rest) p)[k]? = some r) (he : r.outcome = .error e) :
    (k = 0 ∧ ∃ p', pass stage rest p = (.error e, p')) ∨
      ∃ k' child p', k = k' + 1 ∧ pass stage rest p = (.ok child, p') ∧
        (stageRuns rest p')[k']? = some r := by
  cases k with
  | zero =>
    rw [stageRuns, List.getElem?_cons_zero, Option.some.injEq] at hr
    rw [← hr] at he
    exact .inl ⟨rfl, _, Prod.ext he rfl⟩
  | succ k =>
    rcases h : pass stage rest p with ⟨e' | child, p'⟩
    · simp [stageRuns_of_error h] at hr
    · rw [stageRuns_of_ok h, List.getElem?_cons_succ] at hr
      exact .inr ⟨k, child, p', rfl, rfl, hr⟩

/-- The failure of a stage is that of the pipeline, and no stage after it is come to. -/
theorem startAll_of_error (hr : (stageRuns stages p)[k]? = some r) (he : r.outcome = .error e) :
    (startAll p.state p.input stages p.machine).1 = .error e ∧
      (stageRuns stages p).length = k + 1 := by
  induction stages generalizing p k with
  | nil => simp [stageRuns] at hr
  | cons stage rest ih =>
    rcases failure_cases hr he with ⟨rfl, p', h⟩ | ⟨k, child, p', rfl, h, hr⟩
    · rw [startAll_cons, h, stageRuns_of_error h]
      exact ⟨rfl, rfl⟩
    · obtain ⟨hresult, hlength⟩ := ih hr
      rw [startAll_cons, h, stageRuns_of_ok h, List.length_cons, hlength]
      exact ⟨hresult, rfl⟩

/-- A stage that fails is the last that is come to. -/
theorem stageRuns_take_append (hr : (stageRuns stages p)[k]? = some r)
    (he : r.outcome = .error e) : (stageRuns stages p).take k ++ [r] = stageRuns stages p := by
  obtain ⟨-, hlength⟩ := startAll_of_error hr he
  have htake := List.take_add_one (l := stageRuns stages p) (i := k)
  rw [List.take_of_length_le (by omega), hr] at htake
  exact htake.symm

/-- The stages after one that fails make no difference, except whether there are any. -/
theorem startAll_of_later (hr : (stageRuns stages p)[k]? = some r) (he : r.outcome = .error e)
    {later : List PlannedStage} (hlater : later.isEmpty = (stages.drop (k + 1)).isEmpty) :
    startAll p.state p.input (stages.take (k + 1) ++ later) p.machine =
      startAll p.state p.input stages p.machine := by
  induction stages generalizing p k with
  | nil => simp [stageRuns] at hr
  | cons stage rest ih =>
    rcases failure_cases hr he with ⟨rfl, p', h⟩ | ⟨k, child, p', rfl, h, hr⟩
    · have hpass : pass stage ([] ++ later) p = (.error e, p') := pass_of_error h hlater
      rw [List.take_succ_cons, List.take_zero, List.cons_append, startAll_cons, startAll_cons, h,
        hpass]
    · -- there are stages after the first, so it sees the same one after it
      have hhead : (rest.take (k + 1) ++ later).head? = rest.head? := by
        cases rest with
        | nil => simp [stageRuns] at hr
        | cons next rest => rfl
      have hpass := (pass_of_head? hhead stage p).trans h
      rw [List.take_succ_cons, List.cons_append, startAll_cons, startAll_cons, h, hpass]
      simp only [ih hr hlater]

end Failure

namespace StageRun

/-- No stage waits for a program. -/
theorem not_awaits (r : StageRun σ) : ∀ call ∈ r.calls, call.awaits = false := by
  obtain ⟨⟨inv, b | program⟩, rest, p⟩ := r
  · cases rest with
    | nil =>
      intro call hcall
      rcases (adds_runBuiltin b inv p.state { machine := p.machine }).forall_mem call hcall with
        h | h | ⟨h, -⟩
      · exact Call.not_awaits_of_opens h
      · exact Call.not_awaits_of_writes h
      · exact Call.not_awaits_of_prints h
    | cons next rest =>
      have hrun := (b.adds_run inv.args p.state { machine := p.machine }).mono
        (Q := (·.awaits = false)) fun call h =>
          h.elim Call.not_awaits_of_opens fun h =>
            Call.not_awaits_of_writes (Call.writes_of_fills h)
      have hreport := (adds_feedBuiltin b inv p.state { machine := p.machine }).mono
        (Q := (·.awaits = false)) fun call h =>
          h.elim (fun ⟨t, _, ht⟩ => Call.not_awaits_of_opens ht.opens) Call.not_awaits_of_writes
      exact (hrun.trans hreport).forall_mem
  · intro call hcall
    cases ho : StageRun.outcome ⟨⟨inv, .external program⟩, rest, p⟩ with
    | error e =>
      obtain ⟨program', -, hstop⟩ := stop_of_outcome ho
      rcases hstop.call_of_mem hcall with h | ⟨q, rfl⟩ | ⟨launch, cause, -, rfl⟩
      · exact Call.not_awaits_of_opens h
      · rfl
      · rfl
    | ok child? =>
      rcases call_of_program rfl ho hcall with ⟨h, -⟩ | ⟨launch, child, -, rfl⟩ | ⟨q, rfl⟩
      · exact Call.not_awaits_of_opens h
      · rfl
      · rfl

/-- A stage that fails starts nothing. -/
theorem started?_of_error {r : StageRun σ} {e : ProcessError} (h : r.outcome = .error e) :
    ∀ call ∈ r.calls, call.started? = none := by
  intro call hcall
  obtain ⟨program, -, hstop⟩ := stop_of_outcome h
  rcases hstop.call_of_mem hcall with h | ⟨q, rfl⟩ | ⟨launch, cause, -, rfl⟩
  · exact Call.started?_of_not_starts (Call.other_of_opens h).1
  · rfl
  · rfl

/-- The program of a stage is the one that its calls have started. -/
theorem filterMap_started? (r : StageRun σ) :
    r.calls.filterMap Call.started? = r.child?.toList := by
  cases hc : r.stage.command with
  | builtin b =>
    have hserved := served hc
    rw [Call.filterMap_started?, child?, hserved.outcome,
      Call.filter_starts_eq_nil hserved.starts]
    rfl
  | external program =>
    cases ho : r.outcome with
    | error e =>
      rw [child?, ho, List.filterMap_eq_nil_iff.2 (started?_of_error ho)]
      rfl
    | ok child? =>
      obtain ⟨launch, child, hl⟩ := exists_launched hc ho
      rw [Call.filterMap_started?, StageRun.child?, hl.outcome, hl.starts]
      rfl

end StageRun

/-- **The shell waits for what it has started.** The calls of a pipeline end with one `wait` for
each program that was started, in the order of the starts, and there is no other. -/
theorem exists_calls_execute (st : State) (stages : List PlannedStage) (s : σ) :
    ∃ work, (execute st stages ({ machine := s } : Recorded σ)).2.calls =
        work ++ (work.filterMap Call.started?).map Call.wait ∧
      ∀ call ∈ work, call.awaits = false := by
  refine ⟨(stageRuns stages ⟨st, .empty, s⟩).flatMap StageRun.calls, ?_, fun call hcall => ?_⟩
  · rw [calls_execute, List.filterMap_flatMap, List.filterMap_eq_flatMap_toList]
    simp only [StageRun.filterMap_started?]
  · obtain ⟨r, -, hcall⟩ := List.mem_flatMap.1 hcall
    exact r.not_awaits call hcall

/-- What becomes of a pipeline that fails with the failure `e` of its stage `r` at the place `k`. -/
structure Contained (st : State) (stages : List PlannedStage) (s : σ) (k : Nat) (r : StageRun σ)
    (e : ProcessError) : Prop where
  /-- The stage fails, and its failure is that of the pipeline. -/
  result : r.outcome = .error e ∧ (execute st stages s).1 = .error e
  /-- The failure is told by the call that failed: one of the stage's own targets is refused, or its
  own program is. -/
  cause : ∃ program, r.stage.command = .external program ∧
    Stop r.before.state r.before.input program r.stage.invocation r.rest.isEmpty e r.calls
  /-- The stage starts nothing. -/
  unstarted : ∀ call ∈ r.calls, call.started? = none
  /-- The stages up to this one have been come to, and no others. -/
  reached : (stageRuns stages ⟨st, .empty, s⟩).map StageRun.stage = stages.take (k + 1)
  /-- The calls of the pipeline are those of the stages up to this one; then the programs of the
  stages before it are waited for. -/
  calls : (execute st stages ({ machine := s } : Recorded σ)).2.calls =
    (stageRuns stages ⟨st, .empty, s⟩).flatMap StageRun.calls ++
      (((stageRuns stages ⟨st, .empty, s⟩).take k).filterMap StageRun.child?).map Call.wait
  /-- Whatever the stages after this one are, the pipeline makes the same calls and ends alike. -/
  later : ∀ later : List PlannedStage, later.isEmpty = (stages.drop (k + 1)).isEmpty →
    execute st (stages.take (k + 1) ++ later) ({ machine := s } : Recorded σ) =
      execute st stages { machine := s }

/-- A stage that fails is contained. -/
theorem contained_of_error {st : State} {stages : List PlannedStage} {s : σ} {k : Nat}
    {r : StageRun σ} {e : ProcessError}
    (hr : (stageRuns stages ⟨st, .empty, s⟩)[k]? = some r) (he : r.outcome = .error e) :
    Contained st stages s k r e := by
  obtain ⟨hresult, hlength⟩ := startAll_of_error hr he
  obtain ⟨program, hc, hstop⟩ := StageRun.stop_of_outcome he
  have hchild : r.child? = none := by
    rw [StageRun.child?, he]
    rfl
  have hruns := stageRuns_take_append hr he
  exact {
    result := ⟨he, hresult⟩
    cause := ⟨program, hc, hstop⟩
    unstarted := StageRun.started?_of_error he
    reached := by
      have hprefix := map_stage_isPrefix stages (⟨st, .empty, s⟩ : Point σ)
      rw [List.prefix_iff_eq_take.1 hprefix, List.length_map, hlength]
    calls := by
      rw [calls_execute]
      congr 2
      conv_lhs => rw [← hruns]
      rw [List.filterMap_append, List.filterMap_cons, hchild, List.filterMap_nil, List.append_nil]
    later := fun later hlater => by
      obtain ⟨r', hr', ho⟩ := exists_recorded hr
      have hstart : startAll st .empty (stages.take (k + 1) ++ later)
          ({ machine := s } : Recorded σ) = _ := startAll_of_later hr' (ho.trans he) hlater
      rw [execute, hstart]
      rfl }

end Pipeline

/-- A line whose pipeline is planned leaves the state alone and goes on; of a failure it says one
line. -/
theorem Line.run_of_plan {σ : Type} [Host σ] {line : String} {st : State} {s : σ}
    {stages : List PlannedStage} (htwo : 2 ≤ (Stage.ofLine line).length)
    (hplan : (Pipeline.parse (Stage.ofLine line)).bind (Pipeline.plan st s) = .ok stages) :
    run line st s = (.proceed, st,
      match Pipeline.execute st stages s with
      | (.ok _, s') => s'
      | (.error e, s') => Host.complainLine e.message s') := by
  rw [run]
  split
  next hs => simp [hs] at htwo
  · simp only [Pipeline.run, hplan]
    rcases Pipeline.execute st stages s with ⟨e | _, s'⟩ <;> rfl

/-- The failure of a stage is told after the pipeline is done. -/
theorem Line.run_of_stage_error {σ : Type} [Host σ] {line : String} {st : State} {s : σ}
    {stages : List PlannedStage} {k : Nat} {r : Pipeline.StageRun σ} {e : ProcessError}
    (htwo : 2 ≤ (Stage.ofLine line).length)
    (hplan : (Pipeline.parse (Stage.ofLine line)).bind (Pipeline.plan st s) = .ok stages)
    (hr : (Pipeline.stageRuns stages ⟨st, .empty, s⟩)[k]? = some r) (he : r.outcome = .error e) :
    run line st s =
      (.proceed, st, Host.complainLine e.message (Pipeline.execute st stages s).2) := by
  have hresult := (Pipeline.contained_of_error hr he).result.2
  rw [run_of_plan htwo hplan]
  rcases hx : Pipeline.execute st stages s with ⟨result, s₁⟩
  rw [hx] at hresult
  obtain rfl : result = _ := hresult
  rfl

namespace Pipeline

variable {σ : Type} [Host σ]

/-- **A failure in the middle of a pipeline is contained.** Whatever happens, the calls of a
pipeline end with one `wait` for each program that was started, in order, and there is no other. If
a program is come to and one of its targets cannot be opened or it cannot be started, the pipeline
is `Contained`: no stage after it is run. A line that is such a pipeline leaves the state alone and
goes on, and it says one line about the failure after the pipeline is done. -/
theorem failure_contained (st : State) (stages : List PlannedStage) (s : σ) :
    (execute st stages ({ machine := s } : Recorded σ)).map id Recorded.machine =
      execute st stages s ∧
    (∃ work, (execute st stages ({ machine := s } : Recorded σ)).2.calls =
        work ++ (work.filterMap Call.started?).map Call.wait ∧
      ∀ call ∈ work, call.awaits = false) ∧
    (∀ (k : Nat) (r : StageRun σ) (program : String),
      (stageRuns stages ⟨st, .empty, s⟩)[k]? = some r → r.stage.command = .external program →
      (∃ call ∈ r.calls, call.fails) → ∃ e, Contained st stages s k r e) ∧
    ∀ line : String, 2 ≤ (Stage.ofLine line).length →
      (parse (Stage.ofLine line)).bind (plan st s) = .ok stages →
      Line.run line st s = (.proceed, st,
        match execute st stages s with
        | (.ok _, s') => s'
        | (.error e, s') => Host.complainLine e.message s') := by
  refine ⟨(execute_map Recorded.forget st stages _).symm, exists_calls_execute st stages s,
    fun k r program hr hc hfails => ?_, fun line htwo hplan => Line.run_of_plan htwo hplan⟩
  cases ho : r.outcome with
  | error e => exact ⟨e, contained_of_error hr ho⟩
  | ok child? =>
    obtain ⟨call, hcall, hfails⟩ := hfails
    rcases StageRun.call_of_program hc ho hcall with ⟨-, h⟩ | ⟨launch, child, -, rfl⟩ | ⟨q, rfl⟩
    · simp [h] at hfails
    · cases hfails
    · cases hfails

end Pipeline

namespace Machine

/-- A shell in `/r` that looks up programs there. -/
def inScripts : State := ⟨"/r", none, .ofValue (some "/r"), {}⟩

/-- The stages of `up | down 2> up/x | echo hi > a`; there cannot be a file below the program
`up`. -/
def upDownEcho : List PlannedStage :=
  [⟨⟨"up", [], {}⟩, .external "/r/up"⟩,
    ⟨⟨"down", [], { stderr := some ⟨"up/x", .truncate⟩ }⟩, .external "/r/down"⟩,
    ⟨⟨"echo", ["hi"], { stdout := some ⟨"a", .truncate⟩ }⟩, .builtin .echo⟩]

/-- Between a program that was started and a builtin with a target, a program whose own target is
refused: the line tells of that, and the target of the builtin is not made. -/
theorem failure_contained_upDownEcho :
    (∃ r, Pipeline.Contained inScripts upDownEcho withScripts 1 r
      (.redirect "up/x" .alreadyExists)) ∧
    Line.run "up | down 2> up/x | echo hi > a" inScripts withScripts = (.proceed, inScripts,
      Host.complainLine "up/x: File exists"
        (Pipeline.execute inScripts upDownEcho withScripts).2) ∧
    Host.kind? (Line.run "up | down 2> up/x | echo hi > a" inScripts withScripts).2.2 "/r/a" =
      none := by
  have hall := Pipeline.failure_contained inScripts upDownEcho withScripts
  have hresult : (Pipeline.execute inScripts upDownEcho withScripts).1 =
      .error (.redirect "up/x" .alreadyExists) := by decide +kernel
  refine ⟨?_, ?_, by decide +kernel⟩
  · have hfails : (Pipeline.stageRuns upDownEcho ⟨inScripts, .empty, withScripts⟩)[1]?.map
        (fun r => (r.stage.command, r.calls.any Call.fails)) =
        some (.external "/r/down", true) := by decide +kernel
    obtain ⟨r, hr, hfails⟩ := Option.map_eq_some_iff.1 hfails
    obtain ⟨hc, hfails⟩ := Prod.mk.inj hfails
    obtain ⟨e, hcontained⟩ := hall.2.2.1 1 r "/r/down" hr hc (List.any_eq_true.1 hfails)
    obtain rfl := Except.error.inj (hresult.symm.trans hcontained.result.2)
    exact ⟨r, hcontained⟩
  · have hplan : (Pipeline.parse (Stage.ofLine "up | down 2> up/x | echo hi > a")).bind
        (Pipeline.plan inScripts withScripts) = .ok upDownEcho := by decide +kernel
    have hmessage : (ProcessError.redirect "up/x" .alreadyExists).message =
        "up/x: File exists" := by decide +kernel
    have hrun := hall.2.2.2 "up | down 2> up/x | echo hi > a" (by decide +kernel) hplan
    rcases hx : Pipeline.execute inScripts upDownEcho withScripts with ⟨result, m⟩
    rw [hx] at hresult hrun
    obtain rfl : result = _ := hresult
    rw [hrun, ← hmessage]

end Machine
end LineShell
