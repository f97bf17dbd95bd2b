import LineShell.Proofs.Wiring

/-!
# A builtin feeds a pipe what it would have printed

What a builtin gives back is handled in two places: in front of another stage it is kept for that
stage to read, and alone it is printed. On the same state and machine, and without redirections, the
two agree in everything but where the bytes go: these are the same bytes, the state comes out the
same, and a failure is told on the shell's standard error by the same single line
(`Pipeline.feeds_what_it_prints`).
-/

namespace LineShell

namespace Call

/-- The bytes that the call writes to the shell's standard output. -/
def printed : Call → Bytes
  | print b _ => b
  | _ => []

/-- Whether the call writes to the shell's standard error. -/
def complains : Call → Bool
  | complain _ => true
  | _ => false

theorem printed_of_opens {call : Call} (h : call.opens) : call.printed = [] := by
  cases call <;> first | rfl | cases h

theorem printed_of_writes {call : Call} (h : call.writes) : call.printed = [] := by
  cases call <;> first | rfl | cases h

theorem not_complains_of_own {call : Call} (h : call.opens ∨ call.fills) :
    call.complains = false := by
  cases call <;> first | rfl | exact absurd h (by simp [opens, fills])

end Call

variable {σ : Type}

/-- Calls that print nothing leave what has been printed as it is. -/
theorem Recorded.Adds.flatMap_printed {P : Call → Prop} {r r' : Recorded σ} (h : Adds P r r')
    (hP : ∀ call, P call → call.printed = []) :
    r'.calls.flatMap Call.printed = r.calls.flatMap Call.printed := by
  obtain ⟨new, hnew, hall⟩ := h
  rw [hnew, List.flatMap_append, List.flatMap_eq_nil_iff.2 fun call hc => hP call (hall call hc),
    List.append_nil]

variable [Host σ]

namespace Builtin

/-- By itself a builtin prints nothing. -/
theorem printed_run (b : Builtin) (args : List String) (st : State) (s : σ) :
    (b.run args st ({ machine := s } : Recorded σ)).2.2.calls.flatMap Call.printed = [] :=
  (b.adds_run args st { machine := s }).flatMap_printed fun _ h =>
    h.elim Call.printed_of_opens fun h => Call.printed_of_writes (Call.writes_of_fills h)

/-- By itself a builtin writes nothing to the shell's standard error. -/
theorem complaints_run (b : Builtin) (args : List String) (st : State) (s : σ) :
    (b.run args st ({ machine := s } : Recorded σ)).2.2.calls.filter Call.complains = [] := by
  refine List.filter_eq_nil_iff.2 fun call hcall => ?_
  simp [Call.not_complains_of_own ((b.adds_run args st { machine := s }).forall_mem call hcall)]

/-- On record a builtin gives back what it gives back on the machine itself. -/
theorem fst_run_recorded (b : Builtin) (args : List String) (st : State) (s : σ) :
    (b.run args st ({ machine := s } : Recorded σ)).1 = (b.run args st s).1 :=
  (congrArg Prod.fst (b.run_map Recorded.forget args st { machine := s })).symm

end Builtin

/-- The same command without redirections. -/
def Invocation.bare (inv : Invocation) : Invocation :=
  { inv with redirection := {} }

section Alone

variable (b : Builtin) (inv : Invocation) (st : State) (s : σ)

/-- Alone and without redirections, a builtin leaves the state that it makes. -/
theorem state_runBuiltin_bare : (runBuiltin b inv.bare st s).2.1 = (b.run inv.args st s).2.1 := by
  simp only [runBuiltin, Invocation.bare, Target.openBoth, Target.openIn?_none]
  rcases b.run inv.args st s with ⟨e | text | _ | n, st', s'⟩ <;> rfl

/-- In front of another stage, a builtin leaves the state that it makes. -/
theorem Pipeline.state_feedBuiltin : (feedBuiltin b inv st s).2.1 = (b.run inv.args st s).2.1 := by
  rw [feedBuiltin]
  rcases b.run inv.args st s with ⟨e | text | _ | n, st', s'⟩ <;> rfl

/-- Alone and without redirections, a builtin prints the text that it gives back, on a line of its
own, and nothing else. -/
theorem printed_runBuiltin_bare :
    (runBuiltin b inv.bare st ({ machine := s } : Recorded σ)).2.2.calls.flatMap Call.printed =
      Outcome.fed (b.run inv.args st s).1 := by
  have hown := b.printed_run inv.args st s
  rw [← b.fst_run_recorded]
  simp only [runBuiltin, Invocation.bare, Target.openBoth, Target.openIn?_none]
  generalize b.run inv.args st ({ machine := s } : Recorded σ) = done at hown ⊢
  rcases done with ⟨e | text | _ | n, st', r⟩
  · calc (Host.complainLine e.message r).calls.flatMap Call.printed
        = r.calls.flatMap Call.printed :=
          (Recorded.adds_complainLine e.message r).flatMap_printed fun _ => Call.printed_of_writes
      _ = [] := hown
  · calc (complainUnwritten inv.name (Host.print (Bytes.ofLine text) r).1
          (Host.print (Bytes.ofLine text) r).2).calls.flatMap Call.printed
        = (Host.print (Bytes.ofLine text) r).2.calls.flatMap Call.printed :=
          (adds_complainUnwritten ..).flatMap_printed fun _ => Call.printed_of_writes
      _ = r.calls.flatMap Call.printed ++ Bytes.ofLine text := by
          simp [Recorded.calls_print, Call.printed]
      _ = Bytes.ofLine text := by rw [hown, List.nil_append]
  · exact hown
  · exact hown

variable {b inv st s}

/-- A failure without a target for it is told in the same way on both paths. -/
theorem machine_of_error {st' : State} {s' : σ} {e : CommandError}
    (h : b.run inv.args st s = (.error e, st', s')) (herr : inv.redirection.stderr = none) :
    (Pipeline.feedBuiltin b inv st s).2.2 = Host.complainLine e.message s' ∧
      (runBuiltin b inv.bare st s).2.2 = Host.complainLine e.message s' := by
  constructor
  · simp [Pipeline.feedBuiltin, h, report, herr, Target.openIn?_none]
  · simp [runBuiltin, Invocation.bare, Target.openBoth, Target.openIn?_none, h, deliver, writeError,
      complainUnwritten]

end Alone

namespace Pipeline

/-- On record, the builtin of a stage run alone and without redirections, on the state and the
machine that the stage finds. -/
def StageRun.alone (r : StageRun σ) (b : Builtin) : Flow × State × Recorded σ :=
  runBuiltin b r.stage.invocation.bare r.before.state { machine := r.before.machine }

theorem pass_of_builtin {stage : PlannedStage} {rest : List PlannedStage} {b : Builtin}
    (hb : stage.command = .builtin b) (hrest : rest ≠ []) (p : Point σ) :
    pass stage rest p =
      (.ok none, ⟨(feedBuiltin b stage.invocation p.state p.machine).2.1,
        .buffer (feedBuiltin b stage.invocation p.state p.machine).1,
        (feedBuiltin b stage.invocation p.state p.machine).2.2⟩) := by
  obtain ⟨inv, command⟩ := stage
  obtain rfl : command = .builtin b := hb
  obtain ⟨next, rest, rfl⟩ := List.exists_cons_of_ne_nil hrest
  rfl

/-- In front of another stage, the record of a builtin is that of running it for the stage to
read. -/
theorem StageRun.recorded_of_builtin {r : StageRun σ} {b : Builtin}
    (hb : r.stage.command = .builtin b) (hrest : r.rest ≠ []) :
    (feedBuiltin b r.stage.invocation r.before.state
      ({ machine := r.before.machine } : Recorded σ)).2.2 = ⟨r.after.machine, r.calls⟩ := by
  have h := r.pass_recorded
  rw [pass_of_builtin hb hrest] at h
  exact congrArg (fun q => q.2.machine) h

/-- **A builtin feeds a pipe what it would have printed.** Take a builtin in front of another stage
of a pipeline, and run it alone as well, without redirections, on the same state and machine. Then
the next stage is come to, and the bytes that a program there is to read are those that the builtin
alone prints: its text and a newline, or nothing if it is silent, fails or asks to end the shell.
Both leave the state in the same value. If the builtin fails and has no target for its errors, both
leave the same machine after the same calls, and one of these, the message on a line, goes to the
shell's standard error. -/
theorem feeds_what_it_prints {st : State} {stages : List PlannedStage} {s : σ} {i : Nat}
    {r : StageRun σ} {b : Builtin} (hr : (stageRuns stages ⟨st, .empty, s⟩)[i]? = some r)
    (hb : r.stage.command = .builtin b) (hrest : r.rest ≠ []) :
    runBuiltin b r.stage.invocation.bare r.before.state r.before.machine =
      ((r.alone b).1, (r.alone b).2.1, (r.alone b).2.2.machine) ∧
    (r.alone b).2.2.calls.flatMap Call.printed =
      Outcome.fed (b.run r.stage.invocation.args r.before.state r.before.machine).1 ∧
    (∃ r', (stageRuns stages ⟨st, .empty, s⟩)[i + 1]? = some r' ∧ r.rest = r'.stage :: r'.rest ∧
      ∀ launch answer, .start launch answer ∈ r'.calls →
        launch.stdin = .buffer ((r.alone b).2.2.calls.flatMap Call.printed)) ∧
    r.after.state = (r.alone b).2.1 ∧
    ∀ e, (b.run r.stage.invocation.args r.before.state r.before.machine).1 = .error e →
      r.stage.invocation.redirection.stderr = none →
        (r.alone b).2.2 = ⟨r.after.machine, r.calls⟩ ∧
        r.calls.filter Call.complains = [.complain (Bytes.ofLine e.message)] := by
  have hpass := pass_of_builtin hb hrest r.before
  have hprinted : (r.alone b).2.2.calls.flatMap Call.printed = _ :=
    printed_runBuiltin_bare b r.stage.invocation r.before.state r.before.machine
  refine ⟨?_, hprinted, ?_, ?_, fun e he herr => ?_⟩
  · exact runBuiltin_map Recorded.forget b _ _ ({ machine := r.before.machine } : Recorded σ)
  · obtain ⟨r', hr'⟩ := exists_getElem?_succ hr (congrArg Prod.fst hpass) hrest
    refine ⟨r', hr', rest_eq_cons hr hr', fun launch answer hstart => ?_⟩
    have hafter : r.after.input = .buffer _ := congrArg (fun q => q.2.input) hpass
    rw [StageRun.stdin_of_start hstart, before_of_getElem?_succ hr hr', hafter, hprinted,
      feedBuiltin_fst]
  · have hafter : r.after.state = _ := congrArg (fun q => q.2.state) hpass
    rw [hafter, state_feedBuiltin, ← state_runBuiltin_bare]
    exact congrArg (fun q => q.2.1) (runBuiltin_map Recorded.forget b r.stage.invocation.bare
      r.before.state ({ machine := r.before.machine } : Recorded σ))
  · have hown := b.complaints_run r.stage.invocation.args r.before.state r.before.machine
    rw [← b.fst_run_recorded] at he
    rcases hrun : b.run r.stage.invocation.args r.before.state
      ({ machine := r.before.machine } : Recorded σ) with ⟨result, st', r₁⟩
    rw [hrun] at he hown
    obtain rfl : result = .error e := he
    obtain ⟨hfeed, halone⟩ := machine_of_error hrun herr
    have hrecord := StageRun.recorded_of_builtin hb hrest
    refine ⟨(halone.trans hfeed.symm).trans hrecord, ?_⟩
    have hcalls : r.calls = r₁.calls ++ [.complain (Bytes.ofLine e.message)] :=
      congrArg Recorded.calls (hrecord.symm.trans hfeed)
    rw [hcalls, List.filter_append, hown]
    rfl

end Pipeline

namespace Machine

/-- The stages of `cd nosuch > a | down`. -/
def cdDown : List PlannedStage :=
  [⟨⟨"cd", ["nosuch"], { stdout := some ⟨"a", .truncate⟩ }⟩, .builtin .cd⟩,
    ⟨⟨"down", [], {}⟩, .external "/r/down"⟩]

/-- In front of a program, a `cd` that fails tells so in one line, and the program reads nothing. -/
theorem feeds_what_it_prints_cdDown :
    ∃ r r' launch answer,
      (Pipeline.stageRuns cdDown
        ⟨⟨"/r", none, .ofValue none, {}⟩, .empty, withScripts⟩)[0]? = some r ∧
      (Pipeline.stageRuns cdDown
        ⟨⟨"/r", none, .ofValue none, {}⟩, .empty, withScripts⟩)[1]? = some r' ∧
      .start launch answer ∈ r'.calls ∧ launch.stdin = .buffer [] ∧
      r.calls.filter Call.complains =
        [.complain (Bytes.ofLine "cd: nosuch: No such file or directory")] := by
  have hfails : (Builtin.cd.run ["nosuch"] ⟨"/r", none, .ofValue none, {}⟩ withScripts).1 =
      .error (.executionFailed "cd: nosuch: No such file or directory") := by decide +kernel
  have hstarts : (Pipeline.stageRuns cdDown
      ⟨⟨"/r", none, .ofValue none, {}⟩, .empty, withScripts⟩)[1]?.map
        (fun r => r.calls.any Call.starts) = some true := by decide +kernel
  have hr : (Pipeline.stageRuns cdDown
      ⟨⟨"/r", none, .ofValue none, {}⟩, .empty, withScripts⟩)[0]? = some ⟨_, _, _⟩ := rfl
  obtain ⟨-, hprinted, ⟨r', hr', -, hstdin⟩, -, herror⟩ :=
    Pipeline.feeds_what_it_prints hr rfl (List.cons_ne_nil _ _)
  rw [hr', Option.map_some, Option.some.injEq, List.any_eq_true] at hstarts
  obtain ⟨call, hcall, hcall'⟩ := hstarts
  cases call with
  | start launch answer =>
    refine ⟨_, r', launch, answer, hr, hr', hcall, ?_, (herror _ hfails rfl).2⟩
    rw [hstdin launch answer hcall, hprinted]
    exact congrArg (fun result => Input.buffer (Outcome.fed result)) hfails
  | _ => cases hcall'

end Machine
end LineShell
