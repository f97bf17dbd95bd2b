import LineShell.Proofs.Changes
import LineShell.Proofs.StageCalls

/-!
# What a stage sees of the stages before it

The stages of a pipeline work on one copy of the shell's state, handed on from stage to stage. So a
stage does not see the state of the prompt but what the builtins before it have made of it: `cd` may
have changed the working directory and `history` the history, and nothing else can have changed.

What a stage does depends on no more of the state than that, and on the history only if it is
`history` itself (`pass_withHistory`). So it does what it would do from the prompt unless a `cd`
stands before it, or it is `history` and a `history` stands before it. For programs, and for `pwd`
in front of another stage, being in the directory of the prompt is also needed.
-/

namespace LineShell

variable {σ : Type} [Host σ]

/-- The same state with another history. -/
def State.withHistory (h : History) (st : State) : State :=
  { st with history := h }

namespace Builtin

theorem runCd_withHistory (st : State) (h : History) (s : σ) (args : List String) :
    runCd (st.withHistory h) s args = (runCd st s args).map (State.withHistory h) := by
  have hgo (path : String) : goTo (st.withHistory h) s path =
      (goTo st s path).map (State.withHistory h) := by
    have hresolve : (st.withHistory h).resolve path = st.resolve path := rfl
    rw [goTo, goTo, hresolve]
    split
    · rfl
    · split
      · rfl
      · split <;> rfl
  rcases args with _ | ⟨path, _ | _⟩
  · exact hgo "~"
  · exact hgo path
  · rfl

/-- Only `history` looks at the history. -/
theorem run_withHistory {b : Builtin} (hb : b ≠ history) (args : List String) (st : State)
    (h : History) (s : σ) :
    b.run args (st.withHistory h) s =
      (b.run args st s).map id (Prod.map (State.withHistory h) id) := by
  cases b with
  | cd =>
    rw [run, run, runCd_withHistory]
    cases runCd st s args <;> rfl
  | history => exact absurd rfl hb
  | _ => rfl

end Builtin

theorem runBuiltin_withHistory {b : Builtin} (hb : b ≠ .history) (inv : Invocation) (st : State)
    (h : History) (s : σ) :
    runBuiltin b inv (st.withHistory h) s =
      (runBuiltin b inv st s).map id (Prod.map (State.withHistory h) id) := by
  have hcwd : (st.withHistory h).cwd = st.cwd := rfl
  simp only [runBuiltin, hcwd, Builtin.run_withHistory hb]
  rcases Target.openBoth st.cwd inv.redirection s with ⟨_ | ⟨out, err⟩, s⟩
  · rfl
  · dsimp only
    rcases b.run inv.args st s with ⟨_ | _ | _ | _, st', s'⟩ <;> rfl

namespace Pipeline

theorem feedBuiltin_withHistory {b : Builtin} (hb : b ≠ .history) (inv : Invocation) (st : State)
    (h : History) (s : σ) :
    feedBuiltin b inv (st.withHistory h) s =
      (feedBuiltin b inv st s).map id (Prod.map (State.withHistory h) id) := by
  simp only [feedBuiltin, Builtin.run_withHistory hb]
  rcases b.run inv.args st s with ⟨_ | _ | _ | _, st', s'⟩ <;> rfl

/-- The same point with another history. -/
def Point.withHistory (h : History) (p : Point σ) : Point σ :=
  ⟨p.state.withHistory h, p.input, p.machine⟩

/-- **Only `history` looks at the history.** Any other stage does the same with another one, and
hands it on. -/
theorem pass_withHistory {stage : PlannedStage} (hs : stage.command ≠ .builtin .history)
    (rest : List PlannedStage) (p : Point σ) (h : History) :
    pass stage rest (p.withHistory h) = (pass stage rest p).map id (Point.withHistory h) := by
  rcases stage with ⟨inv, b | program⟩
  · have hb : b ≠ .history := fun hb => hs (by rw [hb])
    simp only [pass, Point.withHistory, runBuiltin_withHistory hb, feedBuiltin_withHistory hb]
    split <;> rfl
  · have hstart : startStage (p.state.withHistory h) p.input program inv rest.isEmpty p.machine =
        startStage p.state p.input program inv rest.isEmpty p.machine := rfl
    simp only [pass, Point.withHistory, hstart]
    rcases startStage p.state p.input program inv rest.isEmpty p.machine with ⟨_ | child, s⟩ <;> rfl

namespace StageRun

/-- The stage on another state, with the machine and the input as they are. -/
def onState (r : StageRun σ) (st : State) : StageRun σ :=
  { r with before := { r.before with state := st } }

/-- The stage does what it would do on another state: it makes the same calls on the machine, starts
the same program or fails alike, and leaves the same to the next stage. -/
structure SameOn (r : StageRun σ) (st : State) : Prop where
  /-- It makes the same calls. -/
  calls : r.calls = (r.onState st).calls
  /-- It leaves the machine in the same state. -/
  machine : r.after.machine = (r.onState st).after.machine
  /-- It leaves the same to the next stage. -/
  input : r.after.input = (r.onState st).after.input
  /-- It starts the same program or fails alike. -/
  outcome : r.outcome = (r.onState st).outcome

/-- What a builtin or program does to the copied state. -/
theorem after_effect (r : StageRun σ) :
    r.after.state = r.before.state ∨
      ∃ b, r.stage.command = .builtin b ∧ b.Effect r.before.state r.after.state := by
  obtain ⟨⟨inv, b | program⟩, rest, p⟩ := r
  · refine .inr ⟨b, rfl, ?_⟩
    cases rest with
    | nil => exact runBuiltin_effect b inv p.state p.machine
    | cons next rest =>
      have hstate : (feedBuiltin b inv p.state p.machine).2.1 =
          (b.run inv.args p.state p.machine).2.1 := by
        rw [feedBuiltin]
        split <;> simp_all
      have heffect := b.run_effect inv.args p.state p.machine
      rw [← hstate] at heffect
      exact heffect
  · left
    simp only [after, pass]
    split <;> rfl

/-- A stage does what it would do on a state with the same home, search path and working directory;
if it is `history`, the history must be the same too. -/
theorem sameOn_of_agree {r : StageRun σ} {st : State} (hhome : r.before.state.home = st.home)
    (hpath : r.before.state.searchPath = st.searchPath) (hcwd : r.before.state.cwd = st.cwd)
    (hhistory : r.stage.command = .builtin .history → r.before.state.history = st.history) :
    r.SameOn st := by
  obtain ⟨stage, rest, ⟨cwd, home, path, h⟩, input, s⟩ := r
  obtain ⟨cwd', home', path', h'⟩ := st
  obtain ⟨rfl, rfl, rfl⟩ : cwd = cwd' ∧ home = home' ∧ path = path' := ⟨hcwd, hhome, hpath⟩
  by_cases hc : stage.command = .builtin .history
  · obtain rfl : h = h' := hhistory hc
    exact ⟨rfl, rfl, rfl, rfl⟩
  · -- the two states differ in the history only, so the stage on one is the stage on the other
    have hpass := pass_withHistory hc rest (⟨⟨cwd, home, path, h'⟩, input, s⟩ : Point σ) h
    have hrec := pass_withHistory hc rest
      (⟨⟨cwd, home, path, h'⟩, input, { machine := s }⟩ : Point (Recorded σ)) h
    exact ⟨congrArg (·.2.machine.calls) hrec, congrArg (·.2.machine) hpass,
      congrArg (·.2.input) hpass, congrArg (·.1) hpass⟩

/-- A program that is started does what it would do on another state only if it works in the same
directory. -/
theorem cwd_of_sameOn {r : StageRun σ} {st : State} {child : Child}
    (ho : r.outcome = .ok (some child)) (h : r.SameOn st) : r.before.state.cwd = st.cwd := by
  cases hc : r.stage.command with
  | builtin b => simp [(served hc).outcome] at ho
  | external program =>
    -- both runs start one program, by the same call, and the call names the directory
    obtain ⟨launch, child₁, hl⟩ := exists_launched hc ho
    obtain ⟨launch', child₂, hl'⟩ := exists_launched (r := r.onState st) hc (h.outcome ▸ ho)
    have hstarts : r.Starts launch' child₂ := by
      rw [Starts, h.calls]
      exact hl'.mem_starts
    obtain ⟨rfl, -⟩ := hl.eq_of_starts hstarts
    rw [← hl.dir]
    exact hl'.dir

/-- In front of another stage, `pwd` does what it would do on another state only if it works in the
same directory. -/
theorem cwd_of_sameOn_pwd {r : StageRun σ} {st : State} (hc : r.stage.command = .builtin .pwd)
    (hr : r.rest ≠ []) (h : r.SameOn st) : r.before.state.cwd = st.cwd := by
  have hin := h.input
  rw [(served hc).fed hr, (served (r := r.onState st) hc).fed hr, Input.buffer.injEq] at hin
  have htext : Bytes.ofText r.before.state.cwd = Bytes.ofText st.cwd := List.append_cancel_right hin
  rw [← Option.some.injEq, ← Bytes.text?_ofText, htext, Bytes.text?_ofText]

end StageRun

/-- What the stages before a place can have made of the state of the prompt. -/
structure Seen (st : State) (before : List PlannedStage) (st' : State) : Prop where
  /-- Home stays. -/
  home : st'.home = st.home
  /-- The search path stays. -/
  searchPath : st'.searchPath = st.searchPath
  /-- The working directory stays unless there is a `cd`. -/
  cwd : (∀ q ∈ before, q.command ≠ .builtin .cd) → st'.cwd = st.cwd
  /-- The history stays unless there is a `history`. -/
  history : (∀ q ∈ before, q.command ≠ .builtin .history) → st'.history = st.history
  /-- The history never loses an entry. -/
  entries : st.history.entries <+: st'.history.entries

/-- One more stage. -/
theorem Seen.step {st : State} {before : List PlannedStage} {r : StageRun σ}
    (h : Seen st before r.before.state) : Seen st (before ++ [r.stage]) r.after.state := by
  have hbefore {c : Command} (hq : ∀ q ∈ before ++ [r.stage], q.command ≠ c) :
      (∀ q ∈ before, q.command ≠ c) ∧ r.stage.command ≠ c := by
    simpa [or_imp, forall_and] using hq
  rcases r.after_effect with hst | ⟨b, hc, hb⟩
  · rw [hst]
    exact ⟨h.home, h.searchPath, fun hq => h.cwd (hbefore hq).1,
      fun hq => h.history (hbefore hq).1, h.entries⟩
  · refine ⟨hb.home_eq.trans h.home, hb.searchPath_eq.trans h.searchPath, fun hq => ?_,
      fun hq => ?_, h.entries.trans hb.entries_prefix⟩
    · have hcd : b ≠ .cd := fun hcd => (hbefore hq).2 (by rw [hc, hcd])
      exact (hb.cwd_eq hcd).trans (h.cwd (hbefore hq).1)
    · have hhistory : b ≠ .history := fun hh => (hbefore hq).2 (by rw [hc, hh])
      exact (hb.history_eq hhistory).trans (h.history (hbefore hq).1)

/-- Every stage sees what the stages before it have made of the state of the prompt. -/
theorem seen_of_getElem? {stages : List PlannedStage} {p : Point σ} {i : Nat} {r : StageRun σ}
    (hr : (stageRuns stages p)[i]? = some r) : Seen p.state (stages.take i) r.before.state := by
  induction i generalizing r with
  | zero =>
    rw [before_of_getElem?_zero hr]
    exact ⟨rfl, rfl, fun _ => rfl, fun _ => rfl, List.prefix_rfl⟩
  | succ i ih =>
    have hi : i < (stageRuns stages p).length := by
      have := (List.getElem?_eq_some_iff.1 hr).1
      omega
    have hprev := List.getElem?_eq_getElem hi
    rw [before_of_getElem?_succ hprev hr, List.take_add_one, stage_of_getElem? hprev]
    exact (ih hprev).step

/-- **What a stage sees of the stages before it.** The first stage sees the state of the prompt, and
every other one sees the state that the stage before it has left. That has the home and the search
path of the prompt, its working directory unless a `cd` stands before, and its history unless a
`history` stands before. If the working directory is that of the prompt, and for `history` also the
history, the stage does exactly what it would do on the state of the prompt. A program, and `pwd` in
front of another stage, does so only then. -/
theorem sameOn_prompt {st : State} {stages : List PlannedStage} {s : σ} {i : Nat} {r : StageRun σ}
    (hr : (stageRuns stages ⟨st, .empty, s⟩)[i]? = some r) :
    (i = 0 → r.before.state = st) ∧
    (∀ j q, i = j + 1 → (stageRuns stages ⟨st, .empty, s⟩)[j]? = some q →
      r.before.state = q.after.state) ∧
    Seen st (stages.take i) r.before.state ∧
    (r.before.state.cwd = st.cwd →
      (r.stage.command = .builtin .history → r.before.state.history = st.history) →
      r.SameOn st) ∧
    (∀ child, r.outcome = .ok (some child) → (r.SameOn st ↔ r.before.state.cwd = st.cwd)) ∧
    (r.stage.command = .builtin .pwd → r.rest ≠ [] →
      (r.SameOn st ↔ r.before.state.cwd = st.cwd)) := by
  have hseen : Seen st (stages.take i) r.before.state := seen_of_getElem? hr
  have hsame (hcwd : r.before.state.cwd = st.cwd)
      (hh : r.stage.command = .builtin .history → r.before.state.history = st.history) :
      r.SameOn st := StageRun.sameOn_of_agree hseen.home hseen.searchPath hcwd hh
  refine ⟨?_, ?_, hseen, hsame,
    fun child ho => ⟨StageRun.cwd_of_sameOn ho, fun hcwd => hsame hcwd ?_⟩,
    fun hc hrest => ⟨StageRun.cwd_of_sameOn_pwd hc hrest, fun hcwd => hsame hcwd ?_⟩⟩
  · rintro rfl
    rw [before_of_getElem?_zero hr]
  · rintro j q rfl hq
    rw [before_of_getElem?_succ hq hr]
  · intro hc
    simp [(StageRun.served hc).outcome] at ho
  · intro hc'
    simp [hc] at hc'

/-- A shell in `/r`. -/
def atR : State := ⟨"/r", none, .ofValue none, {}⟩

/-- A machine whose shell is started in `/r`, which holds a directory `sub` and a file `f`. -/
def besideFile : Machine :=
  .ofDisk ((Disk.base.installDirectory [] "/r/sub").install [] "/r/f"
    (.file (Bytes.ofText "ls\n") {})) "/r" [] []

/-- The stages of `history -r f | pwd`. -/
def readThenPwd : List PlannedStage :=
  [⟨⟨"history", ["-r", "f"], {}⟩, .builtin .history⟩, ⟨⟨"pwd", [], {}⟩, .builtin .pwd⟩]

/-- Reading a history file gives the next stage another history, which makes no difference to
`pwd`. -/
theorem sameOn_prompt_pwd :
    ∃ r, (stageRuns readThenPwd ⟨atR, .empty, besideFile⟩)[1]? = some r ∧
      r.before.state.history.entries = ["ls"] ∧ r.SameOn atR := by
  have hentries : (stageRuns readThenPwd ⟨atR, .empty, besideFile⟩)[1]?.map
      (·.before.state.history.entries) = some ["ls"] := by decide +kernel
  obtain ⟨r, hr, hentries⟩ := Option.map_eq_some_iff.1 hentries
  have hstage : some r.stage = readThenPwd[1]? := (stage_of_getElem? hr).symm
  have hall := sameOn_prompt hr
  refine ⟨r, hr, hentries, hall.2.2.2.1 (hall.2.2.1.cwd (by decide)) fun hc => ?_⟩
  rw [Option.some.inj hstage] at hc
  cases hc

/-- The stages of `cd sub | pwd`. -/
def cdThenPwd : List PlannedStage :=
  [⟨⟨"cd", ["sub"], {}⟩, .builtin .cd⟩, ⟨⟨"pwd", [], {}⟩, .builtin .pwd⟩]

/-- After a `cd` in the same pipeline, `pwd` does not do what it would do on the state of the
prompt. -/
theorem not_sameOn_after_cd :
    (∃ r, (stageRuns cdThenPwd ⟨atR, .empty, besideFile⟩)[1]? = some r ∧ ¬ r.SameOn atR) ∧
    (Line.run "cd sub | pwd" atR besideFile).2.2.output = Bytes.ofLine "/r/sub" ∧
    (Line.run "pwd" atR besideFile).2.2.output = Bytes.ofLine "/r" := by
  refine ⟨?_, by decide +kernel, by decide +kernel⟩
  have hcalls : (stageRuns cdThenPwd ⟨atR, .empty, besideFile⟩)[1]?.map
      (fun r => decide (r.calls = (r.onState atR).calls)) = some false := by decide +kernel
  obtain ⟨r, hr, hcalls⟩ := Option.map_eq_some_iff.1 hcalls
  exact ⟨r, hr, fun h => of_decide_eq_false hcalls h.calls⟩

end Pipeline
end LineShell
