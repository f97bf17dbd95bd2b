import LineShell.Proofs.Recording

/-!
# A pipeline stage by stage

A pipeline is started by passing its stages one after the other. Between two stages it stands at a
point: the copy of the shell's state, what the next stage is to read, and the machine. `pass` is
what one stage makes of a point (`startAll_cons`), and `stageRuns` lists the stages that are come
to, each with the point that it was come to at.

A pipeline is put together from them: it succeeds if they do (`startAll_ok_iff`), it has started the
programs that they have started (`children_startAll`), and it has made the calls that they have made
(`calls_execute`).
-/

namespace LineShell
namespace Pipeline

/-- Where a pipeline stands between two stages. -/
structure Point (σ : Type) where
  /-- The copy of the shell's state. -/
  state : State
  /-- What the next stage reads if it is a program. -/
  input : Input
  /-- The machine. -/
  machine : σ

/-- The same point on another machine. -/
def Point.map {σ τ : Type} (f : σ → τ) (p : Point σ) : Point τ :=
  ⟨p.state, p.input, f p.machine⟩

/-- The same point with an empty record. -/
def Point.recorded {σ : Type} (p : Point σ) : Point (Recorded σ) :=
  p.map fun s => { machine := s }

variable {σ τ : Type} [Host σ] [Host τ]

/-- Passes a stage with others after it: the program that was started, if there is one, and the
point that is come to. -/
def pass (stage : PlannedStage) (rest : List PlannedStage) (p : Point σ) :
    Except ProcessError (Option Child) × Point σ :=
  match stage with
  | ⟨inv, .builtin b⟩ =>
    if rest.isEmpty then
      let (_, st, s) := runBuiltin b inv p.state p.machine
      (.ok none, ⟨st, .empty, s⟩)
    else
      let (bytes, st, s) := feedBuiltin b inv p.state p.machine
      (.ok none, ⟨st, .buffer bytes, s⟩)
  | ⟨inv, .external program⟩ =>
    match startStage p.state p.input program inv rest.isEmpty p.machine with
    | (.error e, s) => (.error e, ⟨p.state, .empty, s⟩)
    | (.ok child, s) =>
      let (next, s) := handOn child rest s
      (.ok (some child), ⟨p.state, next, s⟩)

/-- Starting all stages is passing the first one and starting the others from where that leads. -/
theorem startAll_cons (stage : PlannedStage) (rest : List PlannedStage) (p : Point σ) :
    startAll p.state p.input (stage :: rest) p.machine =
      match pass stage rest p with
      | (.error e, p) => (.error e, [], p.machine)
      | (.ok child, p) =>
        let (result, children, s) := startAll p.state p.input rest p.machine
        (result, child.toList ++ children, s) := by
  rcases stage with ⟨inv, b | program⟩
  · cases rest with
    | nil => rfl
    | cons => rfl
  · simp only [startAll, pass]
    rcases startStage p.state p.input program inv rest.isEmpty p.machine with ⟨_ | child, s⟩ <;> rfl

/-- A stage does the same, however errors are worded, if the text of an error is kept that does not
let it be written what the builtin of the last stage gives back. -/
theorem pass_reword {f : OsError.Rewording} (φ : Host.Rewording f σ τ) (stage : PlannedStage)
    (rest : List PlannedStage) (p : Point σ)
    (h : rest = [] → ∀ b cause st' s', stage.command = .builtin b →
      b.Unwritten stage.invocation p.state p.machine cause st' s' → (f cause).text = cause.text) :
    pass stage rest (p.map φ) =
      (pass stage rest p).map (Except.mapError (ProcessError.reword f)) (Point.map φ) := by
  rcases stage with ⟨inv, b | program⟩
  · cases rest with
    | nil =>
      have hrun := runBuiltin_reword φ b inv p.state p.machine fun cause st' s' hun =>
        h rfl b cause st' s' rfl hun
      simp only [pass, Point.map, hrun]
      rfl
    | cons next rest =>
      simp only [pass, Point.map, feedBuiltin_reword]
      rfl
  · simp only [pass, Point.map, startStage_reword]
    rcases startStage p.state p.input program inv rest.isEmpty p.machine with ⟨_ | child, s⟩
    · rfl
    · simp only [handOn_reword, Prod.map, mapError_ok, id, Point.map]

theorem pass_map (φ : Host.Hom σ τ) (stage : PlannedStage) (rest : List PlannedStage)
    (p : Point σ) : pass stage rest (p.map φ) = (pass stage rest p).map id (Point.map φ) := by
  rw [← mapError_id, ← ProcessError.reword_refl]
  exact pass_reword φ.rewording stage rest p fun _ _ _ _ _ _ _ => rfl

/-- A stage that was come to. -/
structure StageRun (σ : Type) where
  /-- The stage. -/
  stage : PlannedStage
  /-- The stages after it. -/
  rest : List PlannedStage
  /-- The point at which it was come to. -/
  before : Point σ

namespace StageRun

/-- The program that was started, if there is one, or why the pipeline stops here. -/
def outcome (r : StageRun σ) : Except ProcessError (Option Child) :=
  (pass r.stage r.rest r.before).1

/-- The point that the stage leads to. -/
def after (r : StageRun σ) : Point σ :=
  (pass r.stage r.rest r.before).2

/-- The calls that the stage makes on the machine, in order. -/
def calls (r : StageRun σ) : List Call :=
  (pass r.stage r.rest r.before.recorded).2.machine.calls

/-- The program that was started, if there is one. -/
def child? (r : StageRun σ) : Option Child :=
  r.outcome.toOption.join

/-- On record a stage does what it does, and the record is its calls. -/
theorem pass_recorded (r : StageRun σ) :
    pass r.stage r.rest r.before.recorded =
      (r.outcome, ⟨r.after.state, r.after.input, ⟨r.after.machine, r.calls⟩⟩) := by
  have h : pass r.stage r.rest r.before = _ :=
    pass_map Recorded.forget r.stage r.rest r.before.recorded
  rw [outcome, after, h]
  rfl

end StageRun

/-- The stages that are come to from a point: those up to the first that fails. -/
def stageRuns : List PlannedStage → Point σ → List (StageRun σ)
  | [], _ => []
  | stage :: rest, p =>
    ⟨stage, rest, p⟩ ::
      match pass stage rest p with
      | (.error _, _) => []
      | (.ok _, p) => stageRuns rest p

section StageRuns

variable {stage : PlannedStage} {stages rest : List PlannedStage} {p p' : Point σ}

theorem stageRuns_of_error {e : ProcessError} (h : pass stage rest p = (.error e, p')) :
    stageRuns (stage :: rest) p = [⟨stage, rest, p⟩] := by
  rw [stageRuns, h]

theorem stageRuns_of_ok {child : Option Child} (h : pass stage rest p = (.ok child, p')) :
    stageRuns (stage :: rest) p = ⟨stage, rest, p⟩ :: stageRuns rest p' := by
  rw [stageRuns, h]

/-- Of one stage nothing else is come to, whatever it does. -/
theorem stageRuns_singleton (stage : PlannedStage) (p : Point σ) :
    stageRuns [stage] p = [⟨stage, [], p⟩] := by
  rcases h : pass stage [] p with ⟨e | child, p'⟩
  · exact stageRuns_of_error h
  · exact stageRuns_of_ok h

/-- The same stages are come to, however errors are worded. -/
theorem stageRuns_reword {f : OsError.Rewording} (φ : Host.Rewording f σ τ)
    (stages : List PlannedStage) (p : Point σ) :
    stageRuns stages (p.map φ) =
      (stageRuns stages p).map fun r => ⟨r.stage, r.rest, r.before.map φ⟩ := by
  induction stages generalizing p with
  | nil => rfl
  | cons stage rest ih =>
    cases rest with
    | nil =>
      -- what the last stage does may depend on the wording, but nothing comes after it
      rw [stageRuns_singleton, stageRuns_singleton]
      rfl
    | cons next rest =>
      have hpass := pass_reword φ stage (next :: rest) p fun hrest => by cases hrest
      rcases h : pass stage (next :: rest) p with ⟨e | child, p'⟩
      · rw [h] at hpass
        rw [stageRuns_of_error h, stageRuns_of_error hpass]
        rfl
      · rw [h] at hpass
        rw [stageRuns_of_ok h, stageRuns_of_ok hpass, List.map_cons, ← ih]

/-- Starting the stages succeeds if each of those that are come to does. -/
theorem startAll_ok_iff (stages : List PlannedStage) (p : Point σ) :
    (startAll p.state p.input stages p.machine).1 = .ok () ↔
      ∀ r ∈ stageRuns stages p, ∃ child, r.outcome = .ok child := by
  induction stages generalizing p with
  | nil => simp [startAll, stageRuns]
  | cons stage rest ih =>
    rcases h : pass stage rest p with ⟨e | child, p'⟩
    · simp [startAll_cons, stageRuns_of_error h, StageRun.outcome, h]
    · simp [startAll_cons, stageRuns_of_ok h, StageRun.outcome, h, ih]

/-- The programs that are started are those of the stages, in order. -/
theorem children_startAll (stages : List PlannedStage) (p : Point σ) :
    (startAll p.state p.input stages p.machine).2.1 =
      (stageRuns stages p).filterMap StageRun.child? := by
  induction stages generalizing p with
  | nil => rfl
  | cons stage rest ih =>
    rcases h : pass stage rest p with ⟨e | child, p'⟩
    · simp [startAll_cons, stageRuns_of_error h, StageRun.child?, StageRun.outcome, h,
        Except.toOption]
    · have hchild : (⟨stage, rest, p⟩ : StageRun σ).child? = child := by
        simp [StageRun.child?, StageRun.outcome, h, Except.toOption]
      cases child <;> simp [startAll_cons, stageRuns_of_ok h, hchild, h, ih]

/-- The calls that are made are those of the stages, in order. -/
theorem calls_startAll (stages : List PlannedStage) (p : Point σ) :
    (startAll p.state p.input stages ({ machine := p.machine } : Recorded σ)).2.2.calls =
      (stageRuns stages p).flatMap StageRun.calls := by
  induction stages generalizing p with
  | nil => rfl
  | cons stage rest ih =>
    have hpass := (⟨stage, rest, p⟩ : StageRun σ).pass_recorded
    have hcons : startAll p.state p.input (stage :: rest)
        ({ machine := p.machine } : Recorded σ) = _ := startAll_cons stage rest p.recorded
    rw [hcons, hpass]
    rcases h : pass stage rest p with ⟨e | child, p'⟩
    · simp [stageRuns_of_error h, StageRun.outcome, h]
    · -- the stages after this one add their calls to a record that is not empty
      have honto := startAll_map (Recorded.onto (⟨stage, rest, p⟩ : StageRun σ).calls) p'.state
        p'.input rest { machine := p'.machine }
      simp only [Recorded.onto_apply, List.append_nil] at honto
      simp [stageRuns_of_ok h, StageRun.outcome, StageRun.after, h, honto, ih]

theorem calls_awaitAll (children : List Child) (r : Recorded σ) :
    (awaitAll children r).calls = r.calls ++ children.map Call.wait := by
  rw [awaitAll]
  induction children generalizing r with
  | nil => simp
  | cons child children ih =>
    rw [List.foldl_cons, ih, Recorded.calls_wait, List.map_cons, List.append_assoc,
      List.singleton_append]

/-- The calls that a pipeline makes: those of the stages that are come to, then it waits for each
program that was started. -/
theorem calls_execute (st : State) (stages : List PlannedStage) (s : σ) :
    (execute st stages ({ machine := s } : Recorded σ)).2.calls =
      (stageRuns stages ⟨st, .empty, s⟩).flatMap StageRun.calls ++
        ((stageRuns stages ⟨st, .empty, s⟩).filterMap StageRun.child?).map Call.wait := by
  have hchildren : (startAll st .empty stages ({ machine := s } : Recorded σ)).2.1 =
      (startAll st .empty stages s).2.1 := by
    rw [show s = Recorded.forget { machine := s } from rfl, startAll_map]
    rfl
  have hcalls := calls_startAll stages (⟨st, .empty, s⟩ : Point σ)
  have hstarted := children_startAll stages (⟨st, .empty, s⟩ : Point σ)
  simp only [execute, calls_awaitAll, hchildren, hcalls, hstarted]

/-- If starting the stages succeeds, each of them has been come to. -/
theorem map_stage_stageRuns (h : (startAll p.state p.input stages p.machine).1 = .ok ()) :
    (stageRuns stages p).map StageRun.stage = stages := by
  induction stages generalizing p with
  | nil => rfl
  | cons stage rest ih =>
    rw [startAll_cons] at h
    rcases hp : pass stage rest p with ⟨e | child, p'⟩
    · simp [hp] at h
    · simp only [hp] at h
      rw [stageRuns_of_ok hp, List.map_cons, ih h]

/-- A stage that was come to stands in its place, before the stages after it. -/
theorem drop_of_getElem? {i : Nat} {r : StageRun σ} (h : (stageRuns stages p)[i]? = some r) :
    stages.drop i = r.stage :: r.rest := by
  induction stages generalizing p i with
  | nil => simp [stageRuns] at h
  | cons stage rest ih =>
    cases i with
    | zero =>
      rw [stageRuns, List.getElem?_cons_zero, Option.some.injEq] at h
      rw [← h]
      rfl
    | succ i =>
      rcases hp : pass stage rest p with ⟨e | child, p'⟩
      · simp [stageRuns_of_error hp] at h
      · rw [stageRuns_of_ok hp] at h
        exact ih h

theorem stage_of_getElem? {i : Nat} {r : StageRun σ} (h : (stageRuns stages p)[i]? = some r) :
    stages[i]? = some r.stage := by
  rw [← List.head?_drop, drop_of_getElem? h, List.head?_cons]

theorem rest_of_getElem? {i : Nat} {r : StageRun σ} (h : (stageRuns stages p)[i]? = some r) :
    r.rest = stages.drop (i + 1) := by
  rw [← List.tail_drop, drop_of_getElem? h, List.tail_cons]

/-- The first stage is come to at the point where the pipeline starts. -/
theorem before_of_getElem?_zero {r : StageRun σ} (h : (stageRuns stages p)[0]? = some r) :
    r.before = p := by
  cases stages with
  | nil => simp [stageRuns] at h
  | cons stage rest =>
    rw [stageRuns, List.getElem?_cons_zero, Option.some.injEq] at h
    rw [← h]

/-- The next stage is come to at the point where the stage before it leads. -/
theorem before_of_getElem?_succ {i : Nat} {r r' : StageRun σ}
    (h : (stageRuns stages p)[i]? = some r) (h' : (stageRuns stages p)[i + 1]? = some r') :
    r'.before = r.after := by
  induction stages generalizing p i with
  | nil => simp [stageRuns] at h
  | cons stage rest ih =>
    rcases hp : pass stage rest p with ⟨e | child, p'⟩
    · simp [stageRuns_of_error hp] at h'
    · rw [stageRuns_of_ok hp] at h h'
      cases i with
      | succ i => exact ih h h'
      | zero =>
        rw [List.getElem?_cons_zero, Option.some.injEq] at h
        rw [← h, StageRun.after, hp]
        exact before_of_getElem?_zero h'

/-- After a stage that does not fail the next one is come to. -/
theorem exists_getElem?_succ {i : Nat} {r : StageRun σ} {child : Option Child}
    (h : (stageRuns stages p)[i]? = some r) (hok : r.outcome = .ok child) (hrest : r.rest ≠ []) :
    ∃ r', (stageRuns stages p)[i + 1]? = some r' := by
  induction stages generalizing p i with
  | nil => simp [stageRuns] at h
  | cons stage rest ih =>
    rcases hp : pass stage rest p with ⟨e | child', p'⟩
    · rw [stageRuns_of_error hp, List.getElem?_singleton] at h
      split_ifs at h
      obtain rfl := Option.some.inj h
      simp [StageRun.outcome, hp] at hok
    · rw [stageRuns_of_ok hp] at h ⊢
      cases i with
      | succ i => exact ih h
      | zero =>
        obtain rfl := Option.some.inj h
        obtain ⟨next, rest', rfl⟩ := List.exists_cons_of_ne_nil hrest
        exact ⟨_, rfl⟩

/-- The stages after a stage are the next one and those after that. -/
theorem rest_eq_cons {i : Nat} {r r' : StageRun σ} (h : (stageRuns stages p)[i]? = some r)
    (h' : (stageRuns stages p)[i + 1]? = some r') : r.rest = r'.stage :: r'.rest := by
  rw [rest_of_getElem? h, drop_of_getElem? h']

end StageRuns
end Pipeline
end LineShell
