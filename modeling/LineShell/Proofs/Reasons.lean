import LineShell.Proofs.Planning
import LineShell.Proofs.Unstarted

/-!
# Errors are shown by their reasons, except one

The reason of an error never carries its number (`OsError.not_infix_reason`), and the full text of a
numbered error always does. What the shell shows is told in two ways.

* A line cannot tell errors apart that have the same reason: on a machine with its errors reworded
  (`Reworded`) it does the same (`Line.run_reword`). This covers every error that can be met,
  wherever that is, with one exception: if it cannot be written what a builtin gives back, whether
  to its target or to the shell's standard output, the full text is shown (`Line.Unwritten`). In a
  pipeline that can only happen to the last stage.
* For each place where an error gives up a command, the line of text that is shown for it:
  `Line.ShowsReasons` for a lone command, `Pipeline.ShowsReasons` for a stage of a pipeline,
  `Builtin.run_history_of_error` for a history file and `Line.run_of_unwritten` for the exception.

| what fails                           | what is shown             |
|--------------------------------------|---------------------------|
| opening a target of a builtin        | `name: path: reason`      |
| opening a target of a program        | `path: reason`            |
| starting a program                   | `name: reason`            |
| waiting for a lone program           | `reason`                  |
| reading or writing a history file    | `history: path: reason`   |
| writing what a builtin gives back    | `name: write error: text` |
-/

namespace LineShell

namespace OsError

theorem before_isPrefix (mark cs : List Char) : before mark cs <+: cs := by
  induction cs with
  | nil => exact List.prefix_rfl
  | cons c cs ih =>
    rw [before]
    split_ifs
    · exact List.nil_prefix
    · exact List.prefix_cons_inj c |>.2 ih

/-- In what stands before the first mark there is no mark. -/
theorem not_infix_before {mark : List Char} (hmark : mark ≠ []) (cs : List Char) :
    ¬ mark <:+: before mark cs := by
  induction cs with
  | nil =>
    rw [before, List.infix_nil]
    exact hmark
  | cons c cs ih =>
    rw [before]
    split_ifs with h
    · rw [List.infix_nil]
      exact hmark
    · rw [List.infix_cons_iff]
      rintro (hstart | hlater)
      · have hprefix : mark <+: c :: cs :=
          hstart.trans ((List.prefix_cons_inj c).2 (before_isPrefix mark cs))
        exact h (List.isPrefixOf_iff_prefix.2 hprefix)
      · exact ih hlater

/-- Without a mark all stands before it. -/
theorem before_eq_self {mark cs : List Char} (h : ¬ mark <:+: cs) : before mark cs = cs := by
  induction cs with
  | nil => rfl
  | cons c cs ih =>
    rw [List.infix_cons_iff, not_or] at h
    rw [before, if_neg fun hstart => h.1 (List.isPrefixOf_iff_prefix.1 hstart), ih h.2]

/-- A reason carries no number. -/
theorem not_infix_reason (e : OsError) : ¬ " (os error".toList <:+: e.reason.toList := by
  rw [reason]
  cases e.kind with
  | notFound =>
    show ¬ " (os error".toList <:+: "No such file or directory".toList
    decide
  | permissionDenied =>
    show ¬ " (os error".toList <:+: "Permission denied".toList
    decide
  | other =>
    have hmark : " (os error".toList ≠ [] := by decide
    have hlist : (String.ofList (before " (os error".toList e.text.toList)).toList =
        before " (os error".toList e.text.toList := String.toList_ofList
    show ¬ " (os error".toList <:+: (String.ofList (before _ e.text.toList)).toList
    rw [hlist]
    exact not_infix_before hmark e.text.toList

/-- The full text of a numbered error carries its number. -/
theorem infix_text_code (n : Int) : " (os error".toList <:+: (code n).text.toList := by
  have hmark : " (os error ".toList = " (os error".toList ++ [' '] := by decide
  have htext : (code n).text.toList =
      (name n).toList ++ " (os error ".toList ++ (toString n).toList ++ ")".toList := by
    simp only [text, String.toList_append]
    rfl
  rw [htext, hmark]
  exact ⟨(name n).toList, [' '] ++ (toString n).toList ++ ")".toList, by simp⟩

/-- All errors in the words of their reasons. -/
def plain : Rewording where
  toFun e := .custom .other e.reason
  reason_eq e := by
    show String.ofList (before _ e.reason.toList) = _
    rw [before_eq_self e.not_infix_reason, String.ofList_toList]
  notText_eq := by decide

end OsError

/-- A machine with its errors in other words. -/
structure Reworded (f : OsError.Rewording) (σ : Type) where
  /-- The machine. -/
  machine : σ

variable {σ τ : Type} [Host σ] [Host τ] {f : OsError.Rewording}

namespace Reworded

/-- The outcome of a service with its error in other words. -/
def reword {α : Type} (outcome : Except OsError α × σ) : Except OsError α × Reworded f σ :=
  outcome.map (Except.mapError f) mk

instance : Host (Reworded f σ) where
  kind? r := Host.kind? r.machine
  entries? r := Host.entries? r.machine
  read r path := (Host.read r.machine path).mapError f
  makeDirs path r := reword (Host.makeDirs path r.machine)
  create path mode r := reword (Host.create path mode r.machine)
  write h b r := reword (Host.write h b r.machine)
  print b r := reword (Host.print b r.machine)
  complain b r := ⟨Host.complain b r.machine⟩
  start l r := reword (Host.start l r.machine)
  hangUp p r := ⟨Host.hangUp p r.machine⟩
  wait c r := reword (Host.wait c r.machine)
  nextLine r := (Host.nextLine r.machine).map id mk

/-- Putting errors in other words is a map of machines, but for the wording of errors. -/
def into (f : OsError.Rewording) : Host.Rewording f σ (Reworded f σ) where
  toFun := mk
  kind? _ _ := rfl
  entries? _ _ := rfl
  read _ _ := rfl
  makeDirs _ _ := rfl
  create _ _ _ := rfl
  write _ _ _ := rfl
  print _ _ := rfl
  complain _ _ := rfl
  start _ _ := rfl
  hangUp _ _ := rfl
  wait _ _ := rfl

end Reworded

namespace Pipeline

/-- What the builtin of the last stage gives back cannot be written. -/
def StageRun.Unwritten (r : StageRun σ) (cause : OsError) (s' : σ) : Prop :=
  r.rest = [] ∧ ∃ b st', r.stage.command = .builtin b ∧
    b.Unwritten r.stage.invocation r.before.state r.before.machine cause st' s'

variable (φ : Host.Rewording f σ τ)

/-- Starting the stages does the same, however errors are worded, if the text of an error is kept
that does not let it be written what the builtin of the last stage gives back. -/
theorem startAll_reword (stages : List PlannedStage) (p : Point σ)
    (h : ∀ r ∈ stageRuns stages p, ∀ cause s', r.Unwritten cause s' →
      (f cause).text = cause.text) :
    startAll p.state p.input stages (φ p.machine) =
      (startAll p.state p.input stages p.machine).map (Except.mapError (ProcessError.reword f))
        (Prod.map id φ) := by
  induction stages generalizing p with
  | nil => rfl
  | cons stage rest ih =>
    have hfirst : ⟨stage, rest, p⟩ ∈ stageRuns (stage :: rest) p := by
      rw [stageRuns]
      exact List.mem_cons_self
    have hpass := pass_reword φ stage rest p fun hrest b cause st' s' hb hun =>
      h _ hfirst cause s' ⟨hrest, b, st', hb, hun⟩
    have hcons : startAll p.state p.input (stage :: rest) (φ p.machine) = _ :=
      startAll_cons stage rest (p.map φ)
    rw [hcons, hpass, startAll_cons]
    rcases hp : pass stage rest p with ⟨e | child, p'⟩
    · rfl
    · rw [stageRuns_of_ok hp] at h
      have hrest := ih p' fun r hr => h r (List.mem_cons_of_mem _ hr)
      simp only [Prod.map, mapError_ok, Point.map, hrest]
      rfl

/-- A pipeline does the same, however errors are worded, if the text of an error is kept that does
not let it be written what the builtin of the last stage gives back. -/
theorem execute_reword (st : State) (stages : List PlannedStage) (s : σ)
    (h : ∀ r ∈ stageRuns stages ⟨st, .empty, s⟩, ∀ cause s', r.Unwritten cause s' →
      (f cause).text = cause.text) :
    execute st stages (φ s) =
      (execute st stages s).map (Except.mapError (ProcessError.reword f)) φ := by
  have hstart : startAll st .empty stages (φ s) = _ := startAll_reword φ stages ⟨st, .empty, s⟩ h
  rw [execute, hstart, execute]
  exact congrArg (Prod.mk _) (awaitAll_reword φ _ _)

/-- The same program is started, however errors are worded. -/
theorem StageRun.child?_reword (r : StageRun σ) :
    StageRun.child? ⟨r.stage, r.rest, r.before.map φ⟩ = r.child? := by
  cases hc : r.stage.command with
  | builtin b =>
    have hserved := StageRun.served hc
    have hserved' : StageRun.Served ⟨r.stage, r.rest, r.before.map φ⟩ b := StageRun.served hc
    rw [StageRun.child?, hserved'.outcome, StageRun.child?, hserved.outcome]
  | external program =>
    have hpass := pass_reword φ r.stage r.rest r.before fun _ b _ _ _ hb => by
      cases hc.symm.trans hb
    simp only [StageRun.child?, StageRun.outcome, hpass]
    rcases pass r.stage r.rest r.before with ⟨e | child, p⟩ <;> rfl

/-- A last stage that does not fail leaves the machine to the pipeline. -/
theorem startAll_of_last {stages : List PlannedStage} {p : Point σ} {r : StageRun σ}
    {child : Option Child} (hr : r ∈ stageRuns stages p) (hrest : r.rest = [])
    (hok : r.outcome = .ok child) :
    (startAll p.state p.input stages p.machine).1 = .ok () ∧
      (startAll p.state p.input stages p.machine).2.2 = r.after.machine := by
  induction stages generalizing p with
  | nil => cases hr
  | cons stage rest ih =>
    rw [startAll_cons]
    rcases hp : pass stage rest p with ⟨e | child', p'⟩
    · rw [stageRuns_of_error hp, List.mem_singleton] at hr
      subst hr
      simp [StageRun.outcome, hp] at hok
    · rw [stageRuns_of_ok hp, List.mem_cons] at hr
      rcases hr with rfl | hr
      · obtain rfl : rest = [] := hrest
        simp only [StageRun.after, hp]
        exact ⟨rfl, rfl⟩
      · exact ih hr

/-- If it cannot be written what the builtin of the last stage gives back, the full text of the
error is shown, and then the programs that were started are waited for. -/
theorem execute_of_unwritten {st : State} {stages : List PlannedStage} {s s' : σ} {r : StageRun σ}
    {cause : OsError} (hr : r ∈ stageRuns stages ⟨st, .empty, s⟩) (h : r.Unwritten cause s') :
    execute st stages s =
      (.ok (), awaitAll ((stageRuns stages ⟨st, .empty, s⟩).filterMap StageRun.child?)
        (Host.complainLine s!"{r.stage.invocation.name}: write error: {cause.text}" s')) := by
  obtain ⟨hrest, b, st', hc, hun⟩ := h
  have hserved := StageRun.served hc
  have hafter : r.after.machine =
      Host.complainLine s!"{r.stage.invocation.name}: write error: {cause.text}" s' := by
    obtain ⟨⟨inv, command⟩, rest, p⟩ := r
    obtain rfl : command = .builtin b := hc
    obtain rfl : rest = [] := hrest
    simp only [StageRun.after, pass, runBuiltin_of_unwritten hun]
    rfl
  obtain ⟨hok, hmachine⟩ := startAll_of_last hr hrest hserved.outcome
  have hchildren := children_startAll stages ⟨st, .empty, s⟩
  rw [execute]
  rcases hx : startAll st .empty stages s with ⟨result, children, s₁⟩
  rw [hx] at hok hmachine hchildren
  obtain rfl : result = .ok () := hok
  obtain rfl : children = _ := hchildren
  rw [← hafter, ← hmachine]

theorem awaitAll_nil (s : σ) : awaitAll [] s = s := rfl

end Pipeline

/-- The machine does not let a lone program be waited for: its targets have been opened and it has
been started with them, and waiting for it fails for a cause and leaves another machine. -/
def Invocation.Unawaited (inv : Invocation) (program : String) (st : State) (s : σ)
    (cause : OsError) (s' : σ) : Prop :=
  ∃ out err s₁ child s₂, Target.openBoth st.cwd inv.redirection s = (.ok (out, err), s₁) ∧
    Host.start (inv.launch program st.cwd .inherited (.ofTarget out) err) s₁ = (.ok child, s₂) ∧
    Host.wait child s₂ = (.error cause, s')

theorem Invocation.run_of_unawaited {inv : Invocation} {program : String} {st : State} {s s' : σ}
    {cause : OsError} (hc : Command.resolve st s inv.name = some (.external program))
    (h : inv.Unawaited program st s cause s') :
    inv.run st s = (.proceed, st, report st.cwd inv.redirection cause.reason s') := by
  obtain ⟨out, err, s₁, child, s₂, hopen, hstart, hwait⟩ := h
  rw [launch] at hstart
  simp only [run, hc, runProgram, hopen, hstart, awaitProgram, hwait, ProcessError.message]

/-- That a target of a builtin cannot be opened is told with the names of both. -/
theorem Command.tell_of_redirect (b : Builtin) (inv : Invocation) (cwd path : String)
    (cause : OsError) (s : σ) :
    (builtin b).tell inv cwd (.redirect path cause) s =
      Host.complainLine s!"{inv.name}: {path}: {cause.reason}" s := by
  simp only [tell, ProcessError.message, toString, String.append_assoc]

namespace Line

/-- What a builtin of the line gives back cannot be written: the name of the builtin, why not, the
state and the machine that this leaves, and the programs that are still to be waited for. -/
inductive Unwritten (line : String) (st : State) (s : σ) :
    String → OsError → State → σ → List Child → Prop where
  /-- The builtin is a lone command. -/
  | lone {inv : Invocation} {b : Builtin} {cause : OsError} {st' : State} {s' : σ}
      (hlone : lone? line = some inv) (hc : Command.resolve st s inv.name = some (.builtin b))
      (h : b.Unwritten inv st s cause st' s') : Unwritten line st s inv.name cause st' s' []
  /-- The builtin is the last stage of a pipeline. -/
  | last {stages : List PlannedStage} {r : Pipeline.StageRun σ} {cause : OsError} {s' : σ}
      (htwo : 2 ≤ (Stage.ofLine line).length)
      (hplan : (Pipeline.parse (Stage.ofLine line)).bind (Pipeline.plan st s) = .ok stages)
      (hr : r ∈ Pipeline.stageRuns stages ⟨st, .empty, s⟩) (h : r.Unwritten cause s') :
    Unwritten line st s r.stage.invocation.name cause st s'
      ((Pipeline.stageRuns stages ⟨st, .empty, s⟩).filterMap Pipeline.StageRun.child?)

variable {line : String} {st : State} {s : σ}

/-- If it cannot be written what a builtin of the line gives back, the full text of the error is
shown. -/
theorem run_of_unwritten {name : String} {cause : OsError} {st' : State} {s' : σ}
    {children : List Child} (h : Unwritten line st s name cause st' s' children) :
    run line st s = (.proceed, st', Pipeline.awaitAll children
      (Host.complainLine s!"{name}: write error: {cause.text}" s')) := by
  cases h with
  | lone hlone hc h =>
    rw [run_of_lone? hlone, Invocation.run, hc]
    exact runBuiltin_of_unwritten h
  | last htwo hplan hr h =>
    rw [run_of_plan htwo hplan, Pipeline.execute_of_unwritten hr h]

/-- A line does the same, however errors are worded, if the text of an error is kept that does not
let it be written what a builtin of the line gives back. -/
theorem run_reword (φ : Host.Rewording f σ τ)
    (h : ∀ name cause st' s' children, Unwritten line st s name cause st' s' children →
      (f cause).text = cause.text) :
    run line st (φ s) = (run line st s).map id (Prod.map id φ) := by
  rcases hs : Stage.ofLine line with _ | ⟨stage, _ | ⟨next, rest⟩⟩
  · exact absurd hs (Stage.ofLine_ne_nil line)
  · cases hinv : Invocation.ofStage? stage with
    | none =>
      simp only [run, hs, hinv]
      rfl
    | some inv =>
      have hlone : lone? line = some inv := by simp only [lone?, hs, hinv]
      rw [run_of_lone? hlone, run_of_lone? hlone]
      exact Invocation.run_reword φ inv st s fun b cause st' s' hc hun =>
        h inv.name cause st' s' [] (.lone hlone hc hun)
  · have htwo : 2 ≤ (Stage.ofLine line).length := by
      rw [hs, List.length_cons, List.length_cons]
      omega
    have hsame : (Pipeline.parse (Stage.ofLine line)).bind (Pipeline.plan st (φ s)) =
        (Pipeline.parse (Stage.ofLine line)).bind (Pipeline.plan st s) := by
      rw [Pipeline.plan_reword]
    cases hplan : (Pipeline.parse (Stage.ofLine line)).bind (Pipeline.plan st s) with
    | error e =>
      rw [run_of_error htwo hplan, run_of_error htwo (hsame.trans hplan), Host.complainLine_reword]
      rfl
    | ok stages =>
      have hexecute := Pipeline.execute_reword φ st stages s fun r hr cause s' hun =>
        h _ cause st s' _ (.last htwo hplan hr hun)
      rw [run_of_plan htwo hplan, run_of_plan htwo (hsame.trans hplan), hexecute]
      rcases Pipeline.execute st stages s with ⟨e | _, s'⟩
      · simp only [Prod.map, mapError_error, ProcessError.message_reword,
          Host.complainLine_reword, id]
      · rfl

/-- What cannot be written on a machine cannot be written with other words for its errors. -/
theorem Unwritten.reword (φ : Host.Rewording f σ τ) {name : String} {cause : OsError} {st' : State}
    {s' : σ} {children : List Child} (h : Unwritten line st s name cause st' s' children) :
    Unwritten line st (φ s) name (f cause) st' (φ s') children := by
  cases h with
  | lone hlone hc h =>
    exact .lone hlone ((Command.resolve_reword φ st s _).trans hc) (h.reword φ)
  | @last stages r _ _ htwo hplan hr h =>
    obtain ⟨hrest, b, st₁, hb, hun⟩ := h
    have hruns : Pipeline.stageRuns stages ⟨st, .empty, φ s⟩ = _ :=
      Pipeline.stageRuns_reword φ stages ⟨st, .empty, s⟩
    have hchildren : (Pipeline.stageRuns stages ⟨st, .empty, φ s⟩).filterMap
        Pipeline.StageRun.child? =
        (Pipeline.stageRuns stages ⟨st, .empty, s⟩).filterMap Pipeline.StageRun.child? := by
      rw [hruns, List.filterMap_map]
      exact List.filterMap_congr fun r _ => r.child?_reword φ
    have hr' : ⟨r.stage, r.rest, r.before.map φ⟩ ∈ Pipeline.stageRuns stages ⟨st, .empty, φ s⟩ := by
      rw [hruns]
      exact List.mem_map_of_mem hr
    rw [← hchildren]
    exact .last htwo (by rw [Pipeline.plan_reword, hplan]) hr' ⟨hrest, b, st₁, hb, hun.reword φ⟩

/-- What is shown of the errors that give up a lone command: the reason, after the path of the
target or the name of the program. If a program was started and cannot be waited for, the reason is
all that is shown. -/
structure ShowsReasons (line : String) (st : State) (s : σ) (inv : Invocation) (c : Command) :
    Prop where
  /-- A target of a builtin cannot be opened. -/
  builtin : ∀ b path cause s', c = .builtin b →
    inv.redirection.Blocked st.cwd s (.redirect path cause) s' →
    run line st s = (.proceed, st, Host.complainLine s!"{inv.name}: {path}: {cause.reason}" s')
  /-- A target of a program cannot be opened. -/
  program : ∀ program path cause s', c = .external program →
    inv.redirection.Blocked st.cwd s (.redirect path cause) s' →
    run line st s =
      (.proceed, st, report st.cwd inv.redirection s!"{path}: {cause.reason}" s')
  /-- A program cannot be started. -/
  start : ∀ program cause s', c = .external program →
    inv.Unstarted program inv.redirection .inherited .ofTarget st s cause s' →
    run line st s =
      (.proceed, st, report st.cwd inv.redirection s!"{inv.name}: {cause.reason}" s')
  /-- A program cannot be waited for. -/
  wait : ∀ program cause s', c = .external program → inv.Unawaited program st s cause s' →
    run line st s = (.proceed, st, report st.cwd inv.redirection cause.reason s')

theorem showsReasons {inv : Invocation} {c : Command} (hlone : lone? line = some inv)
    (hc : Command.resolve st s inv.name = some c) : ShowsReasons line st s inv c where
  builtin := by
    rintro b path cause s' rfl hblocked
    rw [run_of_lone? hlone, Invocation.run_of_blocked hc hblocked, Command.tell_of_redirect]
  program := by
    rintro program path cause s' rfl hblocked
    rw [run_of_lone? hlone, Invocation.run_of_blocked hc hblocked]
    rfl
  start := by
    rintro program cause s' rfl hun
    rw [run_of_lone? hlone, Invocation.run_of_unstarted hc hun]
    rfl
  wait := by
    rintro program cause s' rfl hun
    rw [run_of_lone? hlone, Invocation.run_of_unawaited hc hun]

end Line

namespace Pipeline

/-- What is shown of the errors that give up a stage of a pipeline: the reason, after the path of
the target or the name of the program. -/
structure ShowsReasons (line : String) (st : State) (s : σ) (stages : List PlannedStage)
    (r : StageRun σ) : Prop where
  /-- A target of a builtin in the last stage cannot be opened. -/
  builtin : ∀ b path cause s', r.stage.command = .builtin b → r.rest = [] →
    r.targets.Blocked r.before.state.cwd r.before.machine (.redirect path cause) s' →
    r.after.machine =
      Host.complainLine s!"{r.stage.invocation.name}: {path}: {cause.reason}" s'
  /-- A target of a program cannot be opened. -/
  program : ∀ program path cause s', r.stage.command = .external program →
    r.targets.Blocked r.before.state.cwd r.before.machine (.redirect path cause) s' →
    Line.run line st s =
      (.proceed, st, Host.complainLine s!"{path}: {cause.reason}" (execute st stages s).2)
  /-- A program cannot be started. -/
  start : ∀ program cause s', r.Unstarted program cause s' →
    Line.run line st s =
      (.proceed, st, Host.complainLine s!"{r.stage.invocation.name}: {cause.reason}"
        (execute st stages s).2)

theorem showsReasons {line : String} {st : State} {s : σ} {stages : List PlannedStage}
    {r : StageRun σ} (htwo : 2 ≤ (Stage.ofLine line).length)
    (hplan : (parse (Stage.ofLine line)).bind (plan st s) = .ok stages)
    (hr : r ∈ stageRuns stages ⟨st, .empty, s⟩) : ShowsReasons line st s stages r where
  builtin := by
    intro b path cause s' hb hrest hblocked
    obtain ⟨-, htold, -⟩ := StageRun.pass_of_blocked (fun _ _ => hrest) hblocked
    rw [(htold b hb).2, Command.tell_of_redirect]
  program := by
    intro program path cause s' hc hblocked
    obtain ⟨-, -, hfails⟩ := StageRun.pass_of_blocked
      (fun b hb => by cases hc.symm.trans hb) hblocked
    obtain ⟨k, hk⟩ := List.mem_iff_getElem?.1 hr
    exact Line.run_of_stage_error htwo hplan hk (hfails program hc).1
  start := by
    intro program cause s' hun
    obtain ⟨k, hk⟩ := List.mem_iff_getElem?.1 hr
    exact Line.run_of_stage_error htwo hplan hk (StageRun.outcome_of_unstarted hun)

end Pipeline

/-- Of a history file that cannot be read or written the reason is told, after its path as typed. -/
theorem Builtin.run_history_of_error {a : FileAction} {option path file : String}
    {args : List String} {st : State} {s s' : σ} {e : FileError} {h : History}
    (ha : FileAction.ofOption? option = some a) (hpath : st.resolve path = .ok file)
    (happly : a.apply st.history file s = (.error e, h, s')) :
    history.run (option :: path :: args) st s =
      (.error (.executionFailed s!"history: {path}: {e.cause.reason}"), st, s') := by
  have hchange := History.change_apply st.history s file a
  rw [happly] at hchange
  obtain rfl := hchange.eq_of_error
  simp only [run, runHistory, ha, runFileAction, hpath, happly]

/-- **Errors are shown by their reasons, except one.** A reason never carries the number of an
error.

* However the errors of a machine are worded, as long as their reasons stay, a line does the same:
  wherever an error is met, its reason is all that the line knows of it. The only exception is an
  error for which it cannot be written what a builtin of the line gives back.
* For a target that cannot be opened, a program that cannot be started and a history file that
  cannot be read or written, the reason is shown, in a lone command and in a stage of a pipeline. It
  is also shown for a lone program that cannot be waited for.
* If it cannot be written what a builtin gives back, the full text of the error is shown, which
  carries its number if there is one. With all errors in the words of their reasons the line would
  show the reason and do the same otherwise. -/
theorem Line.errors_shown_by_reason (line : String) (st : State) (s : σ) :
    (∀ e : OsError, ¬ " (os error".toList <:+: e.reason.toList) ∧
    (∀ f : OsError.Rewording,
      (∀ name cause st' s' children, Unwritten line st s name cause st' s' children →
        (f cause).text = cause.text) →
      run line st (⟨s⟩ : Reworded f σ) = (run line st s).map id (Prod.map id Reworded.mk)) ∧
    (∀ inv c, lone? line = some inv → Command.resolve st s inv.name = some c →
      ShowsReasons line st s inv c) ∧
    (∀ stages, 2 ≤ (Stage.ofLine line).length →
      (Pipeline.parse (Stage.ofLine line)).bind (Pipeline.plan st s) = .ok stages →
      ∀ r ∈ Pipeline.stageRuns stages ⟨st, .empty, s⟩,
        Pipeline.ShowsReasons line st s stages r) ∧
    (∀ (a : Builtin.FileAction) (option path file : String) (args : List String) (st : State)
      (s s' : σ) (e : FileError) (h : History), Builtin.FileAction.ofOption? option = some a →
      st.resolve path = .ok file → a.apply st.history file s = (.error e, h, s') →
      Builtin.history.run (option :: path :: args) st s =
        (.error (.executionFailed s!"history: {path}: {e.cause.reason}"), st, s')) ∧
    (∀ name cause st' s' children, Unwritten line st s name cause st' s' children →
      run line st s = (.proceed, st', Pipeline.awaitAll children
        (Host.complainLine s!"{name}: write error: {cause.text}" s')) ∧
      run line st (⟨s⟩ : Reworded OsError.plain σ) = (.proceed, st', ⟨Pipeline.awaitAll children
        (Host.complainLine s!"{name}: write error: {cause.reason}" s')⟩)) ∧
    ∀ n : Int, " (os error".toList <:+: (OsError.code n).text.toList := by
  refine ⟨OsError.not_infix_reason, fun f h => run_reword (Reworded.into f) h,
    fun inv c hlone hc => showsReasons hlone hc,
    fun stages htwo hplan r hr => Pipeline.showsReasons htwo hplan hr,
    fun a option path file args st s s' e h => Builtin.run_history_of_error,
    fun name cause st' s' children h => ⟨run_of_unwritten h, ?_⟩, OsError.infix_text_code⟩
  have hplain := run_of_unwritten (h.reword (Reworded.into OsError.plain))
  rw [Host.complainLine_reword, Pipeline.awaitAll_reword] at hplain
  exact hplain

namespace Machine

open State (besideSub)

/-- The command `echo hi` with its output sent to a file. -/
def echoTo (path : String) : Invocation := ⟨"echo", ["hi"], { stdout := some ⟨path, .truncate⟩ }⟩

/-- What `echo` is to write cannot be sent to a directory: the line says so with the reason, however
errors are worded. It can be sent to the device that is always full, and cannot be written there:
the line shows the number of the error. -/
theorem errors_shown_by_reason_echo :
    Line.run "echo hi > sub" inScripts (⟨besideSub⟩ : Reworded OsError.plain Machine) =
      (Line.run "echo hi > sub" inScripts besideSub).map id (Prod.map id Reworded.mk) ∧
    (∃ m, Line.run "echo hi > sub" inScripts besideSub =
      (.proceed, inScripts, Host.complainLine "echo: sub: Is a directory" m)) ∧
    ∃ m, Line.run "echo hi > /dev/full" inScripts besideSub = (.proceed, inScripts,
        Host.complainLine "echo: write error: No space left on device (os error 28)" m) ∧
      Line.run "echo hi > /dev/full" inScripts (⟨besideSub⟩ : Reworded OsError.plain Machine) =
        (.proceed, inScripts,
          ⟨Host.complainLine "echo: write error: No space left on device" m⟩) := by
  have hc : Command.resolve inScripts besideSub "echo" = some (.builtin .echo) := by decide +kernel
  have hlone : Line.lone? "echo hi > sub" = some (echoTo "sub") := by decide +kernel
  have hblocked : (Target.openBoth "/r" (echoTo "sub").redirection besideSub).1 =
      .error (.redirect "sub" .isDirectory) := by decide +kernel
  obtain ⟨-, hreword, hshows, -⟩ := Line.errors_shown_by_reason "echo hi > sub" inScripts besideSub
  refine ⟨hreword OsError.plain ?_, ?_, ?_⟩
  · intro name cause st' s' children h
    cases h with
    | lone hlone' _ hun =>
      obtain rfl := Option.some.inj (hlone.symm.trans hlone')
      obtain ⟨out, err, s₁, -, -, hopen, -⟩ := hun
      rw [show inScripts.cwd = "/r" from rfl] at hopen
      rw [hopen] at hblocked
      cases hblocked
    | last htwo => exact absurd htwo (by decide +kernel)
  · have hmessage : "echo" ++ ": " ++ "sub" ++ ": " ++ OsError.isDirectory.reason =
        "echo: sub: Is a directory" := by decide +kernel
    have hrun := (hshows _ _ hlone hc).builtin .echo "sub" .isDirectory _ rfl
      (Redirection.blocked_iff.2 (eq_mk_of_fst hblocked))
    exact ⟨_, hrun.trans (congrArg (fun text => (_, _, Host.complainLine text _)) hmessage)⟩
  · have hun : (Builtin.echo).Unwritten (echoTo "/dev/full") inScripts besideSub .noSpace
        inScripts _ :=
      ⟨some ⟨0⟩, none, _, _, _, eq_mk_of_fst (by decide +kernel), rfl,
        eq_mk_of_fst (by decide +kernel)⟩
    obtain ⟨-, -, -, -, -, hfull, -⟩ :=
      Line.errors_shown_by_reason "echo hi > /dev/full" inScripts besideSub
    obtain ⟨hrun, hplain⟩ := hfull "echo" .noSpace _ _ _ (.lone (by decide +kernel) hc hun)
    have htext : toString "echo" ++ toString ": write error: " ++ toString OsError.noSpace.text =
        "echo: write error: No space left on device (os error 28)" := by decide +kernel
    have hreason : toString "echo" ++ toString ": write error: " ++ toString OsError.noSpace.reason =
        "echo: write error: No space left on device" := by decide +kernel
    rw [Pipeline.awaitAll_nil, htext] at hrun
    rw [Pipeline.awaitAll_nil, hreason] at hplain
    exact ⟨_, hrun, hplain⟩

/-- The number of an error is shown if `echo` cannot write. -/
theorem write_error_shows_number :
    (Line.run "echo hi > /dev/full" inScripts besideSub).2.2.errors =
      Bytes.ofLine "echo: write error: No space left on device (os error 28)" := by
  decide +kernel

end Machine
end LineShell
