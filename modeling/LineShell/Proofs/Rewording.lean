import LineShell.Line

/-!
# The shell knows errors by their reasons

Whatever the shell does, it does through the services of its machine, and when one of them fails it
shows people the reason of the error and not its full text. So a map between machines under which
all services agree, but for a rewording of the errors that keeps their reasons
(`Host.Rewording`), carries the runs of the shell over. There is one lemma for each function, up to
what a stage of a pipeline is made of.

There is one place where the full text is shown: when what a builtin gives back cannot be written
(`Builtin.Unwritten`). There the runs agree if the rewording keeps the text of that error
(`runBuiltin_reword`).
-/

namespace LineShell

/-- A rewording of errors: it keeps the reason that people are shown, and it leaves alone the one
error that the shell makes itself. -/
structure OsError.Rewording where
  /-- The error in other words. -/
  toFun : OsError → OsError
  /-- The reason stays. -/
  reason_eq (e : OsError) : (toFun e).reason = e.reason
  /-- That a file is not text is said by the shell. -/
  notText_eq : toFun .notText = .notText

instance : CoeFun OsError.Rewording fun _ => OsError → OsError := ⟨OsError.Rewording.toFun⟩

variable (f : OsError.Rewording)

theorem mapError_error {ε ε' α : Type} (g : ε → ε') (e : ε) :
    (Except.error e : Except ε α).mapError g = .error (g e) := rfl

theorem mapError_ok {ε ε' α : Type} (g : ε → ε') (a : α) :
    (Except.ok a : Except ε α).mapError g = .ok a := rfl

/-- Trouble with a program, its cause in other words. -/
def ProcessError.reword : ProcessError → ProcessError
  | spawn name cause => spawn name (f cause)
  | redirect path cause => redirect path (f cause)
  | io cause => io (f cause)
  | signal text => signal text

/-- Trouble with a program is told alike. -/
@[simp] theorem ProcessError.message_reword (e : ProcessError) :
    (e.reword f).message = e.message := by
  cases e <;> simp only [reword, message, f.reason_eq]

/-- Trouble with a file, its cause in other words. -/
def FileError.reword (e : FileError) : FileError :=
  { e with cause := f e.cause }

/-- A map between machines under which all services agree, but for the wording of errors. -/
structure Host.Rewording (σ τ : Type) [Host σ] [Host τ] where
  /-- The map. -/
  toFun : σ → τ
  /-- Paths name the same. -/
  kind? (s : σ) (path : String) : Host.kind? (toFun s) path = Host.kind? s path
  /-- Directories hold the same names. -/
  entries? (s : σ) (path : String) : Host.entries? (toFun s) path = Host.entries? s path
  /-- Files hold the same. -/
  read (s : σ) (path : String) : Host.read (toFun s) path = (Host.read s path).mapError f
  /-- Making directories agrees. -/
  makeDirs (path : String) (s : σ) :
    Host.makeDirs path (toFun s) = (Host.makeDirs path s).map (Except.mapError f) toFun
  /-- Opening files agrees. -/
  create (path : String) (mode : WriteMode) (s : σ) :
    Host.create path mode (toFun s) = (Host.create path mode s).map (Except.mapError f) toFun
  /-- Writing to files agrees. -/
  write (h : Handle) (b : Bytes) (s : σ) :
    Host.write h b (toFun s) = (Host.write h b s).map (Except.mapError f) toFun
  /-- Writing to standard output agrees. -/
  print (b : Bytes) (s : σ) :
    Host.print b (toFun s) = (Host.print b s).map (Except.mapError f) toFun
  /-- Writing to standard error agrees. -/
  complain (b : Bytes) (s : σ) : Host.complain b (toFun s) = toFun (Host.complain b s)
  /-- Starting programs agrees. -/
  start (l : Launch) (s : σ) :
    Host.start l (toFun s) = (Host.start l s).map (Except.mapError f) toFun
  /-- Closing pipes agrees. -/
  hangUp (p : Pipe) (s : σ) : Host.hangUp p (toFun s) = toFun (Host.hangUp p s)
  /-- Waiting for programs agrees. -/
  wait (c : Child) (s : σ) :
    Host.wait c (toFun s) = (Host.wait c s).map (Except.mapError f) toFun

variable {f} {σ τ : Type} [Host σ] [Host τ]

instance : CoeFun (Host.Rewording f σ τ) fun _ => σ → τ := ⟨Host.Rewording.toFun⟩

variable (φ : Host.Rewording f σ τ)

namespace Host

theorem isDirectory_reword (s : σ) (path : String) :
    isDirectory (φ s) path = isDirectory s path := by
  rw [isDirectory, φ.kind?, isDirectory]

theorem pathExists_reword (s : σ) (path : String) :
    pathExists (φ s) path = pathExists s path := by
  rw [pathExists, φ.kind?, pathExists]

theorem isExecutable_reword (s : σ) : isExecutable (φ s) = isExecutable s := by
  funext path
  rw [isExecutable, φ.kind?, isExecutable]

theorem complainLine_reword (message : String) (s : σ) :
    complainLine message (φ s) = φ (complainLine message s) :=
  φ.complain _ s

end Host

namespace Target

theorem makeParent_reword (path : String) (s : σ) :
    makeParent path (φ s) = (makeParent path s).map (Except.mapError f) φ := by
  rw [makeParent, makeParent]
  split
  · rfl
  · exact φ.makeDirs _ s

theorem openIn_reword (cwd : String) (t : Target) (s : σ) :
    t.openIn cwd (φ s) = (t.openIn cwd s).map (Except.mapError (ProcessError.reword f)) φ := by
  -- by `unfold`, since the equations of `openIn` look into its path and take long to make
  unfold openIn
  simp only [makeParent_reword]
  rcases makeParent (Path.join cwd t.path) s with ⟨_ | _, s⟩
  · rfl
  · simp only [Prod.map, mapError_ok, φ.create]
    rcases Host.create (Path.join cwd t.path) t.mode s with ⟨_ | _, s⟩ <;> rfl

theorem openIn?_reword (cwd : String) (t : Option Target) (s : σ) :
    openIn? cwd t (φ s) = (openIn? cwd t s).map (Except.mapError (ProcessError.reword f)) φ := by
  cases t with
  | none => rfl
  | some t =>
    unfold openIn?
    simp only [openIn_reword]
    rcases t.openIn cwd s with ⟨_ | _, s⟩ <;> rfl

theorem openBoth_reword (cwd : String) (r : Redirection) (s : σ) :
    openBoth cwd r (φ s) = (openBoth cwd r s).map (Except.mapError (ProcessError.reword f)) φ := by
  simp only [openBoth, openIn?_reword]
  rcases openIn? cwd r.stdout s with ⟨_ | _, s⟩
  · rfl
  · simp only [Prod.map, mapError_ok, openIn?_reword]
    rcases openIn? cwd r.stderr s with ⟨_ | _, s⟩ <;> rfl

end Target

theorem report_reword (cwd : String) (r : Redirection) (message : String) (s : σ) :
    report cwd r message (φ s) = φ (report cwd r message s) := by
  simp only [report, Target.openIn?_reword]
  rcases Target.openIn? cwd r.stderr s with ⟨_ | _ | h, s⟩
  · exact Host.complainLine_reword φ message s
  · exact Host.complainLine_reword φ message s
  · simp only [Prod.map, mapError_ok, φ.write]
    rcases Host.write h (Bytes.ofLine message) s with ⟨_ | _, s⟩
    · exact Host.complainLine_reword φ message s
    · rfl

namespace Command

theorem program?_reword (st : State) (s : σ) (name : String) :
    program? st (φ s) name = program? st s name := by
  simp only [program?, SearchPath.find?, Host.isExecutable_reword]

theorem resolve_reword (st : State) (s : σ) (name : String) :
    resolve st (φ s) name = resolve st s name := by
  simp only [resolve, program?_reword]

end Command

namespace History

theorem entriesIn_reword (s : σ) (path : String) :
    entriesIn (φ s) path = (entriesIn s path).mapError (FileError.reword f) := by
  rw [entriesIn, entriesIn, φ.read]
  cases Host.read s path with
  | error e => rfl
  | ok b =>
    simp only [mapError_ok]
    cases ofBytes? b with
    | none => simp only [mapError_error, FileError.reword, f.notText_eq]
    | some entries => rfl

theorem readFrom_reword (h : History) (s : σ) (path : String) :
    h.readFrom (φ s) path = (h.readFrom s path).map (Except.mapError (FileError.reword f)) id := by
  rw [readFrom, readFrom, entriesIn_reword]
  cases entriesIn s path <;> rfl

theorem writeEntries_reword (path : String) (mode : WriteMode) (entries : List String) (s : σ) :
    writeEntries path mode entries (φ s) =
      (writeEntries path mode entries s).map (Except.mapError (FileError.reword f)) φ := by
  simp only [writeEntries, φ.create]
  rcases Host.create path mode s with ⟨_ | h, s⟩
  · rfl
  · simp only [Prod.map, mapError_ok, φ.write]
    rcases Host.write h (toBytes entries) s with ⟨_ | _, s⟩ <;> rfl

theorem writeTo_reword (h : History) (path : String) (s : σ) :
    h.writeTo path (φ s) =
      (h.writeTo path s).map (Except.mapError (FileError.reword f)) (Prod.map id φ) := by
  simp only [writeTo, writeEntries_reword]
  rcases writeEntries path .truncate h.entries s with ⟨_ | _, s⟩ <;> rfl

theorem appendTo_reword (h : History) (path : String) (s : σ) :
    h.appendTo path (φ s) =
      (h.appendTo path s).map (Except.mapError (FileError.reword f)) (Prod.map id φ) := by
  simp only [appendTo, writeEntries_reword]
  rcases writeEntries path .append h.unsaved s with ⟨_ | _, s⟩ <;> rfl

end History

namespace Builtin

theorem runCd_reword (st : State) (s : σ) (args : List String) :
    runCd st (φ s) args = runCd st s args := by
  match args with
  | [] | [_] => simp only [runCd, goTo, Host.isDirectory_reword, Host.pathExists_reword]
  | _ :: _ :: _ => rfl

theorem runType_reword (st : State) (s : σ) (names : List String) :
    runType st (φ s) names = runType st s names := by
  have hdescribe : describe st (φ s) = describe st s := by
    funext name
    rw [describe, Command.program?_reword, describe]
  rw [runType.eq_def, hdescribe, runType.eq_def]

theorem apply_reword (a : FileAction) (h : History) (path : String) (s : σ) :
    a.apply h path (φ s) =
      (a.apply h path s).map (Except.mapError (FileError.reword f)) (Prod.map id φ) := by
  cases a with
  | read =>
    rw [FileAction.apply, h.readFrom_reword, FileAction.apply]
    rcases h.readFrom s path with ⟨_ | _, h'⟩ <;> rfl
  | write => exact h.writeTo_reword φ path s
  | append => exact h.appendTo_reword φ path s

/-- Of a history file that gives trouble only the reason is told. -/
theorem runFileAction_reword (a : FileAction) (st : State) (path : String) (s : σ) :
    runFileAction a st path (φ s) = (runFileAction a st path s).map id (Prod.map id φ) := by
  simp only [runFileAction]
  split
  · rfl
  next file _ =>
    simp only [apply_reword]
    rcases a.apply st.history file s with ⟨e | _, h, s⟩
    · simp only [Prod.map, mapError_error, FileError.reword, f.reason_eq, id]
    · rfl

theorem runHistory_reword (st : State) (args : List String) (s : σ) :
    runHistory st args (φ s) = (runHistory st args s).map id (Prod.map id φ) := by
  unfold runHistory
  split
  · rfl
  · split
    · rfl
    · exact runFileAction_reword φ _ st _ s
    · split
      · rfl
      · split <;> rfl

/-- A builtin gives the same back, however errors are worded. -/
theorem run_reword (b : Builtin) (args : List String) (st : State) (s : σ) :
    b.run args st (φ s) = (b.run args st s).map id (Prod.map id φ) := by
  cases b with
  | cd =>
    simp only [run, runCd_reword]
    cases runCd st s args <;> rfl
  | history => exact runHistory_reword φ st args s
  | type => simp only [run, runType_reword, Prod.map, id]
  | _ => rfl

end Builtin

theorem writeLine_reword (file : Option Handle) (text : String) (s : σ) :
    writeLine file text (φ s) = (writeLine file text s).map (Except.mapError f) φ := by
  cases file with
  | none => exact φ.print _ s
  | some h => exact φ.write h _ s

theorem writeError_reword (file : Option Handle) (message : String) (s : σ) :
    writeError file message (φ s) = (writeError file message s).map (Except.mapError f) φ := by
  cases file with
  | none => simp only [writeError, Host.complainLine_reword, Prod.map, mapError_ok]
  | some h => exact φ.write h _ s

theorem deliver_reword (out err : Option Handle) (result : Except CommandError Outcome) (s : σ) :
    deliver out err result (φ s) = (deliver out err result s).map (Except.mapError f) φ := by
  rcases result with e | text | _ | _
  · exact writeError_reword φ err e.message s
  · exact writeLine_reword φ out text s
  · rfl
  · rfl

/-- What a builtin with targets gives back cannot be written: why not, the state that the builtin
has made, and the machine that the attempt leaves. -/
def Builtin.Unwritten (b : Builtin) (inv : Invocation) (st : State) (s : σ) (cause : OsError)
    (st' : State) (s' : σ) : Prop :=
  ∃ out err s₁ result s₂, Target.openBoth st.cwd inv.redirection s = (.ok (out, err), s₁) ∧
    b.run inv.args st s₁ = (result, st', s₂) ∧ deliver out err result s₂ = (.error cause, s')

/-- If it cannot be written what a builtin gives back, the full text of the error is shown. -/
theorem runBuiltin_of_unwritten {b : Builtin} {inv : Invocation} {st st' : State} {s s' : σ}
    {cause : OsError} (h : b.Unwritten inv st s cause st' s') :
    runBuiltin b inv st s =
      (.proceed, st', Host.complainLine s!"{inv.name}: write error: {cause.text}" s') := by
  obtain ⟨out, err, s₁, result, s₂, hopen, hrun, hdeliver⟩ := h
  rcases result with e | text | _ | n
  · simp only [runBuiltin, hopen, hrun, hdeliver, complainUnwritten]
  · simp only [runBuiltin, hopen, hrun, hdeliver, complainUnwritten]
  · cases (Prod.mk.inj hdeliver).1
  · cases (Prod.mk.inj hdeliver).1

/-- What cannot be written on a machine cannot be written on the other, for the same cause in other
words. -/
theorem Builtin.Unwritten.reword {b : Builtin} {inv : Invocation} {st st' : State} {s s' : σ}
    {cause : OsError} (h : b.Unwritten inv st s cause st' s') :
    b.Unwritten inv st (φ s) (f cause) st' (φ s') := by
  obtain ⟨out, err, s₁, result, s₂, hopen, hrun, hdeliver⟩ := h
  refine ⟨out, err, φ s₁, result, φ s₂, ?_, ?_, ?_⟩
  · rw [Target.openBoth_reword, hopen]
    rfl
  · rw [Builtin.run_reword, hrun]
    rfl
  · rw [deliver_reword, hdeliver]
    rfl

/-- A builtin with targets does the same, however errors are worded, if the text of an error is kept
that does not let it be written what the builtin gives back. -/
theorem runBuiltin_reword (b : Builtin) (inv : Invocation) (st : State) (s : σ)
    (h : ∀ cause st' s', b.Unwritten inv st s cause st' s' → (f cause).text = cause.text) :
    runBuiltin b inv st (φ s) = (runBuiltin b inv st s).map id (Prod.map id φ) := by
  by_cases hun : ∃ cause st' s', b.Unwritten inv st s cause st' s'
  · obtain ⟨cause, st', s', hun⟩ := hun
    rw [runBuiltin_of_unwritten hun, runBuiltin_of_unwritten (hun.reword φ), h _ _ _ hun,
      Host.complainLine_reword]
    rfl
  · simp only [runBuiltin, Target.openBoth_reword]
    rcases hopen : Target.openBoth st.cwd inv.redirection s with ⟨e | ⟨out, err⟩, s₁⟩
    · simp only [Prod.map, mapError_error, ProcessError.message_reword,
        Host.complainLine_reword, id]
    · simp only [Prod.map, mapError_ok, Builtin.run_reword]
      rcases hrun : b.run inv.args st s₁ with ⟨result, st', s₂⟩
      have hwritten : (deliver out err result s₂).1 = .ok () := by
        rcases hd : deliver out err result s₂ with ⟨cause | _, s'⟩
        · exact absurd ⟨cause, st', s', out, err, s₁, result, s₂, hopen, hrun, hd⟩ hun
        · rfl
      rcases result with _ | _ | _ | _ <;>
        simp only [deliver_reword, complainUnwritten, hwritten, Prod.map, mapError_ok, id]

theorem awaitProgram_reword (child : Child) (s : σ) :
    awaitProgram child (φ s) =
      (awaitProgram child s).map (Except.mapError (ProcessError.reword f)) φ := by
  simp only [awaitProgram, φ.wait]
  rcases Host.wait child s with ⟨_ | _, s⟩ <;> rfl

/-- A program does the same, however errors are worded. -/
theorem runProgram_reword (program : String) (inv : Invocation) (st : State) (s : σ) :
    runProgram program inv st (φ s) =
      (runProgram program inv st s).map (Except.mapError (ProcessError.reword f)) φ := by
  simp only [runProgram, Target.openBoth_reword]
  rcases Target.openBoth st.cwd inv.redirection s with ⟨_ | ⟨out, err⟩, s⟩
  · rfl
  · simp only [Prod.map, mapError_ok, φ.start]
    generalize Host.start _ s = started
    rcases started with ⟨_ | child, s⟩
    · rfl
    · exact awaitProgram_reword φ child s

/-- A command does the same, however errors are worded, if the text of an error is kept that does
not let it be written what its builtin gives back. -/
theorem Invocation.run_reword (inv : Invocation) (st : State) (s : σ)
    (h : ∀ b cause st' s', Command.resolve st s inv.name = some (.builtin b) →
      b.Unwritten inv st s cause st' s' → (f cause).text = cause.text) :
    inv.run st (φ s) = (inv.run st s).map id (Prod.map id φ) := by
  simp only [run, Command.resolve_reword]
  rcases hc : Command.resolve st s inv.name with _ | b | program
  · simp only [report_reword, Prod.map, id]
  · exact runBuiltin_reword φ b inv st s fun cause st' s' => h b cause st' s' hc
  · simp only [runProgram_reword]
    rcases runProgram program inv st s with ⟨_ | _, s⟩ <;>
      simp only [report_reword, Prod.map, mapError_error, mapError_ok,
        ProcessError.message_reword, id]

namespace Pipeline

theorem plan_reword (st : State) (s : σ) : plan st (φ s) = plan st s := by
  funext invs
  simp only [plan, Command.resolve_reword]

theorem discard_reword (input : Input) (s : σ) : discard input (φ s) = φ (discard input s) := by
  cases input with
  | pipe p => exact φ.hangUp p s
  | _ => rfl

theorem openStdout_reword (st : State) (inv : Invocation) (last : Bool) (s : σ) :
    openStdout st inv last (φ s) =
      (openStdout st inv last s).map (Except.mapError (ProcessError.reword f)) φ := by
  cases last with
  | false => rfl
  | true =>
    simp only [openStdout, Target.openIn?_reword, if_true]
    rcases Target.openIn? st.cwd inv.redirection.stdout s with ⟨_ | _, s⟩ <;> rfl

theorem openOutputs_reword (st : State) (inv : Invocation) (last : Bool) (s : σ) :
    openOutputs st inv last (φ s) =
      (openOutputs st inv last s).map (Except.mapError (ProcessError.reword f)) φ := by
  simp only [openOutputs, openStdout_reword]
  rcases openStdout st inv last s with ⟨_ | _, s⟩
  · rfl
  · simp only [Prod.map, mapError_ok, Target.openIn?_reword]
    rcases Target.openIn? st.cwd inv.redirection.stderr s with ⟨_ | _, s⟩ <;> rfl

theorem startStage_reword (st : State) (input : Input) (program : String) (inv : Invocation)
    (last : Bool) (s : σ) :
    startStage st input program inv last (φ s) =
      (startStage st input program inv last s).map (Except.mapError (ProcessError.reword f)) φ := by
  simp only [startStage, openOutputs_reword]
  rcases openOutputs st inv last s with ⟨_ | ⟨out, err⟩, s⟩
  · simp only [Prod.map, mapError_error, discard_reword]
  · simp only [Prod.map, mapError_ok, φ.start]
    generalize Host.start _ s = started
    rcases started with ⟨_ | child, s⟩ <;> rfl

theorem feedBuiltin_reword (b : Builtin) (inv : Invocation) (st : State) (s : σ) :
    feedBuiltin b inv st (φ s) = (feedBuiltin b inv st s).map id (Prod.map id φ) := by
  simp only [feedBuiltin, Builtin.run_reword]
  rcases b.run inv.args st s with ⟨_ | _ | _ | _, st, s⟩ <;>
    simp only [report_reword, Prod.map, id]

theorem awaitAll_reword (children : List Child) (s : σ) :
    awaitAll children (φ s) = φ (awaitAll children s) := by
  rw [awaitAll, awaitAll]
  induction children generalizing s with
  | nil => rfl
  | cons child children ih => rw [List.foldl_cons, φ.wait, Prod.map_snd, ih, List.foldl_cons]

theorem handOn_reword (child : Child) (rest : List PlannedStage) (s : σ) :
    handOn child rest (φ s) = (handOn child rest s).map id φ := by
  unfold handOn
  split <;> simp only [φ.hangUp, Prod.map, id]

end Pipeline
end LineShell
