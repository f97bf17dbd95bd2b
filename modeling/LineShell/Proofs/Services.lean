import LineShell.Proofs.Rewording

/-!
# The shell knows its machine by its services

Whatever the shell does, it does through the services of its machine. So a map between machines
under which all services agree (`Host.Hom`) carries every run of the shell over: run before the map
or after it, the shell gives the same answers and ends in machines that belong together. There is
one lemma for each function, from the opening of a file to `Line.run_map`. Such a map is one that
rewords nothing (`Host.Hom.rewording`), so most of them are cases of what holds of rewordings.
-/

namespace LineShell

/-- A map between machines under which all services agree. -/
structure Host.Hom (σ τ : Type) [Host σ] [Host τ] where
  /-- The map. -/
  toFun : σ → τ
  /-- Paths name the same. -/
  kind? (s : σ) (path : String) : Host.kind? (toFun s) path = Host.kind? s path
  /-- Directories hold the same names. -/
  entries? (s : σ) (path : String) : Host.entries? (toFun s) path = Host.entries? s path
  /-- Files hold the same. -/
  read (s : σ) (path : String) : Host.read (toFun s) path = Host.read s path
  /-- Making directories agrees. -/
  makeDirs (path : String) (s : σ) :
    Host.makeDirs path (toFun s) = (Host.makeDirs path s).map id toFun
  /-- Opening files agrees. -/
  create (path : String) (mode : WriteMode) (s : σ) :
    Host.create path mode (toFun s) = (Host.create path mode s).map id toFun
  /-- Writing to files agrees. -/
  write (h : Handle) (b : Bytes) (s : σ) :
    Host.write h b (toFun s) = (Host.write h b s).map id toFun
  /-- Writing to standard output agrees. -/
  print (b : Bytes) (s : σ) : Host.print b (toFun s) = (Host.print b s).map id toFun
  /-- Writing to standard error agrees. -/
  complain (b : Bytes) (s : σ) : Host.complain b (toFun s) = toFun (Host.complain b s)
  /-- Starting programs agrees. -/
  start (l : Launch) (s : σ) : Host.start l (toFun s) = (Host.start l s).map id toFun
  /-- Closing pipes agrees. -/
  hangUp (p : Pipe) (s : σ) : Host.hangUp p (toFun s) = toFun (Host.hangUp p s)
  /-- Waiting for programs agrees. -/
  wait (c : Child) (s : σ) : Host.wait c (toFun s) = (Host.wait c s).map id toFun
  /-- Reading standard input agrees. -/
  nextLine (s : σ) : Host.nextLine (toFun s) = (Host.nextLine s).map id toFun

variable {σ τ : Type} [Host σ] [Host τ]

instance : CoeFun (Host.Hom σ τ) fun _ => σ → τ := ⟨Host.Hom.toFun⟩

/-- Nothing is reworded. -/
def OsError.Rewording.refl : OsError.Rewording := ⟨id, fun _ => rfl, rfl⟩

theorem mapError_id {ε α : Type} : (Except.mapError id : Except ε α → Except ε α) = id := by
  funext x
  cases x <;> rfl

theorem ProcessError.reword_refl : reword .refl = id := by
  funext e
  cases e <;> rfl

/-- A map under which all services agree rewords nothing. -/
def Host.Hom.rewording (φ : Host.Hom σ τ) : Host.Rewording .refl σ τ where
  toFun := φ
  kind? := φ.kind?
  entries? := φ.entries?
  read s path := (φ.read s path).trans (congrFun mapError_id.symm _)
  makeDirs path s := (φ.makeDirs path s).trans (by rw [OsError.Rewording.refl, mapError_id])
  create path mode s := (φ.create path mode s).trans (by rw [OsError.Rewording.refl, mapError_id])
  write h b s := (φ.write h b s).trans (by rw [OsError.Rewording.refl, mapError_id])
  print b s := (φ.print b s).trans (by rw [OsError.Rewording.refl, mapError_id])
  complain := φ.complain
  start l s := (φ.start l s).trans (by rw [OsError.Rewording.refl, mapError_id])
  hangUp := φ.hangUp
  wait c s := (φ.wait c s).trans (by rw [OsError.Rewording.refl, mapError_id])

variable (φ : Host.Hom σ τ)

theorem Target.openIn_map (cwd : String) (t : Target) (s : σ) :
    t.openIn cwd (φ s) = (t.openIn cwd s).map id φ := by
  rw [← mapError_id, ← ProcessError.reword_refl]
  exact t.openIn_reword φ.rewording cwd s

theorem Target.openBoth_map (cwd : String) (r : Redirection) (s : σ) :
    openBoth cwd r (φ s) = (openBoth cwd r s).map id φ := by
  rw [← mapError_id, ← ProcessError.reword_refl]
  exact openBoth_reword φ.rewording cwd r s

theorem Command.resolve_map (st : State) (s : σ) (name : String) :
    resolve st (φ s) name = resolve st s name :=
  resolve_reword φ.rewording st s name

theorem History.appendTo_map (h : History) (path : String) (s : σ) :
    h.appendTo path (φ s) = (h.appendTo path s).map id (Prod.map id φ) := by
  rw [← mapError_id]
  exact h.appendTo_reword φ.rewording path s

/-- A builtin gives the same back on machines that belong together. -/
theorem Builtin.run_map (b : Builtin) (args : List String) (st : State) (s : σ) :
    b.run args st (φ s) = (b.run args st s).map id (Prod.map id φ) :=
  b.run_reword φ.rewording args st s

/-- A builtin with targets does the same on machines that belong together. -/
theorem runBuiltin_map (b : Builtin) (inv : Invocation) (st : State) (s : σ) :
    runBuiltin b inv st (φ s) = (runBuiltin b inv st s).map id (Prod.map id φ) :=
  runBuiltin_reword φ.rewording b inv st s fun _ _ _ _ => rfl

/-- A command does the same on machines that belong together. -/
theorem Invocation.run_map (inv : Invocation) (st : State) (s : σ) :
    inv.run st (φ s) = (inv.run st s).map id (Prod.map id φ) :=
  inv.run_reword φ.rewording st s fun _ _ _ _ _ _ => rfl

namespace Pipeline

theorem plan_map (st : State) (s : σ) : plan st (φ s) = plan st s :=
  plan_reword φ.rewording st s

theorem startStage_map (st : State) (input : Input) (program : String) (inv : Invocation)
    (last : Bool) (s : σ) :
    startStage st input program inv last (φ s) =
      (startStage st input program inv last s).map id φ := by
  rw [← mapError_id, ← ProcessError.reword_refl]
  exact startStage_reword φ.rewording st input program inv last s

theorem feedBuiltin_map (b : Builtin) (inv : Invocation) (st : State) (s : σ) :
    feedBuiltin b inv st (φ s) = (feedBuiltin b inv st s).map id (Prod.map id φ) :=
  feedBuiltin_reword φ.rewording b inv st s

theorem handOn_map (child : Child) (rest : List PlannedStage) (s : σ) :
    handOn child rest (φ s) = (handOn child rest s).map id φ :=
  handOn_reword φ.rewording child rest s

theorem startAll_map (st : State) (input : Input) (stages : List PlannedStage) (s : σ) :
    startAll st input stages (φ s) = (startAll st input stages s).map id (Prod.map id φ) := by
  induction stages generalizing st input s with
  | nil => rfl
  | cons stage rest ih =>
    rcases stage with ⟨inv, b | program⟩
    · simp only [startAll, runBuiltin_map, feedBuiltin_map]
      split
      · rfl
      · exact ih _ _ _
    · simp only [startAll, startStage_map]
      rcases startStage st input program inv rest.isEmpty s with ⟨_ | child, s⟩
      · rfl
      · simp only [handOn_map, ih, Prod.map, id]

theorem awaitAll_map (children : List Child) (s : σ) :
    awaitAll children (φ s) = φ (awaitAll children s) :=
  awaitAll_reword φ.rewording children s

/-- A pipeline does the same on machines that belong together. -/
theorem execute_map (st : State) (stages : List PlannedStage) (s : σ) :
    execute st stages (φ s) = (execute st stages s).map id φ := by
  simp only [execute, startAll_map, awaitAll_map, Prod.map, id]

theorem run_map (st : State) (stages : List String) (s : σ) :
    run st stages (φ s) = (run st stages s).map id φ := by
  simp only [run, plan_map]
  cases (parse stages).bind (plan st s) with
  | error e => rfl
  | ok stages =>
    simp only [execute_map]
    rcases execute st stages s with ⟨_ | _, s⟩ <;> rfl

end Pipeline

/-- **A line does the same on machines that belong together.** -/
theorem Line.run_map (line : String) (st : State) (s : σ) :
    run line st (φ s) = (run line st s).map id (Prod.map id φ) := by
  rw [run, run]
  split
  · split
    · rfl
    · exact Invocation.run_map φ _ st s
  · simp only [Pipeline.run_map]
    rcases Pipeline.run st (Stage.ofLine line) s with ⟨_ | _, s⟩ <;>
      simp only [Host.complainLine, φ.complain, Prod.map, id]

end LineShell
