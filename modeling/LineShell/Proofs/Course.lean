import LineShell.Proofs.Changes
import LineShell.Proofs.Operations
import LineShell.Session

/-!
# The course of a session

A session runs the lines of its startup file and then takes turns: it reads a line of input and, if
the line is not blank, records it and runs it. `course` is all of this with the lines that were run
and the turns that were taken, up to the moment at which the session ends. What is left then is to
save the history, unless a line was not text (`run_eq`).

Two things are carried along a course. If no line is a lone `history`, the history at the end is the
one that the session started from with the lines that were entered (`history_course`), and these are
the entries that have not been saved (`unsaved_course`). And what is kept by reading a line, by
complaining and by each line that is run holds of the machine at the end (`keeps_course`).
-/

namespace LineShell

variable {σ : Type} [Host σ]

/-- Only a lone `history` changes the history. -/
theorem Line.history_run {line : String} (h : loneWord? line ≠ some "history") (st : State)
    (s : σ) : (run line st s).2.1.history = st.history := by
  rcases run_effect line st s with hst | ⟨b, hword, hb⟩
  · rw [hst]
  · refine hb.history_eq ?_
    rintro rfl
    exact h hword

namespace Session

/-- A line that is run, with the state of the shell and the machine before it. -/
structure LineRun (σ : Type) where
  /-- The line. -/
  line : String
  /-- The state of the shell. -/
  st : State
  /-- The machine. -/
  s : σ

namespace LineRun

/-- What the shell does after the line. -/
def flow (r : LineRun σ) : Flow :=
  (Line.run r.line r.st r.s).1

/-- The state of the shell after the line. -/
def state (r : LineRun σ) : State :=
  (Line.run r.line r.st r.s).2.1

/-- The machine after the line. -/
def after (r : LineRun σ) : σ :=
  (Line.run r.line r.st r.s).2.2

end LineRun

/-- A line of input that was read, with the state of the shell and the machine after reading. -/
structure Turn (σ : Type) where
  /-- The line with its ending. -/
  bytes : Bytes
  /-- The state of the shell. -/
  st : State
  /-- The machine. -/
  s : σ

namespace Turn

/-- The line without its ending, if it is text. -/
def line? (t : Turn σ) : Option String :=
  Bytes.text? t.bytes.chomp

/-- What is entered in the history: the line, unless it is blank. -/
def entered? (t : Turn σ) : Option String :=
  t.line?.filter fun l => !Text.blank l

/-- The running of the line, which has been recorded then; a blank line is not run. -/
def run? (t : Turn σ) : Option (LineRun σ) :=
  t.entered?.map fun line => ⟨line, { t.st with history := t.st.history.add line }, t.s⟩

/-- What becomes of the shell and the machine. -/
def outcome (t : Turn σ) : Flow × State × σ :=
  match t.run? with
  | none => (.proceed, t.st, t.s)
  | some r => Line.run r.line r.st r.s

/-- Whether the session ends with this line: it is not text, or it ends the shell. -/
def Ends (t : Turn σ) : Prop :=
  t.line? = none ∨ ∃ n, t.outcome.1 = .exit n

omit [Host σ] in
theorem entered?_of_line? {t : Turn σ} {line : String} (h : t.line? = some line) :
    t.entered? = if Text.blank line then none else some line := by
  rw [entered?, h]
  cases hb : Text.blank line <;> simp [Option.filter, hb]

omit [Host σ] in
theorem blank_of_entered? {t : Turn σ} {line : String} (h : t.entered? = some line) :
    Text.blank line = false := by
  simpa using (Option.filter_eq_some_iff.1 h).2

/-- A turn is what the session does with a line of input. -/
theorem runInput_eq {t : Turn σ} {line : String} (h : t.line? = some line) :
    runInput line t.st t.s = t.outcome := by
  rw [runInput, outcome, run?, entered?_of_line? h]
  split_ifs <;> rfl

/-- A turn enters its line in the history and does nothing else to it. -/
theorem history_outcome {t : Turn σ}
    (h : ∀ r, t.run? = some r → Line.loneWord? r.line ≠ some "history") :
    t.outcome.2.1.history = t.st.history.extend t.entered?.toList := by
  cases he : t.entered? with
  | none => simp [outcome, run?, he]
  | some line =>
    have hrun : t.run? = some ⟨line, { t.st with history := t.st.history.add line }, t.s⟩ := by
      rw [run?, he, Option.map_some]
    rw [outcome, hrun]
    refine (Line.history_run (h _ hrun) _ _).trans ?_
    simp [History.add, blank_of_entered? he, History.extend]

/-- What the running of its line keeps, a turn keeps. -/
theorem keeps_outcome {P : σ → Prop} {t : Turn σ} (h : ∀ r, t.run? = some r → P r.s → P r.after)
    (hp : P t.s) : P t.outcome.2.2 := by
  rw [outcome]
  split
  · exact hp
  next r hr =>
    refine h r hr ?_
    obtain ⟨line, -, rfl⟩ := Option.map_eq_some_iff.1 hr
    exact hp

end Turn

/-- The runs of startup lines, up to one that ends the shell. -/
def startupRuns : List String → State → σ → List (LineRun σ)
  | [], _, _ => []
  | line :: rest, st, s =>
    ⟨line, st, s⟩ ::
      match Line.run line st s with
      | (.exit _, _, _) => []
      | (.proceed, st, s) => startupRuns rest st s

/-- The turns of a session from a state on, up to one that ends it; the number bounds them. -/
def turns : Nat → State → σ → List (Turn σ)
  | 0, _, _ => []
  | limit + 1, st, s =>
    match Host.nextLine s with
    | (none, _) => []
    | (some bytes, s) =>
      ⟨bytes, st, s⟩ ::
        match Bytes.text? bytes.chomp with
        | none => []
        | some line =>
          match runInput line st s with
          | (.exit _, _, _) => []
          | (.proceed, st, s) => turns limit st s

/-- What each startup line keeps holds of the shell and the machine after all of them. -/
theorem keeps_runLines {P : State → σ → Prop} {lines : List String} {st : State} {s : σ}
    (h : ∀ r ∈ startupRuns lines st s, P r.st r.s → P r.state r.after) (hp : P st s) :
    P (runLines lines st s).2.1 (runLines lines st s).2.2 := by
  induction lines generalizing st s with
  | nil => exact hp
  | cons line rest ih =>
    rw [startupRuns, List.forall_mem_cons] at h
    have hline : P (Line.run line st s).2.1 (Line.run line st s).2.2 := h.1 hp
    rcases hrun : Line.run line st s with ⟨_ | n, st', s'⟩
    · rw [hrun] at h hline
      simp only [runLines, hrun]
      exact ih h.2 hline
    · rw [hrun] at hline
      simpa only [runLines, hrun] using hline

/-- How a session goes on from a state: the turns that it takes, and its end. -/
inductive Taken : Nat → State → σ → List (Turn σ) → Except Abort Nat × State × σ → Prop where
  /-- As many lines as may be have been read. -/
  | limit (st : State) (s : σ) : Taken 0 st s [] (.ok 0, st, s)
  /-- There are no more lines. -/
  | atEnd {limit : Nat} {st : State} {s s' : σ} (hnext : Host.nextLine s = (none, s')) :
    Taken (limit + 1) st s [] (.ok 0, st, s')
  /-- A line is not text. -/
  | unreadable {limit : Nat} {s : σ} {t : Turn σ} (hnext : Host.nextLine s = (some t.bytes, t.s))
      (hline : t.line? = none) :
    Taken (limit + 1) t.st s [t] (.error .unreadable, t.st, t.s)
  /-- A line ends the shell. -/
  | exit {limit n : Nat} {st' : State} {s s' : σ} {t : Turn σ}
      (hnext : Host.nextLine s = (some t.bytes, t.s)) (hline : t.line?.isSome)
      (hout : t.outcome = (.exit n, st', s')) :
    Taken (limit + 1) t.st s [t] (.ok n, st', s')
  /-- A line is followed by others. -/
  | proceed {limit : Nat} {st' : State} {s s' : σ} {t : Turn σ} {ts : List (Turn σ)}
      {r : Except Abort Nat × State × σ}
      (hnext : Host.nextLine s = (some t.bytes, t.s)) (hline : t.line?.isSome)
      (hout : t.outcome = (.proceed, st', s')) (hrest : Taken limit st' s' ts r) :
    Taken (limit + 1) t.st s (t :: ts) r

/-- **A session takes its turns.** -/
theorem taken (limit : Nat) (st : State) (s : σ) :
    Taken limit st s (turns limit st s) (readLines limit st s) := by
  induction limit generalizing st s with
  | zero => exact .limit st s
  | succ limit ih =>
    rw [turns, readLines]
    rcases hnext : Host.nextLine s with ⟨_ | bytes, s₁⟩
    · exact .atEnd hnext
    · dsimp only
      let t : Turn σ := ⟨bytes, st, s₁⟩
      cases hline : Bytes.text? bytes.chomp with
      | none => exact .unreadable (t := t) hnext hline
      | some line =>
        dsimp only
        have hl : t.line? = some line := hline
        have hsome : t.line?.isSome := Option.isSome_of_eq_some hl
        have hout : runInput line st s₁ = t.outcome := Turn.runInput_eq hl
        rcases hrun : runInput line st s₁ with ⟨_ | n, st', s'⟩
        · exact .proceed (t := t) hnext hsome (hout.symm.trans hrun) (ih st' s')
        · exact .exit (t := t) hnext hsome (hout.symm.trans hrun)

omit [Host σ] in
theorem filterMap_entered?_cons (t : Turn σ) (ts : List (Turn σ)) :
    (t :: ts).filterMap Turn.entered? = t.entered?.toList ++ ts.filterMap Turn.entered? := by
  simp only [List.filterMap_eq_flatMap_toList, List.flatMap_cons]

namespace Taken

variable {limit : Nat} {st : State} {s : σ} {ts : List (Turn σ)} {r : Except Abort Nat × State × σ}

/-- The lines that are entered come after the history, and nothing else happens to it. -/
theorem history_eq (h : Taken limit st s ts r)
    (hruns : ∀ t ∈ ts, ∀ run, t.run? = some run → Line.loneWord? run.line ≠ some "history") :
    r.2.1.history = st.history.extend (ts.filterMap Turn.entered?) := by
  induction h with
  | limit | atEnd => simp
  | unreadable _ hline => simp [Turn.entered?, hline]
  | @exit _ _ _ _ _ t _ _ hout =>
    have hturn := t.history_outcome (hruns t List.mem_cons_self)
    rw [hout] at hturn
    rwa [filterMap_entered?_cons, List.filterMap_nil, List.append_nil]
  | @proceed _ _ _ _ t ts _ _ _ hout _ ih =>
    rw [List.forall_mem_cons] at hruns
    have hturn := t.history_outcome hruns.1
    rw [hout] at hturn
    rw [ih hruns.2, hturn, History.extend_extend, filterMap_entered?_cons]

/-- What reading a line keeps, and each line that is run, holds of the machine at the end. -/
theorem keeps {P : σ → Prop} (h : Taken limit st s ts r)
    (hnext : ∀ s, P s → P (Host.nextLine s).2)
    (hruns : ∀ t ∈ ts, ∀ run, t.run? = some run → P run.s → P run.after) (hp : P s) :
    P r.2.2 := by
  have hread {s s' : σ} {line : Option Bytes} (hs : Host.nextLine s = (line, s')) (hp : P s) :
      P s' := by
    have := hnext s hp
    rwa [hs] at this
  induction h with
  | limit => exact hp
  | atEnd hs | unreadable hs => exact hread hs hp
  | @exit _ _ _ _ _ t hs _ hout =>
    have hturn := t.keeps_outcome (hruns t List.mem_cons_self) (hread hs hp)
    rwa [hout] at hturn
  | @proceed _ _ _ _ t ts _ hs _ hout _ ih =>
    rw [List.forall_mem_cons] at hruns
    have hturn := t.keeps_outcome hruns.1 (hread hs hp)
    rw [hout] at hturn
    exact ih hruns.2 hturn

/-- A session ends against its will exactly if it reads a line that is not text. -/
theorem error_iff (h : Taken limit st s ts r) :
    (∃ e, r.1 = .error e) ↔ ∃ t ∈ ts, t.line? = none := by
  induction h with
  | limit | atEnd => simp
  | unreadable _ hline => simp [hline]
  | exit _ hline => simp [Option.isSome_iff_ne_none.1 hline]
  | proceed _ hline _ _ ih => simp [ih, Option.isSome_iff_ne_none.1 hline]

end Taken

/-- What happens in a session before its history is saved. -/
structure Course (σ : Type) where
  /-- The runs of the startup lines. -/
  startup : List (LineRun σ)
  /-- The turns, one for each line of input that is read. -/
  turns : List (Turn σ)
  /-- The status of the session, or what ends it. -/
  result : Except Abort Nat
  /-- The state of the shell at the end. -/
  st : State
  /-- The machine at the end. -/
  s : σ

namespace Course

/-- All lines that are run. -/
def executed (c : Course σ) : List (LineRun σ) :=
  c.startup ++ c.turns.filterMap Turn.run?

/-- The lines of input that are not blank. -/
def entered (c : Course σ) : List String :=
  c.turns.filterMap Turn.entered?

end Course

/-- The files that a session starts from. -/
def settings (o : Options) (env : Environment) : Startup :=
  Startup.ofSettings env.home o.config env.historyFile

/-- The state of the shell when a session has loaded its history, and the machine. -/
def seeded (o : Options) (env : Environment) (s : σ) : State × σ :=
  loadHistory o (settings o env)
    { cwd := env.cwd, home := env.home, searchPath := .ofValue env.path } s

/-- The runs of the lines of a startup file. A file that cannot be read has none. -/
def runsOfStartup (cfg : Startup) (st : State) (s : σ) : List (LineRun σ) :=
  match cfg.commands s with
  | .error _ => []
  | .ok lines => startupRuns lines st s

/-- The course of a session. If a startup line ends the shell no line of input is read. -/
def course (limit : Nat) (o : Options) (env : Environment) (s : σ) : Course σ :=
  let (st, s) := seeded o env s
  let startup := runsOfStartup (settings o env) st s
  match runStartup o (settings o env) st s with
  | (.exit n, st, s) => ⟨startup, [], .ok n, st, s⟩
  | (.proceed, st, s) =>
    let (result, st', s') := readLines limit st s
    ⟨startup, turns limit st s, result, st', s'⟩

/-- **A session is its course**, and saves its history then unless a line was not text. -/
theorem run_eq (limit : Nat) (o : Options) (env : Environment) (s : σ) :
    run limit o env s =
      let c := course limit o env s
      (c.result, match c.result with
        | .error _ => c.s
        | .ok _ => finish o (settings o env) c.st c.s) := by
  simp only [run, course, seeded, settings]
  rcases loadHistory o (Startup.ofSettings env.home o.config env.historyFile) _ s with ⟨st, s₁⟩
  dsimp only
  rcases runStartup o _ st s₁ with ⟨_ | n, st₂, s₂⟩
  · dsimp only
    rcases readLines limit st₂ s₂ with ⟨_ | n, st', s'⟩ <;> rfl
  · rfl

theorem startup_course (limit : Nat) (o : Options) (env : Environment) (s : σ) :
    (course limit o env s).startup =
      runsOfStartup (settings o env) (seeded o env s).1 (seeded o env s).2 := by
  rw [course]
  rcases seeded o env s with ⟨st, s₁⟩
  dsimp only
  split <;> rfl

/-- A session ends with its startup lines, or takes its turns after them. -/
theorem course_cases (limit : Nat) (o : Options) (env : Environment) (s : σ) :
    (∃ n, runStartup o (settings o env) (seeded o env s).1 (seeded o env s).2 =
        (.exit n, (course limit o env s).st, (course limit o env s).s) ∧
      (course limit o env s).turns = [] ∧ (course limit o env s).result = .ok n) ∨
    ∃ st₂ s₂, runStartup o (settings o env) (seeded o env s).1 (seeded o env s).2 =
        (.proceed, st₂, s₂) ∧
      Taken limit st₂ s₂ (course limit o env s).turns
        ((course limit o env s).result, (course limit o env s).st, (course limit o env s).s) := by
  rw [course]
  rcases seeded o env s with ⟨st, s₁⟩
  dsimp only
  rcases runStartup o (settings o env) st s₁ with ⟨_ | n, st₂, s₂⟩
  · exact .inr ⟨st₂, s₂, rfl, taken limit st₂ s₂⟩
  · exact .inl ⟨n, rfl, rfl, rfl⟩

theorem keeps_warn {P : σ → Prop} (hcomplain : ∀ b s, P s → P (Host.complain b s)) (o : Options)
    (text : String) {s : σ} (hp : P s) : P (warn o text s) := by
  rw [warn]
  split
  · exact hp
  · exact hcomplain _ s hp

theorem keeps_seeded {P : σ → Prop} (hcomplain : ∀ b s, P s → P (Host.complain b s)) (o : Options)
    (env : Environment) {s : σ} (hp : P s) : P (seeded o env s).2 := by
  rw [seeded, loadHistory]
  split
  · exact hp
  · split
    · exact hp
    · split_ifs
      · exact hp
      · exact keeps_warn hcomplain o _ hp

/-- What complaints keep, and each startup line, holds after the startup lines. -/
theorem keeps_runStartup {P : State → σ → Prop}
    (hcomplain : ∀ st b s, P st s → P st (Host.complain b s)) (o : Options) {cfg : Startup}
    {st : State} {s : σ}
    (h : ∀ r ∈ runsOfStartup cfg st s, P r.st r.s → P r.state r.after) (hp : P st s) :
    P (runStartup o cfg st s).2.1 (runStartup o cfg st s).2.2 := by
  cases hlines : cfg.commands s with
  | error e =>
    rw [runStartup, hlines]
    exact keeps_warn (hcomplain st) o _ hp
  | ok lines =>
    rw [runsOfStartup, hlines] at h
    rw [runStartup, hlines]
    exact keeps_runLines h hp

section Whole

variable {limit : Nat} {o : Options} {env : Environment} {s : σ}

theorem mem_executed_of_startup {r : LineRun σ}
    (hr : r ∈ runsOfStartup (settings o env) (seeded o env s).1 (seeded o env s).2) :
    r ∈ (course limit o env s).executed :=
  List.mem_append_left _ (startup_course limit o env s ▸ hr)

theorem mem_executed_of_turn {t : Turn σ} {r : LineRun σ}
    (ht : t ∈ (course limit o env s).turns) (hr : t.run? = some r) :
    r ∈ (course limit o env s).executed :=
  List.mem_append_right _ (List.mem_filterMap.2 ⟨t, ht, hr⟩)

/-- **The history at the end of a session** is the one it started from with the lines that were
entered. -/
theorem history_course
    (h : ∀ r ∈ (course limit o env s).executed, Line.loneWord? r.line ≠ some "history") :
    (course limit o env s).st.history =
      (seeded o env s).1.history.extend (course limit o env s).entered := by
  have hinit := keeps_runStartup
    (P := fun st _ => st.history = (seeded o env s).1.history) (fun _ _ _ hp => hp) o
    (fun r hr hp => (Line.history_run (h r (mem_executed_of_startup hr)) r.st r.s).trans hp) rfl
  rcases course_cases limit o env s with ⟨n, hrun, hturns, -⟩ | ⟨st₂, s₂, hrun, htaken⟩
  · rw [hrun] at hinit
    rw [hinit, Course.entered, hturns]
    exact (History.extend_nil _).symm
  · rw [hrun] at hinit
    rw [← hinit]
    exact htaken.history_eq fun t ht r hr => h r (mem_executed_of_turn ht hr)

/-- **What is kept along a session**: by complaints, by reading lines and by the lines that are
run. -/
theorem keeps_course {P : σ → Prop} (hcomplain : ∀ b s, P s → P (Host.complain b s))
    (hnext : ∀ s, P s → P (Host.nextLine s).2)
    (hruns : ∀ r ∈ (course limit o env s).executed, P r.s → P r.after) (hp : P s) :
    P (course limit o env s).s := by
  have hinit := keeps_runStartup (P := fun _ s => P s) (fun _ => hcomplain) o
    (fun r hr => hruns r (mem_executed_of_startup hr)) (keeps_seeded hcomplain o env hp)
  rcases course_cases limit o env s with ⟨n, hrun, -⟩ | ⟨st₂, s₂, hrun, htaken⟩
  · rwa [hrun] at hinit
  · rw [hrun] at hinit
    exact htaken.keeps hnext (fun t ht r hr => hruns r (mem_executed_of_turn ht hr)) hinit

/-- A session ends against its will exactly if it reads a line that is not text. -/
theorem error_course_iff :
    (∃ e, (course limit o env s).result = .error e) ↔
      ∃ t ∈ (course limit o env s).turns, t.line? = none := by
  rcases course_cases limit o env s with ⟨n, -, hturns, hresult⟩ | ⟨st₂, s₂, -, htaken⟩
  · simp [hturns, hresult]
  · exact htaken.error_iff

end Whole

/-- A session starts with every entry marked as saved, whether or not its history file could be
loaded. -/
theorem saved_seeded (o : Options) (env : Environment) (s : σ) :
    (seeded o env s).1.history.saved = (seeded o env s).1.history.entries.length := by
  rw [seeded]
  cases hfile : (settings o env).historyFile with
  | none =>
    rw [loadHistory, hfile]
    rfl
  | some path =>
    rw [loadHistory_eq o hfile, History.Operation.run, History.Operation.after,
      History.Operation.result]
    cases hes : History.entriesIn s path with
    | error e =>
      rw [History.load_of_error _ s path hes]
      rfl
    | ok es =>
      rw [History.load_of_ok _ s path hes]
      rfl

/-- The entries that have not been saved at the end of a session are the lines that were
entered. -/
theorem unsaved_course {limit : Nat} {o : Options} {env : Environment} {s : σ}
    (h : ∀ r ∈ (course limit o env s).executed, Line.loneWord? r.line ≠ some "history") :
    (course limit o env s).st.history.unsaved = (course limit o env s).entered := by
  rw [history_course h, History.unsaved, History.extend]
  dsimp only
  rw [saved_seeded, List.drop_left]

end Session
end LineShell
