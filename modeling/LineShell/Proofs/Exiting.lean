import LineShell.Proofs.Changes
import LineShell.Proofs.Numerals
import LineShell.Proofs.Targets

/-!
# When a line ends the shell

Only `exit` asks the shell to end, and only if it is the lone command of a line, its targets can be
opened and it has no argument or one that is a status. `Line.Ends` is this condition, read off the
stages, words and redirections of the line. It is necessary and sufficient
(`Line.ends_the_shell_iff`), so nothing that goes wrong on the way to it ends the shell.
-/

namespace LineShell

variable {σ : Type} [Host σ]

namespace Builtin

/-- The status that the arguments of `exit` ask for. -/
inductive ExitStatus : List String → Nat → Prop where
  /-- No argument asks for zero. -/
  | none : ExitStatus [] 0
  /-- A numeral that fits into 32 bits asks for its value modulo 256, which is not negative. -/
  | number {arg : String} {v : Int} {n : Nat} (h : Text.Numeral arg.toList v) (hlow : -2 ^ 31 ≤ v)
      (hhigh : v ≤ 2 ^ 31 - 1) (hn : (n : Int) = v % 256) : ExitStatus [arg] n

theorem ExitStatus.le {args : List String} {n : Nat} (h : ExitStatus args n) : n ≤ 255 := by
  cases h with
  | none => omega
  | number _ _ _ hn => omega

theorem runExit_eq_exit_iff {args : List String} {n : Nat} :
    runExit args = .ok (.exit n) ↔ ExitStatus args n := by
  constructor
  · intro h
    rcases args with _ | ⟨arg, _ | ⟨arg', args⟩⟩
    · obtain rfl : 0 = n := by simpa [runExit] using h
      exact .none
    · cases hs : Text.status? arg with
      | none => simp [runExit, hs] at h
      | some v =>
        obtain ⟨hv, hlow, hhigh⟩ := Text.status?_eq_some_iff.1 hs
        obtain rfl : (v % 256).toNat = n := by simpa [runExit, hs] using h
        exact .number hv hlow hhigh (Int.toNat_of_nonneg (by omega))
    · simp [runExit] at h
  · intro h
    cases h with
    | none => rfl
    | number hv hlow hhigh hn =>
      simp only [runExit, Text.status?_eq_some_iff.2 ⟨hv, hlow, hhigh⟩, ← hn, Int.toNat_natCast]

theorem recentEntries_ne_exit (h : History) (count n : Nat) : recentEntries h count ≠ .exit n := by
  rw [recentEntries]
  split <;> simp

theorem runFileAction_ne_exit (a : FileAction) (st : State) (path : String) (s : σ) (n : Nat) :
    (runFileAction a st path s).1 ≠ .ok (.exit n) := by
  rw [runFileAction]
  split
  · simp
  · split <;> simp

theorem runHistory_ne_exit (st : State) (args : List String) (s : σ) (n : Nat) :
    (runHistory st args s).1 ≠ .ok (.exit n) := by
  unfold runHistory
  split
  · simp [recentEntries_ne_exit]
  · split
    · simp
    · exact runFileAction_ne_exit _ st _ s n
    · split
      · simp
      · split <;> simp [recentEntries_ne_exit]

/-- Of the builtins only `exit` asks the shell to end. -/
theorem run_eq_exit_iff {b : Builtin} {args : List String} {st : State} {s : σ} {n : Nat} :
    (b.run args st s).1 = .ok (.exit n) ↔ b = exit ∧ ExitStatus args n := by
  rw [← runExit_eq_exit_iff]
  cases b with
  | exit => simp [run]
  | cd =>
    rw [run]
    split <;> simp
  | history => simp [run, runHistory_ne_exit]
  | type => cases args <;> simp [run, runType]
  | _ => simp [run]

end Builtin

/-- A builtin with targets ends the shell if they can be opened and the builtin asks for it. -/
theorem runBuiltin_eq_exit_iff {b : Builtin} {inv : Invocation} {st : State} {s : σ} {n : Nat} :
    (runBuiltin b inv st s).1 = .exit n ↔
      inv.redirection.Openable st.cwd s ∧ b = .exit ∧ Builtin.ExitStatus inv.args n := by
  rw [Redirection.openable_iff, runBuiltin]
  rcases Target.openBoth st.cwd inv.redirection s with ⟨e | ⟨out, err⟩, s₁⟩
  · simp
  · have hexit : (b.run inv.args st s₁).1 = .ok (.exit n) ↔ _ := Builtin.run_eq_exit_iff
    rw [← hexit]
    rcases hb : b.run inv.args st s₁ with ⟨e | text | _ | m, st', s₂⟩ <;> simp [hb]

namespace Invocation

theorem ofStage?_eq_some_iff {stage : String} {inv : Invocation} :
    ofStage? stage = some inv ↔ ∃ words, Word.ofLine stage = inv.name :: words ∧
      Redirection.extract words = (inv.args, inv.redirection) := by
  obtain ⟨name, args, redirection⟩ := inv
  rw [ofStage?]
  cases Word.ofLine stage with
  | nil => simp [ofWords?]
  | cons word words => simp [ofWords?, Prod.ext_iff, and_assoc]

/-- A command ends the shell if it is `exit`, its targets can be opened and its arguments ask for a
status. -/
theorem run_eq_exit_iff {inv : Invocation} {st : State} {s : σ} {n : Nat} :
    (inv.run st s).1 = .exit n ↔
      inv.name = "exit" ∧ inv.redirection.Openable st.cwd s ∧ Builtin.ExitStatus inv.args n := by
  by_cases hname : inv.name = "exit"
  · have hexit : Command.resolve st s "exit" = some (.builtin .exit) := rfl
    simp [run, hname, hexit, runBuiltin_eq_exit_iff]
  · have hne {b : Builtin} (h : Command.resolve st s inv.name = some (.builtin b)) : b ≠ .exit := by
      rintro rfl
      exact hname (Builtin.eq_name_of_ofName? (Command.ofName?_of_resolve h))
    rw [run]
    split
    next b h => simp [runBuiltin_eq_exit_iff, hne h, hname]
    · split <;> simp [hname]
    · simp [hname]

end Invocation

namespace Line

/-- What makes a line end the shell with a status. -/
inductive Ends (line : String) (st : State) (s : σ) : Nat → Prop where
  /-- The line has one stage, with `exit` as its command word; redirections are taken out of the
  words after it, all their targets can be opened, and what remains asks for the status. -/
  | exit {stage : String} {words args : List String} {redirection : Redirection} {status : Nat}
      (hstage : Stage.ofLine line = [stage]) (hwords : Word.ofLine stage = "exit" :: words)
      (hextract : Redirection.extract words = (args, redirection))
      (hopen : redirection.Openable st.cwd s) (hstatus : Builtin.ExitStatus args status) :
    Ends line st s status

theorem ends_iff {line : String} {st : State} {s : σ} {status : Nat} :
    Ends line st s status ↔ ∃ inv, lone? line = some inv ∧ inv.name = "exit" ∧
      inv.redirection.Openable st.cwd s ∧ Builtin.ExitStatus inv.args status := by
  constructor
  · rintro ⟨hstage, hwords, hextract, hopen, hstatus⟩
    refine ⟨⟨"exit", _, _⟩, ?_, rfl, hopen, hstatus⟩
    simp only [lone?, hstage]
    exact Invocation.ofStage?_eq_some_iff.2 ⟨_, hwords, hextract⟩
  · rintro ⟨inv, hlone, hname, hopen, hstatus⟩
    rw [lone?] at hlone
    split at hlone
    next stage hstage =>
      obtain ⟨words, hwords, hextract⟩ := Invocation.ofStage?_eq_some_iff.1 hlone
      exact .exit hstage (hname ▸ hwords) hextract hopen hstatus
    · cases hlone

theorem run_eq_exit_iff {line : String} {st : State} {s : σ} {status : Nat} :
    (run line st s).1 = .exit status ↔ Ends line st s status := by
  rw [ends_iff]
  cases h : lone? line with
  | none => simp [run_of_lone?_eq_none h st s]
  | some inv => simp [run_of_lone? h st s, Invocation.run_eq_exit_iff]

/-- **When a line ends the shell.** Whatever the state and the machine, a line ends the shell with a
status exactly if it has one stage whose command word is `exit`, every target it declares can be
opened, and its arguments are none, for the status zero, or one numeral from -2^31 to 2^31 - 1, for
its remainder modulo 256, which is from 0 to 255. After every other line the shell goes on. -/
theorem ends_the_shell_iff (line : String) (st : State) (s : σ) :
    (∀ status, (run line st s).1 = .exit status ↔ status ≤ 255 ∧ Ends line st s status) ∧
    ((run line st s).1 = .proceed ↔ ∀ status, ¬ Ends line st s status) := by
  constructor
  · intro status
    rw [run_eq_exit_iff]
    refine ⟨fun h => ⟨?_, h⟩, And.right⟩
    obtain ⟨_, _, _, _, hstatus⟩ := h
    exact hstatus.le
  · simp only [← run_eq_exit_iff]
    cases (run line st s).1 <;> simp

example : (run "exit '-1' >> sub/out" ⟨"/r", none, .ofValue none, {}⟩ State.besideSub).1 =
    .exit 255 := by decide +kernel

end Line
end LineShell
