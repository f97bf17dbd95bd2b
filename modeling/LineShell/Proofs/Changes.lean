import LineShell.Line
import LineShell.Machine.Instance
import LineShell.Machine.Setup
import LineShell.Proofs.Folding
import LineShell.Proofs.Operations
import Mathlib.Logic.Relation

/-!
# Who may change the shell's state

The state is the working directory, the history, and two things that are settled when the shell
starts: where home is and where programs are looked up. `Builtin.Effect` says once what a builtin
can make of it: `cd` may move to a directory that it has resolved, `history` may put entries after
those that are there, and all others leave it alone. A line of one stage does to the state what its
builtin does, and every other line leaves it alone (`Line.run_effect`).

From this follows what holds in every state that the shell can get into, whatever lines it is given
and whatever its machine does: `state_changes`.
-/

namespace LineShell

variable {σ : Type} [Host σ]

namespace Builtin

/-- What a builtin can make of the shell's state. -/
inductive Effect (st : State) : Builtin → State → Prop where
  /-- Any builtin may leave it alone. -/
  | keep (b : Builtin) : Effect st b st
  /-- `cd` may go to a directory that it has resolved. -/
  | move {path target : String} (h : st.resolve path = .ok target) :
    Effect st cd { st with cwd := target }
  /-- `history` may put entries after those that are there, and mark them as saved. -/
  | record {h : History} (hp : st.history.entries <+: h.entries) :
    Effect st history { st with history := h }

theorem effect_of_goTo {st st' : State} {s : σ} {path : String} (h : goTo st s path = .ok st') :
    Effect st cd st' := by
  rw [goTo] at h
  split at h
  · cases h
  next target ht =>
    split_ifs at h
    obtain rfl := Except.ok.inj h
    exact .move ht

theorem effect_of_runCd {st st' : State} {s : σ} {args : List String}
    (h : runCd st s args = .ok st') : Effect st cd st' := by
  match args, h with
  | [], h => exact effect_of_goTo h
  | [_], h => exact effect_of_goTo h

theorem effect_runFileAction (a : FileAction) (st : State) (path : String) (s : σ) :
    Effect st history (runFileAction a st path s).2.1 := by
  rw [runFileAction]
  split
  · exact .keep _
  next file _ =>
    have hchange := History.change_apply st.history s file a
    have hp := hchange.entries_prefix
    rcases ha : a.apply st.history file s with ⟨e | _, h, s'⟩ <;> rw [ha] at hp <;> exact .record hp

theorem effect_runHistory (st : State) (args : List String) (s : σ) :
    Effect st history (runHistory st args s).2.1 := by
  unfold runHistory
  split
  · exact .keep _
  · split
    · exact .keep _
    · exact effect_runFileAction ..
    · split_ifs
      · exact .keep _
      · split <;> exact .keep _

/-- **What a builtin does to the state is one of its effects.** -/
theorem run_effect (b : Builtin) (args : List String) (st : State) (s : σ) :
    Effect st b (b.run args st s).2.1 := by
  cases b with
  | cd =>
    cases h : runCd st s args with
    | error e => simpa [run, h] using Effect.keep cd
    | ok st' => simpa [run, h] using effect_of_runCd h
  | history => exact effect_runHistory st args s
  | _ => exact .keep _

namespace Effect

variable {b : Builtin} {st st' : State}

theorem home_eq (h : Effect st b st') : st'.home = st.home := by
  cases h <;> rfl

theorem searchPath_eq (h : Effect st b st') : st'.searchPath = st.searchPath := by
  cases h <;> rfl

theorem cwd_eq (h : Effect st b st') (hb : b ≠ cd) : st'.cwd = st.cwd := by
  cases h with
  | move => exact absurd rfl hb
  | _ => rfl

theorem history_eq (h : Effect st b st') (hb : b ≠ history) : st'.history = st.history := by
  cases h with
  | record => exact absurd rfl hb
  | _ => rfl

theorem entries_prefix (h : Effect st b st') : st.history.entries <+: st'.history.entries := by
  cases h with
  | record hp => exact hp
  | _ => exact List.prefix_rfl

/-- From an absolute directory, a builtin stays where it is or goes to a folded path. -/
theorem folded_cwd (h : Effect st b st') (habs : Path.isAbsolute st.cwd) :
    st'.cwd = st.cwd ∨ Path.Folded st'.cwd := by
  cases h with
  | move hr => exact .inr (Path.folded_resolve habs hr)
  | _ => exact .inl rfl

end Effect

theorem eq_name_of_ofName? {name : String} {b : Builtin} (h : ofName? name = some b) :
    name = b.name := by
  simpa using List.find?_some h

end Builtin

/-- A builtin with targets does to the state what it does without, or nothing if a target cannot be
opened. -/
theorem runBuiltin_effect (b : Builtin) (inv : Invocation) (st : State) (s : σ) :
    b.Effect st (runBuiltin b inv st s).2.1 := by
  rw [runBuiltin]
  split
  · exact .keep b
  next out err s' _ =>
    have h := b.run_effect inv.args st s'
    split <;> simp_all

namespace Command

theorem ofName?_of_resolve {st : State} {s : σ} {name : String} {b : Builtin}
    (h : resolve st s name = some (builtin b)) : Builtin.ofName? name = some b := by
  rw [resolve] at h
  split at h <;> simp_all

end Command

/-- A command does nothing to the state, or what the builtin of its name does. -/
theorem Invocation.run_effect (inv : Invocation) (st : State) (s : σ) :
    (inv.run st s).2.1 = st ∨
      ∃ b : Builtin, inv.name = b.name ∧ b.Effect st (inv.run st s).2.1 := by
  rw [run]
  split
  next b h =>
    have hname := Builtin.eq_name_of_ofName? (Command.ofName?_of_resolve h)
    exact .inr ⟨b, hname, runBuiltin_effect b inv st s⟩
  · left
    split <;> rfl
  · exact .inl rfl

namespace Line

/-- The command word of a line that has one stage, if there is a word in it. -/
def loneWord? (line : String) : Option String :=
  match Stage.ofLine line with
  | [stage] => (Word.ofLine stage).head?
  | _ => none

theorem loneWord?_of_singleton {line stage : String} (h : Stage.ofLine line = [stage]) :
    loneWord? line = (Word.ofLine stage).head? := by
  simp [loneWord?, h]

/-- The command of a line that has one stage, if there is a word in it. -/
def lone? (line : String) : Option Invocation :=
  match Stage.ofLine line with
  | [stage] => Invocation.ofStage? stage
  | _ => none

theorem run_of_lone? {line : String} {inv : Invocation} (h : lone? line = some inv) (st : State)
    (s : σ) : run line st s = inv.run st s := by
  rw [lone?] at h
  split at h
  next stage hs => simp only [run, hs, h]
  · cases h

/-- A line with several stages goes to its end and leaves the state alone. -/
theorem run_of_two_le {line : String} (h : 2 ≤ (Stage.ofLine line).length) (st : State) (s : σ) :
    (run line st s).1 = .proceed ∧ (run line st s).2.1 = st := by
  rw [run]
  split
  next hs => simp [hs] at h
  · split <;> exact ⟨rfl, rfl⟩

/-- A line that is no lone command goes to its end and leaves the state alone. -/
theorem run_of_lone?_eq_none {line : String} (h : lone? line = none) (st : State) (s : σ) :
    (run line st s).1 = .proceed ∧ (run line st s).2.1 = st := by
  rw [run]
  split
  next stage hs =>
    have hnone : Invocation.ofStage? stage = none := by simpa [lone?, hs] using h
    simp [hnone]
  · split <;> exact ⟨rfl, rfl⟩

/-- **What a line does to the state.** It leaves the state alone, or it has one stage with the name
of a builtin in front and does what that builtin does. -/
theorem run_effect (line : String) (st : State) (s : σ) :
    (run line st s).2.1 = st ∨
      ∃ b : Builtin, loneWord? line = some b.name ∧ b.Effect st (run line st s).2.1 := by
  rw [run]
  split
  next stage hs =>
    split
    · exact .inl rfl
    next inv hinv =>
      refine (inv.run_effect st s).imp_right fun ⟨b, hname, hb⟩ => ⟨b, ?_, hb⟩
      rw [loneWord?_of_singleton hs, Invocation.head?_of_ofStage? hinv, hname]
  · left
    split <;> rfl

end Line

namespace State

/-- What one call on the shell can make of its state: a line is recorded, a history file is loaded,
a line is run. The machine is whatever it is at the time of the call. -/
inductive Step (σ : Type) [Host σ] (st : State) : State → Prop where
  /-- A line is recorded. -/
  | add (line : String) : Step σ st { st with history := st.history.add line }
  /-- A history file is loaded, or cannot be. -/
  | load (s : σ) (path : String) : Step σ st { st with history := (st.history.load s path).2 }
  /-- A line is run. -/
  | run (s : σ) (line : String) : Step σ st (Line.run line st s).2.1

/-- What never changes after the start, and what is known of the working directory. -/
structure Settled (start st : State) : Prop where
  /-- Home is where it was at the start. -/
  home : st.home = start.home
  /-- Programs are looked up where they were at the start. -/
  searchPath : st.searchPath = start.searchPath
  /-- The working directory is that of the start or a folded path. -/
  cwd : st.cwd = start.cwd ∨ Path.Folded st.cwd

theorem Settled.isAbsolute {start st : State} (h : Settled start st)
    (habs : Path.isAbsolute start.cwd) : Path.isAbsolute st.cwd := by
  rcases h.cwd with hcwd | hcwd
  · rwa [hcwd]
  · exact hcwd.isAbsolute

/-- One call keeps what is settled. -/
theorem Settled.step {start st st' : State} (h : Settled start st)
    (habs : Path.isAbsolute start.cwd) (hstep : Step σ st st') : Settled start st' := by
  cases hstep with
  | add | load => exact ⟨h.home, h.searchPath, h.cwd⟩
  | run s line =>
    rcases Line.run_effect line st s with hst | ⟨b, -, hb⟩
    · rwa [hst]
    · refine ⟨hb.home_eq.trans h.home, hb.searchPath_eq.trans h.searchPath, ?_⟩
      rcases hb.folded_cwd (h.isAbsolute habs) with hcwd | hcwd
      · rw [hcwd]
        exact h.cwd
      · exact .inr hcwd

/-- Whatever the shell is told, it keeps what is settled. -/
theorem Settled.run {start st : State} (habs : Path.isAbsolute start.cwd)
    (h : Relation.ReflTransGen (Step σ) start st) : Settled start st := by
  induction h with
  | refl => exact ⟨rfl, rfl, .inl rfl⟩
  | tail _ hstep ih => exact ih.step habs hstep

/-- **Who may change the shell's state.** In every state that the shell can get into from an
absolute directory, by recording lines, loading history files and running lines on any machine, home
and the search path are those of the start and the working directory is that of the start or a
folded path. A line changes the working directory only if it is a lone `cd` and the history only if
it is a lone `history`; entries are only added to the history; and a line with several stages
changes nothing and never ends the shell. -/
theorem state_changes {cwd : String} (habs : Path.isAbsolute cwd) (home path : Option String) :
    (∀ st : State, Relation.ReflTransGen (Step σ) ⟨cwd, home, .ofValue path, {}⟩ st →
      st.home = home ∧ st.searchPath = .ofValue path ∧ (st.cwd = cwd ∨ Path.Folded st.cwd)) ∧
    ∀ (line : String) (st st' : State) (s s' : σ) (flow : Flow),
      Line.run line st s = (flow, st', s') →
        (st'.cwd ≠ st.cwd → Line.loneWord? line = some "cd") ∧
        (st'.history ≠ st.history → Line.loneWord? line = some "history") ∧
        st.history.entries <+: st'.history.entries ∧
        (2 ≤ (Stage.ofLine line).length → st' = st ∧ flow = .proceed) := by
  refine ⟨fun st h => ?_, fun line st st' s s' flow hrun => ?_⟩
  · have hs : Settled ⟨cwd, home, .ofValue path, {}⟩ st := Settled.run habs h
    exact ⟨hs.home, hs.searchPath, hs.cwd⟩
  · have heffect := Line.run_effect line st s
    have htwo (h : 2 ≤ (Stage.ofLine line).length) := Line.run_of_two_le h st s
    rw [hrun] at heffect htwo
    refine ⟨?_, ?_, ?_, fun h => (htwo h).symm⟩
    all_goals rcases heffect with rfl | ⟨b, hword, hb⟩
    · exact fun h => absurd rfl h
    · intro hne
      by_cases hcd : b = .cd
      · rw [hword, hcd]
        rfl
      · exact absurd (hb.cwd_eq hcd) hne
    · exact fun h => absurd rfl h
    · intro hne
      by_cases hh : b = .history
      · rw [hword, hh]
        rfl
      · exact absurd (hb.history_eq hh) hne
    · exact List.prefix_rfl
    · exact hb.entries_prefix

/-- A machine whose shell is started in `/r`, which holds a directory `sub`. -/
def besideSub : Machine :=
  .ofDisk (Disk.base.installDirectory [] "/r/sub") "/r" [] []

/-- From `/r` a lone `cd` comes to a directory that is spelled otherwise and folded. -/
theorem folded_after_cd :
    ∃ flow st m, Line.run "cd .//sub/../sub/" ⟨"/r", none, .ofValue none, {}⟩ besideSub =
        (flow, st, m) ∧
      st.cwd = "/r/sub" ∧ Path.Folded st.cwd ∧
      Line.loneWord? "cd .//sub/../sub/" = some "cd" := by
  have hall := state_changes (σ := Machine) (show Path.isAbsolute "/r" by decide) none none
  have hcwd : (Line.run "cd .//sub/../sub/" ⟨"/r", none, .ofValue none, {}⟩ besideSub).2.1.cwd =
      "/r/sub" := by decide +kernel
  have hstep := @Step.run Machine _ ⟨"/r", none, .ofValue none, {}⟩ besideSub "cd .//sub/../sub/"
  rcases hrun : Line.run "cd .//sub/../sub/" ⟨"/r", none, .ofValue none, {}⟩ besideSub with
    ⟨flow, st, m⟩
  rw [hrun] at hcwd hstep
  have hne : st.cwd ≠ "/r" := by rw [hcwd]; decide
  exact ⟨flow, st, m, rfl, hcwd, (hall.1 st (.single hstep)).2.2.resolve_left hne,
    (hall.2 _ _ st _ m flow hrun).1 hne⟩

end State
end LineShell
