import LineShell.Machine.Instance
import LineShell.Proofs.Course
import Mathlib.Data.List.TakeWhile

/-!
# The lines that a machine gives the shell

The shell reads its standard input in blocks and takes lines from what it has read. What it has not
taken yet is `unread`: the rest of the last block and what is after it. However the blocks fall, the
next line is the first line of that (`lines_of_nextLine`). So the turns of a session go through the
lines of the input in their order, and through all of them unless the session ends before, as long
as no program takes some of the input (`lines_course`).
-/

namespace LineShell
namespace Machine

open Bytes

/-- What is left of the shell's standard input. -/
def unread (m : Machine) : Bytes :=
  m.readAhead ++ m.input

/-- A first line has a line feed at its end, or is all there is. -/
theorem cutLine_cases (b : Bytes) :
    (∃ a rest, lineFeed ∉ a ∧ b = a ++ [lineFeed] ++ rest ∧ cutLine b = (a ++ [lineFeed], rest)) ∨
      lineFeed ∉ b ∧ cutLine b = (b, []) := by
  have happend := List.takeWhile_append_dropWhile (p := fun x => decide (x ≠ lineFeed)) (l := b)
  have htake : lineFeed ∉ b.takeWhile (· ≠ lineFeed) := fun h => by
    simpa using List.mem_takeWhile_imp h
  rw [cutLine, List.span_eq_takeWhile_dropWhile]
  cases hdrop : b.dropWhile (· ≠ lineFeed) with
  | nil =>
    rw [hdrop, List.append_nil] at happend
    rw [happend] at htake ⊢
    exact .inr ⟨htake, rfl⟩
  | cons x rest =>
    have hx : x = lineFeed := by
      have hhead := List.head?_dropWhile_not (fun x => decide (x ≠ lineFeed)) b
      rw [hdrop] at hhead
      simpa using hhead
    subst hx
    rw [hdrop] at happend
    exact .inl ⟨_, rest, htake, by simpa using happend.symm, rfl⟩

/-- The machine after the next block has been read in the place of what was there. -/
def nextBlock (m : Machine) : Machine :=
  { m with readAhead := m.input.take blockSize, input := m.input.drop blockSize }

theorem unread_nextBlock (m : Machine) : m.nextBlock.unread = m.input :=
  List.take_append_drop ..

theorem length_nextBlock_lt {m : Machine} (h : m.input ≠ []) :
    m.nextBlock.input.length < m.input.length := by
  have hpos := List.length_pos_of_ne_nil h
  have hdrop : m.nextBlock.input.length = m.input.length - blockSize := List.length_drop
  rw [hdrop, blockSize]
  omega

/-- How a line is read: it ends in the block that is there, or there is no other block, or it goes
on in the next one. -/
theorem readLine_succ (n : Nat) (m : Machine) :
    (∃ a rest, lineFeed ∉ a ∧ m.readAhead = a ++ [lineFeed] ++ rest ∧
      readLine (n + 1) m = (a ++ [lineFeed], { m with readAhead := rest })) ∨
    lineFeed ∉ m.readAhead ∧
      (m.input = [] ∧ readLine (n + 1) m = (m.readAhead, { m with readAhead := [] }) ∨
        m.input ≠ [] ∧ readLine (n + 1) m =
          (m.readAhead ++ (readLine n m.nextBlock).1, (readLine n m.nextBlock).2)) := by
  rw [readLine]
  rcases cutLine_cases m.readAhead with ⟨a, rest, ha, hb, hcut⟩ | ⟨hb, hcut⟩
  · simp only [hcut, List.getLast?_concat, if_true]
    exact .inl ⟨a, rest, ha, hb, rfl⟩
  · have hlast : m.readAhead.getLast? ≠ some lineFeed := fun h => hb (List.mem_of_getLast? h)
    simp only [hcut, if_neg hlast]
    refine .inr ⟨hb, ?_⟩
    cases hinput : m.input with
    | nil => exact .inl ⟨rfl, rfl⟩
    | cons x xs =>
      rw [nextBlock, hinput]
      exact .inr ⟨List.cons_ne_nil x xs, rfl⟩

/-- **Reading a line.** It is what comes up to the first line feed, or everything if there is none.
The number has to exceed the number of blocks that may have to be read. -/
theorem readLine_cases {n : Nat} {m : Machine} (hn : m.input.length < n) :
    ∃ a, lineFeed ∉ a ∧
      ((readLine n m).1 = a ++ [lineFeed] ∧
          m.unread = a ++ [lineFeed] ++ (readLine n m).2.unread ∨
        (readLine n m).1 = a ∧ m.unread = a ∧ (readLine n m).2.unread = []) := by
  induction n generalizing m with
  | zero => omega
  | succ n ih =>
    rcases readLine_succ n m with ⟨a, rest, ha, hb, hread⟩ | ⟨hb, hrest⟩
    · refine ⟨a, ha, .inl ?_⟩
      rw [hread, unread, hb]
      exact ⟨rfl, List.append_assoc ..⟩
    · rcases hrest with ⟨hinput, hread⟩ | ⟨hinput, hread⟩
      · refine ⟨m.readAhead, hb, .inr ?_⟩
        rw [hread, unread, unread, hinput]
        exact ⟨rfl, List.append_nil _, rfl⟩
      · have hlt := length_nextBlock_lt hinput
        obtain ⟨a, ha, hcase⟩ := ih (m := m.nextBlock) (by omega)
        have hmem : lineFeed ∉ m.readAhead ++ a := by
          rw [List.mem_append, not_or]
          exact ⟨hb, ha⟩
        rw [unread_nextBlock] at hcase
        refine ⟨m.readAhead ++ a, hmem, hcase.imp ?_ ?_⟩
        · rintro ⟨hline, hleft⟩
          rw [hread, hline, unread, hleft]
          simp only [List.append_assoc, and_self]
        · rintro ⟨hline, hleft, hnil⟩
          rw [hread, hline, unread, hleft]
          exact ⟨rfl, rfl, hnil⟩

/-- Reading a line changes nothing but what is left of the input. -/
theorem exists_readLine (n : Nat) (m : Machine) :
    ∃ readAhead input, (readLine n m).2 = { m with readAhead, input } := by
  induction n generalizing m with
  | zero => exact ⟨_, _, rfl⟩
  | succ n ih =>
    rcases readLine_succ n m with ⟨a, rest, -, -, hread⟩ | ⟨-, ⟨-, hread⟩ | ⟨-, hread⟩⟩
    · exact ⟨_, _, congrArg Prod.snd hread⟩
    · exact ⟨_, _, congrArg Prod.snd hread⟩
    · obtain ⟨readAhead, input, h⟩ := ih m.nextBlock
      exact ⟨readAhead, input, (congrArg Prod.snd hread).trans h⟩

theorem exists_nextLine (m : Machine) :
    ∃ readAhead input, (nextLine m).2 = { m with readAhead, input } := by
  obtain ⟨readAhead, input, h⟩ := exists_readLine (m.input.length + 2) m
  refine ⟨readAhead, input, ?_⟩
  rw [← h, nextLine]
  split <;> simp_all

/-- There is no next line only if nothing is left. -/
theorem unread_of_nextLine {m m' : Machine} (h : Host.nextLine m = (none, m')) :
    m.unread = [] := by
  obtain ⟨a, ha, hcase⟩ := readLine_cases (m := m) (n := m.input.length + 2) (by omega)
  have hnext : nextLine m = (none, m') := h
  rw [nextLine] at hnext
  split at hnext
  next hread =>
    rw [hread] at hcase
    rcases hcase with ⟨hline, -⟩ | ⟨hline, hleft, -⟩
    · simp at hline
    · rw [hleft, ← hline]
  · cases hnext

/-- **The next line is the first line of what is left.** It has a line feed at its end or none. -/
theorem lines_of_nextLine {m m' : Machine} {line : Bytes}
    (h : Host.nextLine m = (some line, m')) :
    lineFeed ∉ line.dropLast ∧ lines m.unread = line :: lines m'.unread := by
  obtain ⟨a, ha, hcase⟩ := readLine_cases (m := m) (n := m.input.length + 2) (by omega)
  have hnext : nextLine m = (some line, m') := h
  rw [nextLine] at hnext
  split at hnext
  · cases hnext
  next hne hread =>
    simp only [Prod.mk.injEq, Option.some.injEq] at hnext
    rw [hnext.1] at hne
    rw [hread, hnext.1, hnext.2] at hcase
    rcases hcase with ⟨hline, hleft⟩ | ⟨hline, hleft, hnil⟩
    · obtain rfl := hline
      rw [List.dropLast_concat, hleft, lines_append (finished_concat a), lines_concat ha]
      exact ⟨ha, rfl⟩
    · obtain rfl := hline
      have hm : m'.unread = [] := hnil
      rw [hleft, hm, lines_of_not_mem ha hne]
      exact ⟨fun hmem => ha (List.mem_of_mem_dropLast hmem), rfl⟩

end Machine

namespace Session

open Bytes

section Turns

variable {limit : Nat} {st : State} {m : Machine} {ts : List (Turn Machine)}
  {r : Except Abort Nat × State × Machine}

/-- A line that is read has a line feed at its end or none. -/
theorem Taken.lineFeed_not_mem (h : Taken limit st m ts r) {t : Turn Machine} (ht : t ∈ ts) :
    lineFeed ∉ t.bytes.dropLast := by
  induction h with
  | limit | atEnd => cases ht
  | unreadable hnext | exit hnext =>
    obtain rfl := List.mem_singleton.1 ht
    exact (Machine.lines_of_nextLine hnext).1
  | proceed hnext _ _ _ ih =>
    rcases List.mem_cons.1 ht with rfl | ht
    · exact (Machine.lines_of_nextLine hnext).1
    · exact ih ht

/-- The turns go through the lines of the input, and stop before its end only where one of them ends
the session. -/
theorem Taken.lines_eq (h : Taken limit st m ts r)
    (hruns : ∀ t ∈ ts, ∀ run, t.run? = some run → run.after.unread = run.s.unread)
    (hlimit : (lines m.unread).length ≤ limit) :
    ∃ rest, lines m.unread = ts.map Turn.bytes ++ rest ∧
      (rest ≠ [] → ∃ t, ts.getLast? = some t ∧ t.Ends) := by
  induction h with
  | limit => exact ⟨[], by simpa using hlimit, by simp⟩
  | atEnd hnext =>
    rw [Machine.unread_of_nextLine hnext]
    exact ⟨[], rfl, by simp⟩
  | @unreadable _ _ t hnext hline =>
    exact ⟨_, (Machine.lines_of_nextLine hnext).2, fun _ => ⟨t, rfl, .inl hline⟩⟩
  | @exit _ n _ _ _ t hnext _ hout =>
    exact ⟨_, (Machine.lines_of_nextLine hnext).2, fun _ => ⟨t, rfl, .inr ⟨n, by rw [hout]⟩⟩⟩
  | @proceed _ _ m _ t ts _ hnext _ hout _ ih =>
    rw [List.forall_mem_cons] at hruns
    obtain ⟨-, hlines⟩ := Machine.lines_of_nextLine hnext
    have hkept := t.keeps_outcome (P := fun m => m.unread = t.s.unread)
      (fun run hrun hs => (hruns.1 run hrun).trans hs) rfl
    rw [hout] at hkept
    have hkept : _ = _ := hkept
    rw [hlines, ← hkept] at hlimit ⊢
    obtain ⟨rest, hrest, hend⟩ := ih hruns.2 (by simpa using hlimit)
    refine ⟨rest, by rw [hrest]; rfl, fun hne => ?_⟩
    obtain ⟨u, hu, hends⟩ := hend hne
    exact ⟨u, by simp [List.getLast?_cons, hu], hends⟩

end Turns

/-- If the startup lines end the shell, the last of them does. -/
theorem getLast?_startupRuns {σ : Type} [Host σ] {lines : List String} {st st' : State} {s s' : σ}
    {n : Nat} (h : runLines lines st s = (.exit n, st', s')) :
    ∃ r, (startupRuns lines st s).getLast? = some r ∧ r.flow = .exit n := by
  induction lines generalizing st s with
  | nil => simp [runLines] at h
  | cons line rest ih =>
    rw [runLines] at h
    rw [startupRuns]
    rcases hrun : Line.run line st s with ⟨_ | k, st₁, s₁⟩
    · rw [hrun] at h
      obtain ⟨r, hr, hflow⟩ := ih h
      exact ⟨r, by simp [List.getLast?_cons, hr], hflow⟩
    · rw [hrun] at h
      refine ⟨⟨line, st, s⟩, rfl, ?_⟩
      rw [LineRun.flow, hrun]
      exact (Prod.mk.inj h).1

theorem getLast?_runsOfStartup {σ : Type} [Host σ] {o : Options} {cfg : Startup} {st st' : State}
    {s s' : σ} {n : Nat} (h : runStartup o cfg st s = (.exit n, st', s')) :
    ∃ r, (runsOfStartup cfg st s).getLast? = some r ∧ r.flow = .exit n := by
  cases hlines : cfg.commands s with
  | error e => simp [runStartup, hlines] at h
  | ok lines =>
    rw [runStartup, hlines] at h
    rw [runsOfStartup, hlines]
    exact getLast?_startupRuns h

/-- A line that ends the shell has been run. -/
theorem exists_run_of_exit {σ : Type} [Host σ] {t : Turn σ} {n : Nat} (h : t.outcome.1 = .exit n) :
    ∃ r, t.run? = some r ∧ r.flow = .exit n := by
  rw [Turn.outcome] at h
  split at h
  · cases h
  next r hr => exact ⟨r, hr, h⟩

/-- **A session goes through the lines of its input** in their order, and leaves some of them only
if the last line that it ran has ended it or the last line that it read is not text. -/
theorem lines_course {limit : Nat} {o : Options} {env : Environment} {m : Machine}
    (hruns : ∀ r ∈ (course limit o env m).executed, r.after.unread = r.s.unread)
    (hlimit : (lines m.unread).length ≤ limit) :
    ∃ rest, lines m.unread = (course limit o env m).turns.map Turn.bytes ++ rest ∧
      (rest ≠ [] →
        (∃ r n, (course limit o env m).executed.getLast? = some r ∧ r.flow = .exit n) ∨
        ∃ t, (course limit o env m).turns.getLast? = some t ∧ t.line? = none) := by
  rcases course_cases limit o env m with ⟨n, hrun, hturns, -⟩ | ⟨st₂, m₂, hrun, htaken⟩
  · obtain ⟨r, hr, hflow⟩ := getLast?_runsOfStartup hrun
    refine ⟨lines m.unread, by rw [hturns]; rfl, fun _ => .inl ⟨r, n, ?_, hflow⟩⟩
    rw [Course.executed, startup_course, hturns, List.filterMap_nil, List.append_nil, hr]
  · have hcomplain (b : Bytes) (m' : Machine) (h : m'.unread = m.unread) :
        (Host.complain b m').unread = m.unread := h
    have hunread := keeps_runStartup (P := fun _ m' => m'.unread = m.unread) (fun _ => hcomplain) o
      (fun r hr hp => (hruns r (mem_executed_of_startup hr)).trans hp)
      (keeps_seeded hcomplain o env rfl)
    rw [hrun] at hunread
    have hunread : m₂.unread = m.unread := hunread
    rw [← hunread] at hlimit ⊢
    obtain ⟨rest, hrest, hend⟩ :=
      htaken.lines_eq (fun t ht r hr => hruns r (mem_executed_of_turn ht hr)) hlimit
    refine ⟨rest, hrest, fun hne => ?_⟩
    obtain ⟨t, ht, hline | ⟨n, hexit⟩⟩ := hend hne
    · exact .inr ⟨t, ht, hline⟩
    · obtain ⟨r, hr, hflow⟩ := exists_run_of_exit hexit
      obtain ⟨before, hbefore⟩ := List.getLast?_eq_some_iff.1 ht
      refine .inl ⟨r, n, ?_, hflow⟩
      rw [Course.executed, hbefore, List.filterMap_append, ← List.append_assoc]
      simp [hr]

end Session
end LineShell
