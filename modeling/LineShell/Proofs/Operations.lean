import LineShell.Machine.Instance
import LineShell.Machine.Setup
import LineShell.Proofs.FileLines
import LineShell.Session
import Mathlib.Logic.Relation

/-!
# What can become of a history

A line is recorded, a session starts from a file, and the builtin `history` adds the lines of a
file, replaces a file or appends to one. Each of these operations gives back an answer and the
history that the shell goes on with. `Change` says once what they can be: after a failure the
history is as it was, and otherwise entries that are not blank have come after those that were
there, and all of them may have been marked as saved. Everything else follows from that, for
histories that any number of operations have made on any machine: `operations_keep_history`.

The shell does with its history what the operations say, when a session starts (`loadHistory_eq`)
and when `history` works on a file (`runHistory_eq`).
-/

namespace LineShell

variable {σ : Type} [Host σ]

namespace History

/-- What can be done with a history. -/
inductive Operation where
  /-- A line is recorded. -/
  | add (line : String)
  /-- A session starts from a file. -/
  | load (path : String)
  /-- The lines of a file are added, or a file is replaced or appended to. -/
  | file (a : Builtin.FileAction) (path : String)
  deriving DecidableEq, Repr

namespace Operation

/-- What an operation gives back: its answer, the history to go on with, and the machine. -/
def result : Operation → History → σ → Except FileError Unit × History × σ
  | add line, h, s => (.ok (), h.add line, s)
  | load path, h, s =>
    match h.load s path with
    | (.error e, h) => (.error e, h, s)
    | (.ok _, h) => (.ok (), h, s)
  | file a path, h, s => a.apply h path s

/-- The history after an operation. -/
def after (op : Operation) (h : History) (s : σ) : History :=
  (op.result h s).2.1

end Operation

/-- The history with entries put after those that are there. -/
def extend (h : History) (es : List String) : History :=
  { h with entries := h.entries ++ es }

@[simp] theorem extend_nil (h : History) : h.extend [] = h := by
  simp [extend]

theorem extend_extend (h : History) (es fs : List String) :
    (h.extend es).extend fs = h.extend (es ++ fs) := by
  simp [extend]

/-- What an operation can answer, and what it can make of a history. -/
inductive Change (h : History) : Except FileError Unit → History → Prop where
  /-- It fails, and the history stays as it is. -/
  | fail (e : FileError) : Change h (.error e) h
  /-- Entries that are not blank come after those that are there. -/
  | extend {es : List String} (hes : ∀ e ∈ es, Text.blank e = false) :
    Change h (.ok ()) (h.extend es)
  /-- The same, and then every entry is marked as saved. -/
  | save {es : List String} (hes : ∀ e ∈ es, Text.blank e = false) :
    Change h (.ok ()) (h.extend es).markSaved

theorem change_markSaved (h : History) : Change h (.ok ()) h.markSaved := by
  have hc : Change h (.ok ()) (h.extend []).markSaved := .save (List.forall_mem_nil _)
  rwa [extend_nil] at hc

theorem change_add (h : History) (line : String) : Change h (.ok ()) (h.add line) := by
  rw [add]
  split_ifs with hb
  · have hc : Change h (.ok ()) (h.extend []) := .extend (List.forall_mem_nil _)
    rwa [extend_nil] at hc
  · have hes : ∀ e ∈ [line], Text.blank e = false := by simpa using hb
    exact .extend hes

/-- The entries in a file are not blank. -/
theorem blank_of_mem_entriesIn {s : σ} {path : String} {es : List String}
    (h : entriesIn s path = .ok es) {e : String} (he : e ∈ es) : Text.blank e = false := by
  rw [entriesIn] at h
  split at h
  · cases h
  · split at h
    · cases h
    next hb =>
      obtain rfl := Except.ok.inj h
      obtain ⟨ts, -, rfl⟩ := ofBytes?_eq_some_iff.1 hb
      simpa using (List.mem_filter.1 he).2

/-- A file with a line that is not text has no entries that could be read. -/
theorem entriesIn_of_not_text {s : σ} {path : String} {b line : Bytes} {n : Nat}
    (hb : Host.read s path = .ok b) (hn : b.lines[n]? = some line) (ht : Bytes.text? line = none) :
    entriesIn s path = .error ⟨path, .notText⟩ := by
  have hnone : ofBytes? b = none := by
    rw [← Option.not_isSome_iff_eq_none, isSome_ofBytes?, Bytes.isSome_text?_iff]
    intro hall
    have := hall line (List.mem_of_getElem? hn)
    simp [ht] at this
  simp [entriesIn, hb, hnone]

section Files

variable (h : History) (s : σ) (path : String)

theorem readFrom_of_error {e : FileError} (he : entriesIn s path = .error e) :
    h.readFrom s path = (.error e, h) := by
  rw [readFrom, he]

theorem readFrom_of_ok {es : List String} (hes : entriesIn s path = .ok es) :
    h.readFrom s path = (.ok es.length, h.extend es) := by
  rw [readFrom, hes]
  rfl

theorem load_of_error {e : FileError} (he : entriesIn s path = .error e) :
    h.load s path = (.error e, h) := by
  rw [load, readFrom_of_error h s path he]

theorem load_of_ok {es : List String} (hes : entriesIn s path = .ok es) :
    h.load s path = (.ok es.length, (h.extend es).markSaved) := by
  rw [load, readFrom_of_ok h s path hes]

/-- Replacing a file marks entries as saved if it succeeds, and does nothing else to them. -/
theorem change_writeTo : Change h (h.writeTo path s).1 (h.writeTo path s).2.1 := by
  rw [writeTo]
  split
  · exact .fail _
  · exact change_markSaved h

/-- Appending to a file marks entries as saved if it succeeds, and does nothing else to them. -/
theorem change_appendTo : Change h (h.appendTo path s).1 (h.appendTo path s).2.1 := by
  rw [appendTo]
  split
  · exact .fail _
  · exact change_markSaved h

theorem change_apply (a : Builtin.FileAction) :
    Change h (a.apply h path s).1 (a.apply h path s).2.1 := by
  cases a with
  | read =>
    rw [Builtin.FileAction.apply]
    cases hes : entriesIn s path with
    | error e =>
      rw [readFrom_of_error h s path hes]
      exact .fail e
    | ok es =>
      rw [readFrom_of_ok h s path hes]
      exact .extend fun e he => blank_of_mem_entriesIn hes he
  | write => exact change_writeTo h s path
  | append => exact change_appendTo h s path

end Files

/-- **What an operation makes of a history is one of its changes.** -/
theorem Operation.change (op : Operation) (h : History) (s : σ) :
    Change h (op.result h s).1 (op.after h s) := by
  cases op with
  | add line => exact change_add h line
  | load path =>
    rw [after, result]
    cases hes : entriesIn s path with
    | error e =>
      rw [load_of_error h s path hes]
      exact .fail e
    | ok es =>
      rw [load_of_ok h s path hes]
      exact .save fun e he => blank_of_mem_entriesIn hes he
  | file a path => exact change_apply h s path a

/-- What is known of a history that operations have made. -/
structure Sound (h : History) : Prop where
  /-- No more entries are marked as saved than there are. -/
  saved_le : h.saved ≤ h.entries.length
  /-- No entry is blank. -/
  blank : ∀ e ∈ h.entries, Text.blank e = false

namespace Change

variable {h h' : History} {answer : Except FileError Unit}

theorem entries_prefix (hc : Change h answer h') : h.entries <+: h'.entries := by
  cases hc with
  | fail => exact List.prefix_rfl
  | extend | save => exact List.prefix_append ..

/-- The mark never goes back. If all entries get it, that is because it was among them. -/
theorem saved_le (hc : Change h answer h') (hs : Sound h) : h.saved ≤ h'.saved := by
  cases hc with
  | fail | extend => exact Nat.le_refl _
  | save => exact hs.saved_le.trans (by simp [markSaved, History.extend])

theorem eq_of_error {e : FileError} (hc : Change h (.error e) h') : h' = h := by
  cases hc
  rfl

theorem sound_extend {es : List String} (hs : Sound h) (hes : ∀ e ∈ es, Text.blank e = false) :
    Sound (h.extend es) where
  saved_le := hs.saved_le.trans (by simp [History.extend])
  blank e he := (List.mem_append.1 he).elim (hs.blank e) (hes e)

/-- One change keeps a history sound. -/
theorem sound (hc : Change h answer h') (hs : Sound h) : Sound h' := by
  cases hc with
  | fail => exact hs
  | extend hes => exact sound_extend hs hes
  | save hes => exact ⟨Nat.le_refl _, (sound_extend hs hes).blank⟩

end Change

/-- One operation, whatever the machine is at its time. -/
def Step (σ : Type) [Host σ] (h h' : History) : Prop :=
  ∃ (op : Operation) (s : σ), h' = op.after h s

/-- Whatever is done with it, a history stays sound. -/
theorem Sound.of_steps {h : History} (hr : Relation.ReflTransGen (Step σ) {} h) : Sound h := by
  induction hr with
  | refl => exact ⟨Nat.le_refl 0, by simp⟩
  | tail _ hstep ih =>
    obtain ⟨op, s, rfl⟩ := hstep
    exact (op.change _ s).sound ih

/-- What an operation makes of the shell and its machine. -/
def Operation.run (op : Operation) (st : State) (s : σ) : State × σ :=
  ({ st with history := op.after st.history s }, (op.result st.history s).2.2)

end History

open History

/-- A session starts with the history that loading the file leaves. -/
theorem Session.loadHistory_eq (o : Options) {cfg : Startup} {path : String}
    (hcfg : cfg.historyFile = some path) (st : State) (s : σ) :
    (loadHistory o cfg st s).1 = ((Operation.load path).run st s).1 := by
  simp only [loadHistory, hcfg, Operation.run, Operation.after, Operation.result]
  rcases st.history.load s path with ⟨e | n, h⟩
  · dsimp only
    split_ifs <;> rfl
  · rfl

/-- The builtin `history` leaves the history that its action on the file leaves. -/
theorem Builtin.runHistory_eq {flag path file : String} {a : FileAction} {st : State}
    (hflag : FileAction.ofOption? flag = some a) (hfile : st.resolve path = .ok file)
    (rest : List String) (s : σ) :
    (history.run (flag :: path :: rest) st s).2 = (Operation.file a file).run st s := by
  simp only [run, runHistory, hflag, runFileAction, hfile, Operation.run, Operation.after,
    Operation.result]
  rcases a.apply st.history file s with ⟨e | _, h, s'⟩ <;> rfl

namespace History

/-- **What holds of every history.** Take any history that comes from the empty one by any number of
operations, on any machine and with any failures. No more entries are marked as saved than there
are, so that the entries to be appended are those after the mark. Every entry has a character that
is not blank. The next operation, whichever it is, leaves the entries in front of the new ones and
does not take the mark back; if it fails, because a file cannot be opened, read or written or
because some line of a file is not text, the history it gives back is the one it was given. And the
shell does with its history what the operations say. -/
theorem operations_keep_history {h : History} (hr : Relation.ReflTransGen (Step σ) {} h) :
    h.saved ≤ h.entries.length ∧ h.saved + h.unsaved.length = h.entries.length ∧
    (∀ e ∈ h.entries, ∃ c ∈ e.toList, Text.isBlank c = false) ∧
    (∀ (op : Operation) (s : σ),
      h.entries <+: (op.after h s).entries ∧ h.saved ≤ (op.after h s).saved ∧
      ∀ e, (op.result h s).1 = .error e → op.after h s = h) ∧
    (∀ (s : σ) (path : String) (b line : Bytes) (n : Nat),
      Host.read s path = .ok b → b.lines[n]? = some line → Bytes.text? line = none →
      ∀ op ∈ [Operation.load path, .file .read path],
        (op.result h s).1 = .error ⟨path, .notText⟩ ∧ op.after h s = h) ∧
    ∀ (st : State) (s : σ), st.history = h →
      (∀ line, Line.enter line st s = Line.run line ((Operation.add line).run st s).1 s) ∧
      (∀ o cfg path, cfg.historyFile = some path →
        (Session.loadHistory o cfg st s).1 = ((Operation.load path).run st s).1) ∧
      ∀ flag a path rest, Builtin.FileAction.ofOption? flag = some a →
        ∀ file, st.resolve path = .ok file →
          (Builtin.history.run (flag :: path :: rest) st s).2 =
            (Operation.file a file).run st s := by
  have hs : Sound h := Sound.of_steps hr
  refine ⟨hs.saved_le, ?_, fun e he => ?_, fun op s => ?_, ?_, ?_⟩
  · rw [unsaved, List.length_drop]
    have := hs.saved_le
    omega
  · simpa [Text.blank] using hs.blank e he
  · have hc := op.change h s
    refine ⟨hc.entries_prefix, hc.saved_le hs, fun e he => ?_⟩
    rw [he] at hc
    exact hc.eq_of_error
  · intro s path b line n hb hn ht op hop
    have hentries := entriesIn_of_not_text hb hn ht
    have herror : op.result h s = (.error ⟨path, .notText⟩, h, s) := by
      rcases List.mem_pair.1 hop with rfl | rfl
      · rw [Operation.result, load_of_error h s path hentries]
      · rw [Operation.result, Builtin.FileAction.apply, readFrom_of_error h s path hentries]
    rw [Operation.after, herror]
    exact ⟨rfl, rfl⟩
  · intro st s _
    refine ⟨fun line => rfl, fun o cfg path hcfg => Session.loadHistory_eq o hcfg st s, ?_⟩
    exact fun flag a path rest hflag file hfile => Builtin.runHistory_eq hflag hfile rest s

/-- A machine with a file whose second line is not text, and the device that has no room. -/
def besideBroken : Machine :=
  .ofDisk (Disk.base.install [] "/broken" (.file [111, 110, 101, 10, 255, 10, 50, 10] {})) "/" [] []

/-- A line is recorded; then appending it fails after the file was opened, and reading a file fails
at its second line. The history is that after the first step, with its entry not marked. -/
theorem operations_keep_one_entry :
    Relation.ReflTransGen (Step Machine) {} ⟨["ls -l"], 0⟩ ∧
    ((Operation.file .append "/dev/full").result ⟨["ls -l"], 0⟩ besideBroken).1 =
      .error ⟨"/dev/full", .noSpace⟩ ∧
    (Operation.file .append "/dev/full").after ⟨["ls -l"], 0⟩ besideBroken = ⟨["ls -l"], 0⟩ ∧
    ((Operation.file .read "/broken").result ⟨["ls -l"], 0⟩ besideBroken).1 =
      .error ⟨"/broken", .notText⟩ ∧
    (Operation.file .read "/broken").after ⟨["ls -l"], 0⟩ besideBroken = ⟨["ls -l"], 0⟩ := by
  have hadd : Step Machine {} ⟨["ls -l"], 0⟩ :=
    ⟨.add "ls -l", besideBroken, by decide +kernel⟩
  have hr : Relation.ReflTransGen (Step Machine) {} ⟨["ls -l"], 0⟩ := .single hadd
  obtain ⟨-, -, -, hop, hbroken, -⟩ := operations_keep_history hr
  have hfull : ((Operation.file .append "/dev/full").result ⟨["ls -l"], 0⟩ besideBroken).1 =
      .error ⟨"/dev/full", .noSpace⟩ := by decide +kernel
  have hread := hbroken besideBroken "/broken" [111, 110, 101, 10, 255, 10, 50, 10] [255, 10] 1
    (by decide +kernel) (by decide) (by decide +kernel) (.file .read "/broken") (by simp)
  exact ⟨hr, hfull, (hop _ _).2.2 _ hfull, hread⟩

end History
end LineShell
