import LineShell.Proofs.Operations
import LineShell.Proofs.Recording
import LineShell.Proofs.Storing

/-!
# Every entry is appended once

The mark of a history stands after the entries that have been saved. Recording lines and adding the
lines of files puts entries after the mark and leaves it where it is. Appending to a file writes the
entries after the mark, and only when that has succeeded the mark goes to their end. So one mark
serves all files: what the appends have written, one after the other, and what is still to be saved
are the entries from the first mark on (`appends_each_entry_once`).

`Event.cases` says what one operation does to the mark. For a whole run, what has to be known
besides is that entries once recorded stay in front of all later ones.

Where the entries go is another matter. An append opens its file and writes to it, whatever the path
leads to (`Event.calls_of_block?`). If the path stores what is written to it, the file holds then
what it held and after that the entries. From a device that takes everything they cannot be had back
(`nothing_appended_to_null`).
-/

namespace LineShell

variable {σ : Type} [Host σ]

namespace History

/-- Whether an operation leaves it to appends to mark entries as saved: it neither loads a file nor
replaces one. -/
def Operation.defers : Operation → Bool
  | add _ => true
  | load _ => false
  | file .read _ => true
  | file .write _ => false
  | file .append _ => true

/-- An operation at its time. -/
structure Event (σ : Type) where
  /-- The operation. -/
  op : Operation
  /-- The history that it finds. -/
  before : History
  /-- The machine that it finds. -/
  machine : σ

namespace Event

/-- The history that it leaves. -/
def after (e : Event σ) : History :=
  e.op.after e.before e.machine

/-- The calls that it makes on the machine, in order. -/
def calls (e : Event σ) : List Call :=
  (e.op.result e.before ({ machine := e.machine } : Recorded σ)).2.2.calls

/-- The block of entries that it has appended to a file, if it is an append and has succeeded. -/
def block? (e : Event σ) : Option (List String) :=
  match e.op, (e.op.result e.before e.machine).1 with
  | .file .append _, .ok _ => some e.before.unsaved
  | _, _ => none

theorem exists_of_block? {e : Event σ} {es : List String} (h : e.block? = some es) :
    ∃ path s', e.op = .file .append path ∧ es = e.before.unsaved ∧
      e.before.appendTo path e.machine = (.ok (), e.after, s') := by
  rw [block?] at h
  split at h
  next path _ hop hok =>
    refine ⟨path, (e.before.appendTo path e.machine).2.2, hop, (Option.some.inj h).symm, ?_⟩
    rw [after, Operation.after, hop]
    rw [hop] at hok
    exact Prod.ext hok rfl
  next => cases h

/-- **What an operation does to the mark.** A successful append writes the entries after it and puts
it at their end. Every other operation that defers saving puts entries after those that are
there. -/
theorem cases {e : Event σ} (hop : e.op.defers) :
    (e.block? = some e.before.unsaved ∧ e.after = e.before.markSaved) ∨
      (e.block? = none ∧ ∃ es, e.after = e.before.extend es) := by
  obtain ⟨op, h, s⟩ := e
  cases op with
  | load path => cases hop
  | add line =>
    refine .inr ⟨rfl, ?_⟩
    have hadd : (⟨.add line, h, s⟩ : Event σ).after = h.add line := rfl
    rw [hadd, add]
    split_ifs
    · exact ⟨[], (extend_nil h).symm⟩
    · exact ⟨[line], rfl⟩
  | file a path =>
    cases a with
    | write => cases hop
    | read =>
      refine .inr ⟨rfl, ?_⟩
      rw [after, Operation.after, Operation.result, Builtin.FileAction.apply]
      cases hes : entriesIn s path with
      | error err =>
        rw [readFrom_of_error h s path hes]
        exact ⟨[], (extend_nil h).symm⟩
      | ok es =>
        rw [readFrom_of_ok h s path hes]
        exact ⟨es, rfl⟩
    | append =>
      rcases hw : writeEntries path .append h.unsaved s with ⟨err | _, s'⟩
      · have hresult : (Operation.file .append path).result h s = (.error err, h, s') := by
          rw [Operation.result, Builtin.FileAction.apply, appendTo, hw]
        refine .inr ⟨?_, [], ?_⟩
        · simp [block?, hresult]
        · rw [after, Operation.after, hresult, extend_nil]
      · have hresult : (Operation.file .append path).result h s = (.ok (), h.markSaved, s') := by
          rw [Operation.result, Builtin.FileAction.apply, appendTo, hw]
        refine .inl ⟨?_, ?_⟩
        · simp [block?, hresult]
        · rw [after, Operation.after, hresult]

end Event

/-- Operations one after the other, each on the machine of its own time. -/
def events (h : History) : List (Operation × σ) → List (Event σ)
  | [] => []
  | (op, s) :: rest => ⟨op, h, s⟩ :: events (op.after h s) rest

/-- The history after operations. -/
def afterAll (h : History) : List (Operation × σ) → History
  | [] => h
  | (op, s) :: rest => afterAll (op.after h s) rest

/-- Entries stay in front of all later ones. -/
theorem prefix_afterAll (h : History) (ops : List (Operation × σ)) :
    h.entries <+: (afterAll h ops).entries := by
  induction ops generalizing h with
  | nil => exact List.prefix_rfl
  | cons p rest ih =>
    have hstep := p.1.change h p.2
    exact List.IsPrefix.trans hstep.entries_prefix (ih _)

/-- **The blocks and what is still to be saved are the entries from the mark on.** -/
theorem flatten_blocks {h : History} (hs : h.saved ≤ h.entries.length) (ops : List (Operation × σ))
    (hops : ∀ p ∈ ops, p.1.defers) :
    ((events h ops).filterMap Event.block?).flatten ++ (afterAll h ops).unsaved =
      (afterAll h ops).entries.drop h.saved := by
  induction ops generalizing h with
  | nil => rfl
  | cons p rest ih =>
    obtain ⟨op, s⟩ := p
    rw [List.forall_mem_cons] at hops
    rcases Event.cases (e := ⟨op, h, s⟩) hops.1 with ⟨hblock, hafter⟩ | ⟨hblock, es, hafter⟩
    · -- the mark goes to the end of the entries, and all later ones come after it
      have hafter : op.after h s = h.markSaved := hafter
      have hrest := ih (h := h.markSaved) (Nat.le_refl _) hops.2
      obtain ⟨later, hlater⟩ := prefix_afterAll h.markSaved rest
      have hlater : h.entries ++ later = (afterAll h.markSaved rest).entries := hlater
      have hmark : h.markSaved.saved = h.entries.length := rfl
      rw [← hlater, hmark, List.drop_left] at hrest
      rw [events, afterAll, hafter, List.filterMap_cons, hblock, List.flatten_cons,
        List.append_assoc, hrest, ← hlater, List.drop_append_of_le_length hs]
      rfl
    · have hafter : op.after h s = h.extend es := hafter
      have hle : (h.extend es).saved ≤ (h.extend es).entries.length :=
        hs.trans (by simp [extend])
      rw [events, afterAll, hafter, List.filterMap_cons, hblock]
      exact ih hle hops.2

/-- A successful append opens the file for appending and writes the entries after the mark, each on
a line of its own. -/
theorem puts_of_appendTo {h h' : History} {path : String} {s s' : σ}
    (ha : h.appendTo path s = (.ok (), h', s')) :
    h' = h.markSaved ∧ Host.Puts path .append (toBytes h.unsaved) s s' := by
  rw [appendTo] at ha
  rcases hw : writeEntries path .append h.unsaved s with ⟨e | _, s₁⟩ <;> rw [hw] at ha
  · cases (Prod.mk.inj ha).1
  · obtain ⟨rfl, rfl⟩ := Prod.mk.inj (Prod.mk.inj ha).2
    exact ⟨rfl, Host.writeEntries_eq_ok_iff.1 hw⟩

theorem appendTo_of_puts {h : History} {path : String} {s s' : σ}
    (hp : Host.Puts path .append (toBytes h.unsaved) s s') :
    h.appendTo path s = (.ok (), h.markSaved, s') := by
  rw [appendTo, Host.writeEntries_eq_ok_iff.2 hp]

/-- What is put into a file takes two calls. -/
theorem calls_of_puts {path : String} {mode : WriteMode} {b : Bytes} {r r' : Recorded σ}
    (hp : Host.Puts path mode b r r') :
    ∃ file, r'.calls = r.calls ++ [.create path mode (.ok file), .write file b (.ok ())] := by
  obtain ⟨file, r₁, hc, hw⟩ := hp
  have hcreate := Recorded.calls_create path mode r
  have hwrite := Recorded.calls_write file b r₁
  simp only [hc, hw] at hcreate hwrite
  exact ⟨file, by simp [hwrite, hcreate]⟩

/-- The calls of a successful append. -/
theorem Event.calls_of_block? {e : Event σ} {es : List String} (h : e.block? = some es) :
    ∃ path file, e.op = .file .append path ∧
      e.calls = [.create path .append (.ok file), .write file (toBytes es) (.ok ())] := by
  obtain ⟨path, s', hop, rfl, happend⟩ := exists_of_block? h
  have hmap := e.before.appendTo_map Recorded.forget path { machine := e.machine }
  rcases hr : e.before.appendTo path ({ machine := e.machine } : Recorded σ) with ⟨result, h', r'⟩
  obtain ⟨rfl, -⟩ := Prod.mk.inj (happend.symm.trans (hr ▸ hmap))
  obtain ⟨file, hcalls⟩ := calls_of_puts (puts_of_appendTo hr).2
  refine ⟨path, file, hop, ?_⟩
  rw [calls, hop, Operation.result, Builtin.FileAction.apply]
  simpa [hr] using hcalls

/-- **Every entry is appended once.** Take any history that operations have made, and go on with any
operations of which none loads a file or replaces one, each on any machine and with any failures.
The blocks of the appends that have succeeded, one after the other, and then the entries that are
still to be saved are the entries from the first mark on. Such an append makes two calls: it opens
its file for appending, and it writes its block there, each entry followed by a line feed. If the
path stores what is written to it, reading it gives then what reading it gave before, and after that
the block; a file that could not be read counts as empty.

On the machines at hand regular files and missing ones store what is written to them. The device
that takes everything does not: appending to it succeeds, the disk stays as it is, and reading the
device gives nothing, before and after. -/
theorem appends_each_entry_once {h : History} (hr : Relation.ReflTransGen (Step σ) {} h)
    {ops : List (Operation × σ)} (hops : ∀ p ∈ ops, p.1.defers) :
    ((events h ops).filterMap Event.block?).flatten ++ (afterAll h ops).unsaved =
      (afterAll h ops).entries.drop h.saved ∧
    (∀ e ∈ events h ops, ∀ es, e.block? = some es →
      ∃ path, e.op = .file .append path ∧
        (∃ file, e.calls =
          [.create path .append (.ok file), .write file (toBytes es) (.ok ())]) ∧
        ∃ s', e.op.result e.before e.machine = (.ok (), e.after, s') ∧
          (Host.Stores e.machine path →
            Host.read s' path =
              .ok ((Host.read e.machine path).toOption.getD [] ++ toBytes es))) ∧
    ∀ (m : Machine) (path : String) (g : History),
      (∀ old, m.Holds path old → Host.Stores m path ∧
        ∃ m', g.appendTo path m = (.ok (), g.markSaved, m') ∧
          m'.Holds path (some (old.getD [] ++ toBytes g.unsaved))) ∧
      (m.Discards path →
        ∃ m', g.appendTo path m = (.ok (), g.markSaved, m') ∧ m'.disk = m.disk ∧
          Host.read m path = .ok [] ∧ Host.read m' path = .ok []) := by
  refine ⟨flatten_blocks (Sound.of_steps hr).saved_le ops hops, fun e _ es hes => ?_,
    fun m path g => ⟨fun old hold => ⟨hold.stores, ?_⟩, fun hnull => ?_⟩⟩
  · obtain ⟨path, file, hop, hcalls⟩ := e.calls_of_block? hes
    obtain ⟨path', s', hop', rfl, happend⟩ := Event.exists_of_block? hes
    obtain rfl : path = path' := (Operation.file.inj (hop.symm.trans hop')).2
    refine ⟨path, hop, ⟨file, hcalls⟩, s', ?_, fun hs => ?_⟩
    · rw [hop]
      exact happend
    · exact hs _ .refl _ _ _ (puts_of_appendTo happend).2
  · obtain ⟨m', hp⟩ := hold.writable m .refl .append (toBytes g.unsaved)
    exact ⟨m', appendTo_of_puts hp, hold.holds_of_puts hp⟩
  · obtain ⟨m', hp, hdisk, -⟩ := hnull.exists_puts .append (toBytes g.unsaved)
    exact ⟨m', appendTo_of_puts hp, hdisk, hnull.read_eq, (hnull.of_puts hp).1.read_eq⟩

/-- A machine with a file `/f` that holds a line without a line feed, and the device that has no
room. -/
def besideLine : Machine :=
  .ofDisk (Disk.base.install [] "/f" (.file (Bytes.ofText "old") {})) "/" [] []

theorem besideLine_holds : besideLine.Holds "/f" (some (Bytes.ofText "old")) := by
  have hwalk : Walk.runToMake besideLine.disk (Walk.origin besideLine.cwd "/f")
      (Walk.names "/f") = .ok (.found ["f"]) := by decide +kernel
  have hget : besideLine.disk.get? ["f"] = some (.file (Bytes.ofText "old") {}) := by
    decide +kernel
  exact .file (by decide +kernel) hwalk hget

/-- The entries are appended to the device, the line of `/f` is added, the entries are appended to
`/f`, and a line is recorded. -/
def appendTwice : List (Operation × Machine) :=
  [(.file .append "/dev/full", besideLine), (.file .read "/f", besideLine),
    (.file .append "/f", besideLine), (.add "pwd", besideLine)]

/-- The first append fails, so the second one writes the entry that is there and the one that came
in between; the line that is recorded last is still to be saved. -/
theorem appends_each_entry_once_besideLine :
    (∀ p ∈ appendTwice, p.1.defers) ∧
    (events ⟨["ls"], 0⟩ appendTwice).filterMap Event.block? = [["ls", "old"]] ∧
    (afterAll ⟨["ls"], 0⟩ appendTwice).unsaved = ["pwd"] ∧
    [["ls", "old"]].flatten ++ ["pwd"] = (afterAll ⟨["ls"], 0⟩ appendTwice).entries.drop 0 ∧
    ∃ m', History.appendTo ⟨["ls", "old"], 0⟩ "/f" besideLine = (.ok (), ⟨["ls", "old"], 2⟩, m') ∧
      Host.read m' "/f" = .ok (Bytes.ofText "oldls\nold\n") := by
  have hstep : Step Machine {} ⟨["ls"], 0⟩ := ⟨.add "ls", besideLine, by decide +kernel⟩
  have hops : ∀ p ∈ appendTwice, p.1.defers := by decide
  have hblocks : (events ⟨["ls"], 0⟩ appendTwice).filterMap Event.block? = [["ls", "old"]] := by
    decide +kernel
  have hunsaved : (afterAll ⟨["ls"], 0⟩ appendTwice).unsaved = ["pwd"] := by decide +kernel
  obtain ⟨hflatten, -, hfile⟩ := appends_each_entry_once (.single hstep) hops
  rw [hblocks, hunsaved] at hflatten
  refine ⟨hops, hblocks, hunsaved, hflatten, ?_⟩
  obtain ⟨-, m', happend, hholds⟩ :=
    (hfile besideLine "/f" ⟨["ls", "old"], 0⟩).1 _ besideLine_holds
  exact ⟨m', happend, hholds.read_eq.trans (by decide +kernel)⟩

/-- **What is appended to the device that takes everything is not stored.** The append succeeds, so
its block counts as saved. Reading the device succeeds as well, and gives nothing before and nothing
after. -/
theorem nothing_appended_to_null :
    Relation.ReflTransGen (Step Machine) {} ⟨["ls"], 0⟩ ∧
    (events ⟨["ls"], 0⟩ [(.file .append "/dev/null", besideLine)]).filterMap Event.block? =
      [["ls"]] ∧
    Host.read besideLine "/dev/null" = .ok [] ∧
    (History.appendTo ⟨["ls"], 0⟩ "/dev/null" besideLine).1 = .ok () ∧
    Host.read (History.appendTo ⟨["ls"], 0⟩ "/dev/null" besideLine).2.2 "/dev/null" = .ok [] ∧
    [] ≠ [] ++ toBytes ["ls"] := by
  have hstep : Step Machine {} ⟨["ls"], 0⟩ := ⟨.add "ls", besideLine, by decide +kernel⟩
  refine ⟨.single hstep, ?_, ?_, ?_, ?_, ?_⟩
  all_goals decide +kernel

end History
end LineShell
