import LineShell.Machine.Setup
import LineShell.Proofs.FileContent
import LineShell.Proofs.FileLines
import LineShell.Proofs.InputLines

/-!
# What a session leaves in its history file

A session whose lines spare the history file (`Course.Spares`) appends to it the lines that were
entered, one by one and nothing else; if it ends at a line that is not text it leaves the file as it
is (`session_appends_lines`).

Whether the next session finds the same history hangs on one thing. If the file was not empty and
did not end in a line feed, the first line that is appended continues the last line of the file. So
the history that is read back is the one at the end of the session exactly if the file was finished
or no line was entered (`reload_eq_iff`). `merged_on_reload` is a session after which it is not.
-/

namespace LineShell
namespace History

variable {m : Machine} {path : String}

/-- Loading a file that holds text gives its entries, all of them marked as saved. -/
theorem load_of_holds {b : Bytes} {es : List String} (h : m.Holds path (some b))
    (hb : ofBytes? b = some es) (start : History) :
    start.load m path = (.ok es.length, (start.extend es).markSaved) :=
  load_of_ok start m path (by simp [entriesIn, h.read_eq, hb])

theorem load_of_missing (h : m.Holds path none) (start : History) :
    start.load m path = (.error ⟨path, .noEntry⟩, start) :=
  load_of_error start m path (by simp [entriesIn, h.read_of_missing])

end History

namespace Session

open History

variable {limit : Nat} {o : Options} {env : Environment} {m : Machine} {path : String}

theorem historyFile_settings (hpath : env.historyFile = some path) (hne : path ≠ "") :
    (settings o env).historyFile = some path := by
  simp [settings, Startup.ofSettings, hpath, Option.filter, hne]

/-- A session starts from the entries that its history file holds. -/
theorem entries_seeded {old : Option Bytes} {es : List String}
    (hpath : env.historyFile = some path) (hne : path ≠ "") (hold : m.Holds path old)
    (hes : ofBytes? (old.getD []) = some es) : (seeded o env m).1.history.entries = es := by
  rw [seeded, loadHistory_eq o (historyFile_settings hpath hne), Operation.run, Operation.after,
    Operation.result]
  cases old with
  | none =>
    rw [load_of_missing hold]
    exact Option.some.inj hes
  | some b =>
    rw [load_of_holds hold hes]
    rfl

/-- Saving the history appends what has not been saved. -/
theorem holds_finish {old : Option Bytes} (hpath : env.historyFile = some path) (hne : path ≠ "")
    (st : State) (hold : m.Holds path old) :
    (finish o (settings o env) st m).Holds path
      (some (old.getD [] ++ toBytes st.history.unsaved)) := by
  obtain ⟨m', hwrite, hholds⟩ := hold.writeEntries_append st.history.unsaved
  simpa [finish, historyFile_settings hpath hne, appendTo, hwrite] using hholds

/-- No line that is run is a lone `history`, and none changes what a file holds. -/
def Course.Spares (c : Course Machine) (path : String) : Prop :=
  ∀ r ∈ c.executed, Line.loneWord? r.line ≠ some "history" ∧
    ∀ content, r.s.Holds path content → r.after.Holds path content

/-- A file that is spared holds at the end of a course what it held. -/
theorem holds_course {old : Option Bytes} (hold : m.Holds path old)
    (hspares : (course limit o env m).Spares path) : (course limit o env m).s.Holds path old := by
  refine keeps_course (P := fun m : Machine => m.Holds path old) ?_ ?_ ?_ hold
  · exact fun b m h => h.congr rfl rfl
  · intro m h
    obtain ⟨readAhead, input, hnext⟩ := m.exists_nextLine
    have hnext : (Host.nextLine m).2 = { m with readAhead, input } := hnext
    rw [hnext]
    exact h.congr rfl rfl
  · exact fun r hr h => (hspares r hr).2 old h

/-- **What a session writes to its history file.** Let the file hold any bytes, or be missing in a
directory, and let no line that is run be a lone `history` or change what the file holds. When the
session ends with a status, at the end of its input or because a startup line or a line of input
ended it, the file holds what it held and then each line of input that was read and is not blank,
followed by a line feed. When the session ends otherwise the file is as it was, and that is when a
line that it read is not text. The lines that were read are those of the input in their order, if no
program takes some of it; lines are left only after one that ended the session. -/
theorem session_appends_lines {m' : Machine} {result : Except Abort Nat} {old : Option Bytes}
    (hpath : env.historyFile = some path) (hne : path ≠ "") (hold : m.Holds path old)
    (hspares : (course limit o env m).Spares path) (hrun : run limit o env m = (result, m')) :
    (∀ n, result = .ok n →
      m'.Holds path (some (old.getD [] ++ toBytes (course limit o env m).entered)) ∧
      Host.read m' path = .ok (old.getD [] ++ toBytes (course limit o env m).entered)) ∧
    (∀ e, result = .error e → m'.Holds path old) ∧
    ((∃ e, result = .error e) ↔ ∃ t ∈ (course limit o env m).turns, t.line? = none) ∧
    ((∀ r ∈ (course limit o env m).executed, r.after.unread = r.s.unread) →
      (Bytes.lines m.unread).length ≤ limit →
      ∃ rest, Bytes.lines m.unread = (course limit o env m).turns.map Turn.bytes ++ rest ∧
        (rest ≠ [] →
          (∃ r n, (course limit o env m).executed.getLast? = some r ∧ r.flow = .exit n) ∨
          ∃ t, (course limit o env m).turns.getLast? = some t ∧ t.line? = none)) := by
  rw [run_eq] at hrun
  obtain ⟨rfl, rfl⟩ := Prod.mk.inj hrun
  have hend := holds_course hold hspares
  refine ⟨fun n hn => ?_, fun e he => ?_, error_course_iff, lines_course⟩
  · have hsaved := holds_finish (o := o) hpath hne (course limit o env m).st hend
    rw [unsaved_course fun r hr => (hspares r hr).1] at hsaved
    rw [hn]
    exact ⟨hsaved, hsaved.read_eq⟩
  · rw [he]
    exact hend

/-- Lines that leave the disk alone spare every file. -/
theorem Course.spares_of_disk {c : Course Machine}
    (h : ∀ r ∈ c.executed, Line.loneWord? r.line ≠ some "history" ∧ r.after.disk = r.s.disk ∧
      r.after.cwd = r.s.cwd) (path : String) : c.Spares path := by
  intro r hr
  obtain ⟨hword, hdisk, hcwd⟩ := h r hr
  exact ⟨hword, fun content hold => hold.congr hdisk hcwd⟩

/-- A machine with a history file `/h` that holds the given bytes, a startup file `/rc` that prints
a word, and the given input. -/
def remembering (content input : Bytes) : Machine :=
  .ofDisk ((Disk.base.install [] "/h" (.file content {})).install [] "/rc"
    (.file (Bytes.ofText "echo hello\n") {})) "/" [] input

/-- What a session finds that starts in the root and keeps its history in `/h`. -/
def inRoot : Environment :=
  { cwd := "/", home := none, path := none, historyFile := some "/h" }

/-- The options of a session that starts with the lines of `/rc`. -/
def greeting : Options :=
  { config := some "/rc" }

/-- A history file that is no text and does not end in a line feed, and four lines of input: the
second one is blank and the third one ends the session. -/
def beforeFourLines : Machine :=
  remembering [255, 111] (Bytes.ofText "echo a\r\n \t\nexit 3\necho late\n")

/-- The two lines that are entered are appended to the file, the first one without its carriage
return; the startup line and the line after `exit` are not. -/
theorem session_appends_two_lines :
    ∃ m', run 9 greeting inRoot beforeFourLines = (.ok 3, m') ∧
      Host.read m' "/h" = .ok ([255, 111] ++ Bytes.ofText "echo a\nexit 3\n") := by
  have hresult : (run 9 greeting inRoot beforeFourLines).1 = .ok 3 := by decide +kernel
  have hentered : (course 9 greeting inRoot beforeFourLines).entered = ["echo a", "exit 3"] := by
    decide +kernel
  have hspares : (course 9 greeting inRoot beforeFourLines).Spares "/h" :=
    Course.spares_of_disk (by decide +kernel) "/h"
  have hwalk : Walk.runToMake beforeFourLines.disk (Walk.origin beforeFourLines.cwd "/h")
      (Walk.names "/h") = .ok (.found ["h"]) := by decide +kernel
  have hget : beforeFourLines.disk.get? ["h"] = some (.file [255, 111] {}) := by decide +kernel
  have hold : beforeFourLines.Holds "/h" (some [255, 111]) :=
    .file (by decide +kernel) hwalk hget
  have hpath : inRoot.historyFile = some "/h" := rfl
  rcases hrun : run 9 greeting inRoot beforeFourLines with ⟨result, m'⟩
  rw [hrun] at hresult
  obtain rfl : result = .ok 3 := hresult
  have hread := ((session_appends_lines hpath (by decide) hold hspares hrun).1 3 rfl).2
  rw [hentered] at hread
  exact ⟨m', rfl, hread⟩

/-- What is entered can be stored, if the lines that are read hold no carriage return. -/
theorem storable_of_mem_entered
    (hreturn : ∀ t ∈ (course limit o env m).turns, Bytes.carriageReturn ∉ t.bytes) {e : String}
    (he : e ∈ (course limit o env m).entered) : Storable e := by
  obtain ⟨t, ht, hte⟩ := List.mem_filterMap.1 he
  obtain ⟨htext, hblank⟩ := Option.filter_eq_some_iff.1 hte
  have hbytes : t.bytes.chomp = Bytes.ofText e := Bytes.text?_eq_some_iff.1 htext
  have hfeed : Bytes.lineFeed ∉ t.bytes.dropLast := by
    rcases course_cases limit o env m with ⟨-, -, hnil, -⟩ | ⟨_, _, -, htaken⟩
    · rw [hnil] at ht
      cases ht
    · exact htaken.lineFeed_not_mem ht
  refine ⟨by simpa using hblank, fun hmem => ?_, fun hmem => ?_⟩
  · refine Bytes.lineFeed_not_mem_chomp hfeed ?_
    rw [hbytes]
    exact Bytes.lineFeed_mem_ofText.2 hmem
  · refine hreturn t ht (Bytes.mem_of_mem_chomp ?_)
    rw [hbytes]
    exact Bytes.carriageReturn_mem_ofText.2 hmem

/-- **When the next session finds the history of this one.** Let the history file hold text, or be
missing in a directory, let no line that is run be a lone `history` or change what the file holds,
and let the lines that are read hold no carriage return. A session that ends with a status holds at
its end the entries of the file followed by the lines that were entered. The file can then be
loaded, and gives back just these entries if it was finished or no line was entered; in every other
case it gives back other ones. -/
theorem reload_eq_iff {m' : Machine} {n : Nat} {old : Option Bytes}
    (hpath : env.historyFile = some path) (hne : path ≠ "") (hold : m.Holds path old)
    (htext : (Bytes.text? (old.getD [])).isSome)
    (hspares : (course limit o env m).Spares path)
    (hreturn : ∀ t ∈ (course limit o env m).turns, Bytes.carriageReturn ∉ t.bytes)
    (hrun : run limit o env m = (.ok n, m')) :
    ∃ before after : List String, ofBytes? (old.getD []) = some before ∧
      (course limit o env m).st.history.entries = before ++ (course limit o env m).entered ∧
      History.load {} m' path = (.ok after.length, ⟨after, after.length⟩) ∧
      (after = (course limit o env m).st.history.entries ↔
        (old.getD []).Finished ∨ (course limit o env m).entered = []) := by
  have hcommand (r) (hr : r ∈ (course limit o env m).executed) := (hspares r hr).1
  rw [run_eq] at hrun
  obtain ⟨hresult, rfl⟩ := Prod.mk.inj hrun
  obtain ⟨before, hbefore⟩ := Option.isSome_iff_exists.1 ((isSome_ofBytes? _).2 htext)
  obtain ⟨after, hafter, hiff⟩ := ofBytes?_append_toBytes hbefore
    (fun e he => storable_of_mem_entered hreturn he)
  have hentries : (course limit o env m).st.history.entries =
      before ++ (course limit o env m).entered := by
    rw [history_course hcommand, History.extend, entries_seeded hpath hne hold hbefore]
  have hsaved := holds_finish (o := o) hpath hne (course limit o env m).st
    (holds_course hold hspares)
  rw [unsaved_course hcommand] at hsaved
  refine ⟨before, after, hbefore, hentries, ?_, ?_⟩
  · rw [hresult]
    exact (load_of_holds hsaved hafter {}).trans (by simp [History.extend, History.markSaved])
  · rw [hentries]
    exact hiff

/-- A history file that ends in a line feed, and a line of input. -/
def afterFinished : Machine :=
  remembering (Bytes.ofText "old\n") (Bytes.ofText "echo b\n")

/-- After a file that is finished, the next session finds the entry of the file and the line that
was entered. -/
theorem reload_after_finished :
    ∃ m', run 9 {} inRoot afterFinished = (.ok 0, m') ∧
      History.load {} m' "/h" = (.ok 2, ⟨["old", "echo b"], 2⟩) := by
  have hresult : (run 9 {} inRoot afterFinished).1 = .ok 0 := by decide +kernel
  have hentries : (course 9 {} inRoot afterFinished).st.history.entries = ["old", "echo b"] := by
    decide +kernel
  have hspares : (course 9 {} inRoot afterFinished).Spares "/h" :=
    Course.spares_of_disk (by decide +kernel) "/h"
  have hwalk : Walk.runToMake afterFinished.disk (Walk.origin afterFinished.cwd "/h")
      (Walk.names "/h") = .ok (.found ["h"]) := by decide +kernel
  have hget : afterFinished.disk.get? ["h"] = some (.file (Bytes.ofText "old\n") {}) := by
    decide +kernel
  have hold : afterFinished.Holds "/h" (some (Bytes.ofText "old\n")) :=
    .file (by decide +kernel) hwalk hget
  have htext : (Bytes.text? ((some (Bytes.ofText "old\n")).getD [])).isSome := by decide +kernel
  have hreturn : ∀ t ∈ (course 9 {} inRoot afterFinished).turns,
      Bytes.carriageReturn ∉ t.bytes := by decide +kernel
  have hpath : inRoot.historyFile = some "/h" := rfl
  rcases hrun : run 9 {} inRoot afterFinished with ⟨result, m'⟩
  rw [hrun] at hresult
  obtain rfl : result = .ok 0 := hresult
  obtain ⟨before, after, -, -, hload, hiff⟩ :=
    reload_eq_iff hpath (by decide) hold htext hspares hreturn hrun
  have hafter : after = ["old", "echo b"] := (hiff.2 (.inl (by decide +kernel))).trans hentries
  rw [hafter] at hload
  exact ⟨m', rfl, hload⟩

/-- A history file that holds a line without a line feed, and a line of input. -/
def afterUnfinished : Machine :=
  remembering (Bytes.ofText "old") (Bytes.ofText "echo b\n")

/-- **The entries that are lost.** At its end the session holds the entry of the file and the line
that was entered. The file then holds one line, and the next session finds one entry that nobody has
entered. -/
theorem merged_on_reload :
    (run 9 {} inRoot afterUnfinished).1 = .ok 0 ∧
    (course 9 {} inRoot afterUnfinished).st.history.entries = ["old", "echo b"] ∧
    Host.read (run 9 {} inRoot afterUnfinished).2 "/h" = .ok (Bytes.ofText "oldecho b\n") ∧
    History.load {} (run 9 {} inRoot afterUnfinished).2 "/h" = (.ok 1, ⟨["oldecho b"], 1⟩) := by
  decide +kernel

end Session
end LineShell
