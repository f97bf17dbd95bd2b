import LineShell.Proofs.Appending

/-!
# A history file gives back what was written to it

Writing puts one entry on each line, and reading takes lines apart by rules of its own: it drops the
ending of a line, with a carriage return in front of it, and passes over blank lines. For entries
without a line feed the two fit together. Each comes back as it was, less one carriage return at its
end (`ofBytes?_toBytes`); none is passed over, since without that return it is as little blank as
before.

Where a path can be written to, writing a history to it succeeds, and so does recording lines and
appending them (`Filed.step` for one operation, `Filed.perform` for any number). If the path stores
what is written to it, the entries are in the file up to the mark all the time. So they can be read
back: `reads_back_what_was_written`. From any other path comes what reading it gives
(`readFrom_eq`), and that may be nothing (`not_all_read_back`).
-/

namespace LineShell

namespace Text

/-- A text without the carriage return at its end, if it has one. -/
def withoutReturn (s : String) : String :=
  if s.toList.getLast? = some '\r' then String.ofList s.toList.dropLast else s

/-- A text that is not blank is not blank without its carriage return. -/
theorem blank_withoutReturn {s : String} (h : blank s = false) : blank (withoutReturn s) = false := by
  rw [withoutReturn]
  split_ifs with hlast
  · obtain ⟨cs, hcs⟩ := List.getLast?_eq_some_iff.1 hlast
    have hreturn : isBlank '\r' = true := by decide
    rw [blank, hcs, List.all_append, List.all_cons, List.all_nil, hreturn] at h
    rw [blank, String.toList_ofList, hcs, List.dropLast_concat]
    simpa using h
  · exact h

end Text

namespace Bytes

/-- The encoding of a text ends in a carriage return only if the text does. -/
theorem getLast?_of_ofText {s : String} (h : (ofText s).getLast? = some carriageReturn) :
    s.toList.getLast? = some '\r' := by
  rw [ofText_eq_flatMap] at h
  rcases List.eq_nil_or_concat s.toList with hnil | ⟨cs, c, hcs⟩
  · simp [hnil] at h
  · rw [hcs, List.concat_eq_append] at h ⊢
    rw [List.flatMap_append, List.flatMap_singleton,
      List.getLast?_append_of_ne_nil _ String.utf8EncodeChar_ne_nil] at h
    have hc : c.toNat = carriageReturn.toNat :=
      (eq_of_mem_utf8EncodeChar (List.mem_of_getLast? h) (by decide)).2
    have hreturn : c = '\r' := by
      rw [← Char.ofNat_toNat c, hc]
      rfl
    rw [hreturn, List.getLast?_concat]

/-- **A text on a line is read without its carriage return.** -/
theorem spells_withoutReturn {t : String} (hfeed : '\n' ∉ t.toList) :
    Spells (ofLine t) [Text.withoutReturn t] := by
  by_cases hlast : t.toList.getLast? = some '\r'
  · obtain ⟨cs, hcs⟩ := List.getLast?_eq_some_iff.1 hlast
    have hread : Text.withoutReturn t = String.ofList cs := by
      rw [Text.withoutReturn, if_pos hlast, hcs, List.dropLast_concat]
    have hbytes : ofText t = ofText (String.ofList cs) ++ [carriageReturn] := by
      rw [ofText_eq_flatMap, ofText_eq_flatMap, hcs, String.toList_ofList, List.flatMap_append,
        List.flatMap_singleton]
      rfl
    have hchomp : chomp (ofText t ++ [lineFeed]) = ofText (String.ofList cs) := by
      rw [chomp, if_pos (List.getLast?_concat ..), List.dropLast_concat, hbytes,
        if_pos (List.getLast?_concat ..), List.dropLast_concat]
    rw [Spells, ofLine, lines_concat (lineFeed_mem_ofText.not.2 hfeed), hread]
    simp [hchomp]
  · have hread : Text.withoutReturn t = t := by
      rw [Text.withoutReturn, if_neg hlast]
    rw [hread]
    exact Spells.ofLine hfeed fun h => hlast (getLast?_of_ofText h)

end Bytes

namespace History

open Bytes

variable {σ : Type} [Host σ]

theorem toBytes_append (es fs : List String) : toBytes (es ++ fs) = toBytes es ++ toBytes fs := by
  simp [toBytes]

/-- **What is read of written entries.** -/
theorem ofBytes?_toBytes {es : List String} (hblank : ∀ e ∈ es, Text.blank e = false)
    (hfeed : ∀ e ∈ es, '\n' ∉ e.toList) :
    ofBytes? (toBytes es) = some (es.map Text.withoutReturn) := by
  have hspells : Spells (toBytes es) (es.map Text.withoutReturn) := by
    clear hblank
    induction es with
    | nil => rfl
    | cons e es ih =>
      rw [List.forall_mem_cons] at hfeed
      exact (spells_withoutReturn hfeed.1).append (finished_concat _) (ih hfeed.2)
  refine ofBytes?_eq_some_iff.2 ⟨_, hspells, (List.filter_eq_self.2 fun t ht => ?_).symm⟩
  obtain ⟨e, he, rfl⟩ := List.mem_map.1 ht
  rw [Text.blank_withoutReturn (hblank e he)]
  rfl

/-- Operations one after the other on one machine, up to the first that fails. -/
def perform : List Operation → History → σ → Except FileError Unit × History × σ
  | [], h, s => (.ok (), h, s)
  | op :: ops, h, s =>
    match op.result h s with
    | (.error e, h, s) => (.error e, h, s)
    | (.ok _, h, s) => perform ops h s

/-- The operations that go on with a file: a line without a line feed is recorded, or what has not
been saved is appended to the file. -/
inductive Continues (path : String) : Operation → Prop where
  /-- A line is recorded. -/
  | add {line : String} (hfeed : '\n' ∉ line.toList) : Continues path (.add line)
  /-- Entries are appended. -/
  | append : Continues path (.file .append path)

/-- The entry that an operation records. -/
def Operation.recorded? : Operation → Option String
  | add line => if Text.blank line then none else some line
  | _ => none

/-- What is known of a history and a machine since the history was written to a file: only the file
has been written to, and if it stores what is written, it holds the entries up to the mark. -/
structure Filed (start : σ) (path : String) (h : History) (s : σ) : Prop extends Sound h where
  /-- No entry takes more than a line. -/
  lineFeed : ∀ e ∈ h.entries, '\n' ∉ e.toList
  /-- The machine has come about by writing to the file. -/
  later : Host.Later path start s
  /-- The file holds the entries up to the mark. -/
  stored : Host.Stores start path → Host.read s path = .ok (toBytes (h.entries.take h.saved))

section Filed

variable {start s : σ} {h : History} {path : String}

theorem take_markSaved (h : History) : h.markSaved.entries.take h.markSaved.saved = h.entries :=
  List.take_length

/-- A history that has been written to a file is in it. -/
theorem Filed.of_write (hw : Host.Writable start path) (hs : Sound h)
    (hfeed : ∀ e ∈ h.entries, '\n' ∉ e.toList) :
    ∃ s', (Operation.file .write path).result h start = (.ok (), h.markSaved, s') ∧
      Filed start path h.markSaved s' := by
  obtain ⟨s', hp⟩ := hw start .refl .truncate (toBytes h.entries)
  have hresult : h.writeTo path start = (.ok (), h.markSaved, s') := by
    rw [writeTo, Host.writeEntries_eq_ok_iff.2 hp]
  refine ⟨s', hresult, ⟨Nat.le_refl _, hs.blank⟩, hfeed, .single hp, fun hstores => ?_⟩
  rw [take_markSaved]
  exact hstores start .refl _ _ _ hp

/-- Recording a line keeps a history in its file: the mark stays where it is, among the entries that
were there. -/
theorem Filed.add (hf : Filed start path h s) {line : String} (hline : '\n' ∉ line.toList) :
    Filed start path (h.add line) s := by
  rw [History.add]
  split_ifs with hblank
  · exact hf
  · have hsound : Sound (h.extend [line]) :=
      Change.sound_extend hf.toSound (by simpa using hblank)
    have htake : (h.entries ++ [line]).take h.saved = h.entries.take h.saved :=
      List.take_append_of_le_length hf.saved_le
    refine ⟨hsound, List.forall_mem_append.2 ⟨hf.lineFeed, by simpa using hline⟩, hf.later, ?_⟩
    intro hstores
    change Host.read s path = .ok (toBytes ((h.entries ++ [line]).take h.saved))
    rw [htake]
    exact hf.stored hstores

/-- What an append writes comes after the entries up to the mark. -/
theorem Filed.append (hf : Filed start path h s) {s' : σ}
    (hp : Host.Puts path .append (toBytes h.unsaved) s s') :
    Filed start path h.markSaved s' := by
  have hjoined : toBytes (h.entries.take h.saved) ++ toBytes h.unsaved = toBytes h.entries := by
    rw [← toBytes_append, unsaved, List.take_append_drop]
  refine ⟨⟨Nat.le_refl _, hf.blank⟩, hf.lineFeed, hf.later.tail ⟨_, _, hp⟩, fun hstores => ?_⟩
  rw [hstores s hf.later _ _ _ hp, hf.stored hstores, take_markSaved, ← hjoined]
  rfl

/-- **What one operation makes of a history that is in a file.** It succeeds, the history is in the
file again, and after an append that is the whole of it. -/
theorem Filed.step (hw : Host.Writable start path) (hf : Filed start path h s) {op : Operation}
    (hop : Continues path op) :
    ∃ h' s', op.result h s = (.ok (), h', s') ∧ Filed start path h' s' ∧
      h'.entries = h.entries ++ op.recorded?.toList ∧
      ((∀ line, op ≠ .add line) → h'.saved = h'.entries.length) := by
  cases hop with
  | @add line hline =>
    refine ⟨h.add line, s, rfl, hf.add hline, ?_, fun hne => absurd rfl (hne line)⟩
    rw [History.add, Operation.recorded?]
    split_ifs
    · exact (List.append_nil _).symm
    · rfl
  | append =>
    obtain ⟨s', hp⟩ := hw s hf.later .append (toBytes h.unsaved)
    exact ⟨h.markSaved, s', appendTo_of_puts hp, hf.append hp, (List.append_nil _).symm,
      fun _ => rfl⟩

/-- **What any number of operations make of it.** -/
theorem Filed.perform (hw : Host.Writable start path) (hf : Filed start path h s)
    {ops : List Operation} (hops : ∀ op ∈ ops, Continues path op) :
    ∃ h' s', perform ops h s = (.ok (), h', s') ∧ Filed start path h' s' ∧
      h'.entries = h.entries ++ ops.filterMap Operation.recorded? ∧
      ((∀ line, ops.getLast? ≠ some (.add line)) → (ops = [] → h.saved = h.entries.length) →
        h'.saved = h'.entries.length) := by
  induction ops generalizing h s with
  | nil => exact ⟨h, s, rfl, hf, (List.append_nil _).symm, fun _ hall => hall rfl⟩
  | cons op ops ih =>
    rw [List.forall_mem_cons] at hops
    obtain ⟨h₁, s₁, hresult, hf₁, hentries₁, hall₁⟩ := hf.step hw hops.1
    obtain ⟨h', s', hperform, hf', hentries', hall'⟩ := ih hf₁ hops.2
    refine ⟨h', s', ?_, hf', ?_, fun hlast _ => ?_⟩
    · rw [History.perform, hresult]
      exact hperform
    · rw [hentries', hentries₁, List.append_assoc, List.filterMap_cons]
      cases op.recorded? <;> rfl
    · cases ops with
      | nil => exact hall' (by simp) fun _ => hall₁ fun line hop => hlast line (hop ▸ rfl)
      | cons next ops =>
        rw [List.getLast?_cons_cons] at hlast
        exact hall' hlast (by simp)

/-- What is read from a file hangs on nothing but the bytes that reading it gives. -/
theorem readFrom_eq (s : σ) (path : String) :
    readFrom {} s path =
      match Host.read s path with
      | .error e => (.error ⟨path, e⟩, {})
      | .ok b =>
        match ofBytes? b with
        | none => (.error ⟨path, .notText⟩, {})
        | some es => (.ok es.length, ⟨es, 0⟩) := by
  rw [History.readFrom, entriesIn]
  cases Host.read s path with
  | error e => rfl
  | ok b => cases hb : ofBytes? b <;> simp [hb]

/-- Reading a file that a history is in gives the entries up to the mark. -/
theorem Filed.readFrom (hf : Filed start path h s) (hstores : Host.Stores start path) :
    readFrom {} s path =
      (.ok h.saved, ⟨(h.entries.take h.saved).map Text.withoutReturn, 0⟩) := by
  have hbytes : ofBytes? (toBytes (h.entries.take h.saved)) =
      some ((h.entries.take h.saved).map Text.withoutReturn) :=
    ofBytes?_toBytes (fun e he => hf.blank e (List.mem_of_mem_take he))
      fun e he => hf.lineFeed e (List.mem_of_mem_take he)
  have hlen : min h.saved h.entries.length = h.saved := Nat.min_eq_left hf.saved_le
  simp [readFrom_eq, hf.stored hstores, hbytes, hlen]

end Filed

/-- **A history file gives back what was written to it.** Take any history that operations have made
and whose entries hold no line feed, and a path that can be written to. Write the history to it, and
then record lines without a line feed and append to the file, any number of times and in any order.
All of it succeeds. If the path stores what is written to it, reading the file into a new history
succeeds too and gives the entries up to the mark, in their order, each as it was less one carriage
return at its end; how many they are is told. These are all entries unless the last thing done was
to record a line. If it does not, reading it gives an error if the path cannot be read or gives
bytes that are not text, and otherwise the entries in the bytes that it gives.

On the machines at hand regular files and missing ones can be written to and store what is written.
The device that takes everything can be written to as well, and what is read from it is always a
history without entries. -/
theorem reads_back_what_was_written {h : History} (hr : Relation.ReflTransGen (Step σ) {} h)
    (hfeed : ∀ e ∈ h.entries, '\n' ∉ e.toList) :
    (∀ (s : σ) (path : String), Host.Writable s path →
      ∀ ops : List Operation, (∀ op ∈ ops, Continues path op) →
        ∃ h' s', perform (.file .write path :: ops) h s = (.ok (), h', s') ∧
          h'.entries = h.entries ++ ops.filterMap Operation.recorded? ∧
          (Host.Stores s path →
            readFrom {} s' path =
              (.ok h'.saved, ⟨(h'.entries.take h'.saved).map Text.withoutReturn, 0⟩) ∧
            ((∀ line, ops.getLast? ≠ some (.add line)) →
              readFrom {} s' path =
                (.ok h'.entries.length, ⟨h'.entries.map Text.withoutReturn, 0⟩))) ∧
          readFrom {} s' path =
            match Host.read s' path with
            | .error e => (.error ⟨path, e⟩, {})
            | .ok b =>
              match ofBytes? b with
              | none => (.error ⟨path, .notText⟩, {})
              | some es => (.ok es.length, ⟨es, 0⟩)) ∧
    ∀ (m : Machine) (path : String),
      (∀ content, m.Holds path content → Host.Writable m path ∧ Host.Stores m path) ∧
      (m.Discards path → Host.Writable m path ∧
        ∀ m', Host.Later path m m' → readFrom {} m' path = (.ok 0, {})) := by
  refine ⟨fun s path hw ops hops => ?_, fun m path => ⟨fun content hold => ?_, fun hnull => ?_⟩⟩
  · obtain ⟨s₁, hresult, hf⟩ := Filed.of_write hw (Sound.of_steps hr) hfeed
    obtain ⟨h', s', hperform, hf', hentries, hall⟩ := hf.perform hw hops
    refine ⟨h', s', ?_, hentries, fun hstores => ⟨hf'.readFrom hstores, fun hlast => ?_⟩,
      readFrom_eq s' path⟩
    · rw [perform, hresult]
      exact hperform
    · have hread := hf'.readFrom hstores
      rwa [hall hlast fun _ => rfl, List.take_length] at hread
  · exact ⟨hold.writable, hold.stores⟩
  · refine ⟨hnull.writable, fun m' hl => ?_⟩
    rw [readFrom_eq, (hnull.of_later hl).1.read_eq]
    rfl

/-- An entry with a carriage return is written over an old line, and a line with blanks in front is
recorded and appended: both come back, the first one without its carriage return. -/
theorem reads_back_besideLine :
    Relation.ReflTransGen (Step Machine) {} ⟨["ls\r"], 0⟩ ∧
    (∀ e ∈ ["ls\r"], '\n' ∉ e.toList) ∧ Host.Writable besideLine "/f" ∧
    Host.Stores besideLine "/f" ∧
    ∃ h' m', perform [.file .write "/f", .add "  pwd", .file .append "/f"] ⟨["ls\r"], 0⟩ besideLine =
        (.ok (), h', m') ∧
      readFrom {} m' "/f" = (.ok 2, ⟨["ls", "  pwd"], 0⟩) := by
  have hstep : Step Machine {} ⟨["ls\r"], 0⟩ := ⟨.add "ls\r", besideLine, by decide +kernel⟩
  have hfeed : ∀ e ∈ ["ls\r"], '\n' ∉ e.toList := by decide
  have hops : ∀ op ∈ [Operation.add "  pwd", .file .append "/f"], Continues "/f" op := by
    rw [List.forall_mem_cons, List.forall_mem_singleton]
    exact ⟨.add (by decide), .append⟩
  obtain ⟨hback, hmachine⟩ := reads_back_what_was_written (.single hstep) hfeed
  obtain ⟨hwritable, hstores⟩ := (hmachine besideLine "/f").1 _ besideLine_holds
  obtain ⟨h', m', hperform, hentries, hread, -⟩ := hback besideLine "/f" hwritable _ hops
  have hread := (hread hstores).2 (by simp)
  rw [hentries] at hread
  exact ⟨.single hstep, hfeed, hwritable, hstores, h', m', hperform, hread⟩

/-- **Not all that is written is read back.** A history is written to the device that takes
everything, and that succeeds; reading the device succeeds as well and gives no entry. And a line
that is recorded after a file has been written is not in the file until it is appended. -/
theorem not_all_read_back :
    Relation.ReflTransGen (Step Machine) {} ⟨["ls"], 0⟩ ∧
    ((History.writeTo ⟨["ls"], 0⟩ "/dev/null" besideLine).1 = .ok () ∧
      readFrom {} (History.writeTo ⟨["ls"], 0⟩ "/dev/null" besideLine).2.2 "/dev/null" =
        (.ok 0, ⟨[], 0⟩)) ∧
    ((perform [.file .write "/f", .add "pwd"] ⟨["ls"], 0⟩ besideLine).1 = .ok () ∧
      (perform [.file .write "/f", .add "pwd"] ⟨["ls"], 0⟩ besideLine).2.1 = ⟨["ls", "pwd"], 1⟩ ∧
      readFrom {} (perform [.file .write "/f", .add "pwd"] ⟨["ls"], 0⟩ besideLine).2.2 "/f" =
        (.ok 1, ⟨["ls"], 0⟩)) := by
  have hstep : Step Machine {} ⟨["ls"], 0⟩ := ⟨.add "ls", besideLine, by decide +kernel⟩
  refine ⟨.single hstep, ⟨?_, ?_⟩, ?_, ?_, ?_⟩
  all_goals decide +kernel

end History
end LineShell
