import LineShell.Proofs.FileContent
import Mathlib.Logic.Relation

/-!
# Paths that can be written to, and paths that store

What comes of writing to a file is up to the machine. Two things may be asked of a path. It can be
written to (`Host.Writable`): it can be opened, it takes whatever bytes are written, and it can be
written to again. And it stores what is written (`Host.Stores`): reading it gives what opening has
left of it and then what was written. A machine need not grant the second where it grants the first:
a device may take everything and give nothing back, and a file may be one that only its writing is
allowed of. So both are laws that a path may follow on a machine, and what is said of history files
is said of all machines.

Regular files and missing ones follow both laws on the machines at hand (`Holds.writable`,
`Holds.stores`), and the device that takes everything follows the first (`Discards.writable`).
-/

namespace LineShell

namespace Host

variable {σ : Type} [Host σ]

/-- A file is opened in a mode and bytes are written to it, both with success. -/
def Puts (path : String) (mode : WriteMode) (b : Bytes) (s s' : σ) : Prop :=
  ∃ file s₁, create path mode s = (.ok file, s₁) ∧ write file b s₁ = (.ok (), s')

/-- What the machine can become by writing to a path, any number of times. -/
def Later (path : String) : σ → σ → Prop :=
  Relation.ReflTransGen fun s s' => ∃ mode b, Puts path mode b s s'

/-- A path can be written to, in either mode and whatever the bytes are, now and after everything
that is written to it. -/
def Writable (s : σ) (path : String) : Prop :=
  ∀ s', Later path s s' → ∀ mode b, ∃ s'', Puts path mode b s' s''

/-- A path stores what is written to it, now and after everything that is written to it: reading it
gives what opening has left of it, and then what was written. What cannot be read counts as
missing. -/
def Stores (s : σ) (path : String) : Prop :=
  ∀ s', Later path s s' → ∀ mode b s'', Puts path mode b s' s'' →
    read s'' path = .ok (Machine.kept mode (read s' path).toOption ++ b)

variable {path : String} {mode : WriteMode} {b : Bytes} {s s' : σ}

theorem Later.single (h : Puts path mode b s s') : Later path s s' :=
  Relation.ReflTransGen.single ⟨mode, b, h⟩

/-- What holds after each write if it held before holds after all of them. -/
theorem Later.preserves {P : σ → Prop} (hl : Later path s s')
    (hstep : ∀ s₁ s₂ mode b, Puts path mode b s₁ s₂ → P s₁ → P s₂) (h : P s) : P s' := by
  induction hl with
  | refl => exact h
  | tail _ hp ih =>
    obtain ⟨mode, b, hp⟩ := hp
    exact hstep _ _ mode b hp ih

theorem Puts.unique {s'' : σ} (h : Puts path mode b s s') (h' : Puts path mode b s s'') :
    s' = s'' := by
  obtain ⟨file, s₁, hcreate, hwrite⟩ := h
  obtain ⟨file', s₁', hcreate', hwrite'⟩ := h'
  obtain ⟨hfile, rfl⟩ := Prod.mk.inj (hcreate.symm.trans hcreate')
  obtain rfl := Except.ok.inj hfile
  exact (Prod.mk.inj (hwrite.symm.trans hwrite')).2

/-- Writing entries to a file is to open it and to write their lines. -/
theorem writeEntries_eq_ok_iff {entries : List String} :
    History.writeEntries path mode entries s = (.ok (), s') ↔
      Puts path mode (History.toBytes entries) s s' := by
  rw [History.writeEntries, Puts]
  rcases Host.create path mode s with ⟨e | file, s₁⟩
  · simp
  · rcases hw : Host.write file (History.toBytes entries) s₁ with ⟨e | _, s₂⟩ <;> simp [hw]

end Host

namespace Machine

variable {m m' : Machine} {path : String} {mode : WriteMode} {b : Bytes}

namespace Holds

variable {content : Option Bytes}

/-- What is written to a file comes after what opening has left of it. -/
theorem holds_of_puts (h : m.Holds path content) (hp : Host.Puts path mode b m m') :
    m'.Holds path (some (kept mode content ++ b)) := by
  obtain ⟨_, id, m₁, m₂, hcreate, hwrite, hwritten⟩ := h.exists_rewritten mode b
  rw [hp.unique ⟨_, m₁, hcreate, hwrite⟩]
  exact hwritten.holds

/-- A file stays a file. -/
theorem exists_of_later (h : m.Holds path content) (hl : Host.Later path m m') :
    ∃ content', m'.Holds path content' := by
  apply hl.preserves
  · rintro m₁ m₂ mode b hp ⟨content', hold⟩
    exact ⟨_, hold.holds_of_puts hp⟩
  · exact ⟨content, h⟩

theorem toOption_read (h : m.Holds path content) : (Host.read m path).toOption = content := by
  cases content with
  | none => rw [h.read_of_missing]; rfl
  | some b => rw [h.read_eq]; rfl

/-- **Regular files and missing ones can be written to.** -/
theorem writable (h : m.Holds path content) : Host.Writable m path := by
  intro m' hl mode b
  obtain ⟨content', hold⟩ := h.exists_of_later hl
  obtain ⟨_, id, m₁, m₂, hcreate, hwrite, -⟩ := hold.exists_rewritten mode b
  exact ⟨m₂, _, m₁, hcreate, hwrite⟩

/-- **Regular files and missing ones store what is written to them.** -/
theorem stores (h : m.Holds path content) : Host.Stores m path := by
  intro m' hl mode b m'' hp
  obtain ⟨content', hold⟩ := h.exists_of_later hl
  rw [(hold.holds_of_puts hp).read_eq, hold.toOption_read]

end Holds

/-- A path leads to the device that takes everything. -/
structure Discards (m : Machine) (path : String) : Prop where
  /-- The path can be handed to the disk. -/
  check : Walk.check path = .ok ()
  /-- It leads to the device. -/
  leads : ∃ place, Walk.runToMake m.disk (Walk.origin m.cwd path) (Walk.names path) =
    .ok (.found place) ∧ m.disk.get? place = some (.device .null)

namespace Discards

/-- Reading the device gives nothing. -/
theorem read_eq (h : m.Discards path) : Host.read m path = .ok [] := by
  obtain ⟨place, hwalk, hget⟩ := h.leads
  have hrun := Walk.run_of_runToMake hwalk
  simp [Host.read, Disk.read, Disk.find?, Walk.path, h.check, hrun, hget]

/-- What is written to the device changes nothing on the disk. -/
theorem exists_puts (h : m.Discards path) (mode : WriteMode) (b : Bytes) :
    ∃ m', Host.Puts path mode b m m' ∧ m'.disk = m.disk ∧ m'.cwd = m.cwd := by
  obtain ⟨place, hwalk, hget⟩ := h.leads
  have hcreate : m.disk.create m.cwd path mode = (.ok place, m.disk) := by
    simp [Disk.create, h.check, hwalk, Disk.openAt, hget]
  let f : OpenFile := { place, append := mode = .append, readable := false }
  let m₁ : Machine := { m with opened := m.opened ++ [.file f] }
  have hopen : Host.create path mode m = (.ok ⟨m.opened.length⟩, m₁) := by
    simp only [Host.create, openFile, hcreate, opening, m₁, f]
  have hopened : m₁.opened[m.opened.length]? = some (.file f) := List.getElem?_concat_length
  have htaken : f.write b m₁.disk = (.ok f, m₁.disk) := by
    simp only [OpenFile.write, f, m₁, hget]
  have hwrite : Host.write ⟨m.opened.length⟩ b m₁ =
      (.ok (), { m₁ with opened := m₁.opened.set m.opened.length (.file f) }) := by
    simp only [Host.write, writeFile, hopened, htaken]
  exact ⟨_, ⟨_, m₁, hopen, hwrite⟩, rfl, rfl⟩

theorem of_puts (h : m.Discards path) (hp : Host.Puts path mode b m m') :
    m'.Discards path ∧ m'.disk = m.disk := by
  obtain ⟨m₂, hp₂, hdisk, hcwd⟩ := h.exists_puts mode b
  obtain rfl := hp.unique hp₂
  refine ⟨⟨h.check, ?_⟩, hdisk⟩
  rw [hdisk, hcwd]
  exact h.leads

/-- Whatever is written, the path leads to the device, and the disk stays as it is. -/
theorem of_later (h : m.Discards path) (hl : Host.Later path m m') :
    m'.Discards path ∧ m'.disk = m.disk := by
  apply hl.preserves
  · rintro m₁ m₂ mode b hp ⟨hnull, hdisk⟩
    obtain ⟨hnull₂, hdisk₂⟩ := hnull.of_puts hp
    exact ⟨hnull₂, hdisk₂.trans hdisk⟩
  · exact ⟨h, rfl⟩

/-- **The device that takes everything can be written to.** -/
theorem writable (h : m.Discards path) : Host.Writable m path := by
  intro m' hl mode b
  obtain ⟨m'', hp, -⟩ := (h.of_later hl).1.exists_puts mode b
  exact ⟨m'', hp⟩

end Discards
end Machine
end LineShell
