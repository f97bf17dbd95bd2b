import LineShell.HistoryFile
import LineShell.Machine.Instance
import Mathlib.Data.List.Basic

/-!
# What a file holds

`Machine.Holds` says what the file holds that a path names on a machine, or that the path names
nothing and a file could be made there. Reading gives what the file holds (`Holds.read_eq`), and
what is written to it comes after what opening it has left (`Holds.exists_rewritten`). Nothing else
on the machine is different then, but that one more file is open (`OnlyAt`).

For the latter one has to know that the path still leads to the same place when the file has been
written. `Disk.Keeps` is what a walk needs of two disks for that: directories and links are the
same, and what is stored stays stored. Then the walk goes the same way (`through_of_keeps`).
-/

namespace LineShell

namespace Disk

/-- On the second disk every directory and every link is as on the first, no link has been added,
and nothing is missing. -/
structure Keeps (d d' : Disk) : Prop where
  /-- Directories stay directories. -/
  directory {l : Location} : d.get? l = some .directory → d'.get? l = some .directory
  /-- The links are the same. -/
  link_iff {l : Location} {t : String} : d'.get? l = some (.link t) ↔ d.get? l = some (.link t)
  /-- What is stored stays stored, in whichever form. -/
  isSome {l : Location} : (d.get? l).isSome → (d'.get? l).isSome

theorem Keeps.refl (d : Disk) : Keeps d d :=
  ⟨id, Iff.rfl, id⟩

/-- Whether a file can be stored at a location: there is one, or there is nothing. -/
def FileAt (d : Disk) (place : Location) : Prop :=
  d.get? place = none ∨ ∃ content mode, d.get? place = some (.file content mode)

theorem FileAt.ne_nil {d : Disk} {place : Location} (h : FileAt d place) : place ≠ [] := by
  rintro rfl
  simp [FileAt, get?] at h

/-- Storing a file where there is one or nothing keeps the ways on a disk. -/
theorem keeps_put {d : Disk} {place : Location} (h : FileAt d place) (content : Bytes)
    (mode : FileMode) : Keeps d (d.put place (.file content mode)) := by
  have hself := get?_put_self d (.file content mode) h.ne_nil
  have hother {l : Location} (hl : l ≠ place) := get?_put_of_ne d (.file content mode) hl
  refine ⟨fun {l} hd => ?_, fun {l t} => ?_, fun {l} hs => ?_⟩
  all_goals by_cases hl : l = place
  · subst hl
    rcases h with h | ⟨_, _, h⟩ <;> simp [h] at hd
  · rwa [hother hl]
  · subst hl
    rcases h with h | ⟨_, _, h⟩ <;> simp [h, hself]
  · rw [hother hl]
  · simp [hl, hself]
  · rwa [hother hl]

end Disk

/-- Where a walk ends on a disk on which what was missing may be stored. -/
def Spot.on (d : Disk) : Spot → Spot
  | found place => found place
  | missing dir name =>
    if (d.get? (dir ++ [name])).isSome then found (dir ++ [name]) else missing dir name

/-- Where a walk ends, whether something is stored there or not. -/
def Spot.place : Spot → Location
  | found place => place
  | missing dir name => dir ++ [name]

namespace Walk

/-- A name that leads to something in a directory, if it is not missing. -/
structure IsName (name : String) : Prop where
  /-- It does not stand for the directory itself. -/
  stays : ¬ (name = "." ∨ name = "")
  /-- It does not stand for the directory above. -/
  up : name ≠ ".."
  /-- A disk can hold it. -/
  short : ¬ tooLong name = true

section Goes

variable (d : Disk) (making : Bool)
  (follow : Location → String → List String → Except OsError Spot)

/-- The ways in which a walk gets to its end. -/
inductive Goes : Location → List String → Spot → Prop where
  /-- There are no more names. -/
  | stop (here : Location) : Goes here [] (.found here)
  /-- It stays where it is. -/
  | stay {here : Location} {name : String} {rest : List String} {spot : Spot}
      (hdir : d.get? here = some .directory) (hname : name = "." ∨ name = "")
      (h : Goes here rest spot) : Goes here (name :: rest) spot
  /-- It goes to the directory above. -/
  | up {here : Location} {rest : List String} {spot : Spot}
      (hdir : d.get? here = some .directory) (hmake : ¬ (making = true ∧ rest = [""]))
      (h : Goes here.dropLast rest spot) : Goes here (".." :: rest) spot
  /-- The last name is missing. -/
  | missing {here : Location} {name : String} (hdir : d.get? here = some .directory)
      (hname : IsName name) (hget : d.get? (here ++ [name]) = none) :
    Goes here [name] (.missing here name)
  /-- It follows a link. -/
  | link {here : Location} {name target : String} {rest : List String} {spot : Spot}
      (hdir : d.get? here = some .directory) (hname : IsName name)
      (hmake : ¬ (making = true ∧ rest = [""]))
      (hget : d.get? (here ++ [name]) = some (.link target))
      (h : follow here target rest = .ok spot) : Goes here (name :: rest) spot
  /-- It goes down to what is stored under a name. -/
  | down {here : Location} {name : String} {rest : List String} {spot : Spot} {node : Node}
      (hdir : d.get? here = some .directory) (hname : IsName name)
      (hmake : ¬ (making = true ∧ rest = [""])) (hget : d.get? (here ++ [name]) = some node)
      (hlink : ∀ t, node ≠ .link t) (h : Goes (here ++ [name]) rest spot) :
    Goes here (name :: rest) spot

end Goes

section Steps

variable {d d' : Disk} {making making' : Bool}
  {follow follow' : Location → String → List String → Except OsError Spot}
  {here : Location} {ns : List String} {spot : Spot}

theorem goes_of_steps (h : steps d making follow here ns = .ok spot) :
    Goes d making follow here ns spot := by
  induction ns generalizing here with
  | nil =>
    obtain rfl := Except.ok.inj h
    exact .stop here
  | cons name rest ih =>
    rw [steps] at h
    by_cases hdir : d.get? here = some .directory
    case neg => simp [Disk.isDirectory, hdir] at h
    rw [if_neg (by simp [Disk.isDirectory, hdir])] at h
    by_cases hdot : name = "." ∨ name = ""
    · rw [if_pos hdot] at h
      exact .stay hdir hdot (ih h)
    rw [if_neg hdot] at h
    by_cases hmake : making = true ∧ rest = [""]
    · rw [if_pos hmake] at h
      cases h
    rw [if_neg hmake] at h
    by_cases hup : name = ".."
    · rw [if_pos hup] at h
      exact hup ▸ .up hdir hmake (ih h)
    rw [if_neg hup] at h
    by_cases hlong : tooLong name = true
    · rw [if_pos hlong] at h
      cases h
    rw [if_neg hlong] at h
    split at h
    next hget =>
      split_ifs at h with hrest
      obtain rfl := Except.ok.inj h
      exact hrest ▸ .missing hdir ⟨hdot, hup, hlong⟩ hget
    next target hget => exact .link hdir ⟨hdot, hup, hlong⟩ hmake hget h
    next node hlink hget =>
      exact .down hdir ⟨hdot, hup, hlong⟩ hmake hget (fun t ht => hlink t ht) (ih h)

theorem steps_of_goes (h : Goes d making follow here ns spot) :
    steps d making follow here ns = .ok spot := by
  induction h with
  | stop here => rfl
  | stay hdir hname _ ih => simp [steps, Disk.isDirectory, hdir, hname, ih]
  | up hdir hmake _ ih => simp [steps, Disk.isDirectory, hdir, hmake, ih]
  | missing hdir hname hget =>
    simp [steps, Disk.isDirectory, hdir, hname.stays, hname.up, hname.short, hget]
  | link hdir hname hmake hget h =>
    simp [steps, Disk.isDirectory, hdir, hname.stays, hmake, hname.up, hname.short, hget, h]
  | down hdir hname hmake hget hlink _ ih =>
    simp [steps, Disk.isDirectory, hdir, hname.stays, hmake, hname.up, hname.short, hget, ih]

/-- Where a walk misses something, nothing is stored. -/
theorem Goes.on_self (h : Goes d making follow here ns spot)
    (hfollow : ∀ here target rest spot, follow here target rest = .ok spot → spot.on d = spot) :
    spot.on d = spot := by
  induction h with
  | stop => rfl
  | stay _ _ _ ih | up _ _ _ ih | down _ _ _ _ _ _ ih => exact ih
  | missing _ _ hget => simp [Spot.on, hget]
  | link _ _ _ _ h => exact hfollow _ _ _ _ h

/-- A walk goes the same way on a disk that keeps the ways, if it does after each link. -/
theorem Goes.of_keeps (h : Goes d making follow here ns spot) (hk : d.Keeps d')
    (hmaking : making' = true → making = true)
    (hfollow : ∀ here target rest spot, follow here target rest = .ok spot →
      follow' here target rest = .ok (spot.on d')) :
    Goes d' making' follow' here ns (spot.on d') := by
  have hmake {rest : List String} (hm : ¬ (making = true ∧ rest = [""])) :
      ¬ (making' = true ∧ rest = [""]) := fun hm' => hm (hm'.imp_left hmaking)
  induction h with
  | stop here => exact .stop here
  | stay hdir hname _ ih => exact .stay (hk.directory hdir) hname ih
  | up hdir hm _ ih => exact .up (hk.directory hdir) (hmake hm) ih
  | link hdir hname hm hget h =>
    exact .link (hk.directory hdir) hname (hmake hm) (hk.link_iff.2 hget) (hfollow _ _ _ _ h)
  | @missing here name hdir hname hget =>
    cases hget' : d'.get? (here ++ [name]) with
    | none =>
      have hon : (Spot.missing here name).on d' = .missing here name := by simp [Spot.on, hget']
      rw [hon]
      exact .missing (hk.directory hdir) hname hget'
    | some node =>
      -- what was missing has been stored, but not as a link
      have hon : (Spot.missing here name).on d' = .found (here ++ [name]) := by
        simp [Spot.on, hget']
      have hlink (t : String) (ht : node = .link t) : False := by
        have := hk.link_iff.1 (hget'.trans (congrArg some ht))
        simp [hget] at this
      rw [hon]
      exact .down (hk.directory hdir) hname (by simp) hget' hlink (.stop _)
  | @down here name _ _ node hdir hname hm hget hlink _ ih =>
    obtain ⟨node', hget'⟩ := Option.isSome_iff_exists.1 (hk.isSome (Option.isSome_of_eq_some hget))
    have hlink' (t : String) (ht : node' = .link t) : False :=
      hlink t (Option.some.inj (hget.symm.trans (hk.link_iff.1 (hget'.trans (congrArg some ht)))))
    exact .down (hk.directory hdir) hname (hmake hm) hget' hlink' ih

end Steps

section Through

variable {d d' : Disk} {making making' : Bool} {links : Nat} {here : Location} {ns : List String}
  {spot : Spot}

/-- **A walk goes the same way on a disk that keeps the ways.** It may find there what was missing,
and need not lead to something that can be made. -/
theorem through_of_keeps (h : through d making links here ns = .ok spot) (hk : d.Keeps d')
    (hmaking : making' = true → making = true) :
    through d' making' links here ns = .ok (spot.on d') := by
  induction links generalizing here ns spot with
  | zero =>
    rw [through] at h ⊢
    exact steps_of_goes ((goes_of_steps h).of_keeps hk hmaking fun _ _ _ _ hf => by cases hf)
  | succ links ih =>
    rw [through] at h ⊢
    exact steps_of_goes ((goes_of_steps h).of_keeps hk hmaking fun _ _ _ _ hf => ih hf)

theorem through_on_self (h : through d making links here ns = .ok spot) : spot.on d = spot := by
  induction links generalizing here ns spot with
  | zero =>
    rw [through] at h
    exact (goes_of_steps h).on_self fun _ _ _ _ hf => by cases hf
  | succ links ih =>
    rw [through] at h
    exact (goes_of_steps h).on_self fun _ _ _ _ hf => ih hf

end Through

theorem runToMake_of_keeps {d d' : Disk} {here : Location} {ns : List String} {spot : Spot}
    (h : runToMake d here ns = .ok spot) (hk : d.Keeps d') :
    runToMake d' here ns = .ok (spot.on d') :=
  through_of_keeps h hk id

/-- What leads to something that may be made leads there too if nothing is made. -/
theorem run_of_runToMake {d : Disk} {here : Location} {ns : List String} {spot : Spot}
    (h : runToMake d here ns = .ok spot) : run d here ns = .ok spot := by
  have hrun : run d here ns = .ok (spot.on d) := through_of_keeps h (.refl d) (by simp)
  rwa [through_on_self h] at hrun

end Walk

namespace Machine

/-- What a file holds that a path names on a machine; none if the path names nothing and a file can
be made there. -/
inductive Holds (m : Machine) (path : String) : Option Bytes → Prop where
  /-- There is a regular file. -/
  | file {place : Location} {content : Bytes} {mode : FileMode}
      (hcheck : Walk.check path = .ok ())
      (hwalk : Walk.runToMake m.disk (Walk.origin m.cwd path) (Walk.names path) =
        .ok (.found place))
      (hget : m.disk.get? place = some (.file content mode)) : Holds m path (some content)
  /-- The name is missing from a directory. -/
  | missing {dir : Location} {name : String} (hcheck : Walk.check path = .ok ())
      (hwalk : Walk.runToMake m.disk (Walk.origin m.cwd path) (Walk.names path) =
        .ok (.missing dir name)) : Holds m path none

namespace Holds

variable {m m' : Machine} {path : String} {content : Option Bytes}

/-- Only the disk and the directory of the machine matter. -/
theorem congr (h : m.Holds path content) (hdisk : m'.disk = m.disk) (hcwd : m'.cwd = m.cwd) :
    m'.Holds path content := by
  cases h with
  | file hcheck hwalk hget =>
    rw [← hdisk, ← hcwd] at hwalk
    rw [← hdisk] at hget
    exact .file hcheck hwalk hget
  | missing hcheck hwalk =>
    rw [← hdisk, ← hcwd] at hwalk
    exact .missing hcheck hwalk

/-- Reading a file gives what it holds. -/
theorem read_eq {b : Bytes} (h : m.Holds path (some b)) : Host.read m path = .ok b := by
  cases h with
  | file hcheck hwalk hget =>
    have hrun := Walk.run_of_runToMake hwalk
    simp [Host.read, Disk.read, Disk.find?, Walk.path, hcheck, hrun, hget]

/-- A file that is missing cannot be read, because it is missing. -/
theorem read_of_missing (h : m.Holds path none) : Host.read m path = .error .noEntry := by
  cases h with
  | missing hcheck hwalk =>
    have hrun := Walk.run_of_runToMake hwalk
    simp [Host.read, Disk.read, Disk.find?, Walk.path, hcheck, hrun]

end Holds

/-- Where the file is that a path names on a machine, or where it would be made. -/
def Leads (m : Machine) (path : String) (place : Location) : Prop :=
  ∃ spot, Walk.runToMake m.disk (Walk.origin m.cwd path) (Walk.names path) = .ok spot ∧
    spot.place = place

theorem Leads.unique {m : Machine} {path : String} {place place' : Location}
    (h : m.Leads path place) (h' : m.Leads path place') : place = place' := by
  obtain ⟨spot, hwalk, rfl⟩ := h
  obtain ⟨spot', hwalk', rfl⟩ := h'
  rw [Except.ok.inj (hwalk.symm.trans hwalk')]

/-- On the second machine nothing is different but what is stored at a place and which files are
open. -/
structure OnlyAt (place : Location) (m m' : Machine) : Prop where
  /-- Only the disk and the open files may differ. -/
  rest : ∃ disk opened, m' = { m with disk, opened }
  /-- At all other places the same is stored. -/
  others {l : Location} (hl : l ≠ place) : m'.disk.get? l = m.disk.get? l

theorem OnlyAt.refl (place : Location) (m : Machine) : OnlyAt place m m :=
  ⟨⟨_, _, rfl⟩, fun _ => rfl⟩

theorem OnlyAt.trans {place : Location} {m m₁ m₂ : Machine} (h : OnlyAt place m m₁)
    (h' : OnlyAt place m₁ m₂) : OnlyAt place m m₂ := by
  refine ⟨?_, fun hl => (h'.others hl).trans (h.others hl)⟩
  obtain ⟨_, _, rfl⟩ := h.rest
  obtain ⟨disk, opened, rfl⟩ := h'.rest
  exact ⟨disk, opened, rfl⟩

/-- Putting bytes at the end of others. -/
theorem splice_length (old new : Bytes) : OpenFile.splice old old.length new = old ++ new := by
  simp [OpenFile.splice, List.rightpad]

/-- A number under which the file of a path is open, so that what is written goes to its end. -/
structure Appends (m : Machine) (path : String) (place : Location) (id : Nat) (content : Bytes)
    where
  /-- The open file. -/
  file : OpenFile
  /-- What it does not hold. -/
  mode : FileMode
  /-- The file is open under the number. -/
  opened : m.opened[id]? = some (.file file)
  /-- It is the one at the place. -/
  atPlace : file.place = place
  /-- What is written goes to the end. -/
  atEnd : file.append = true ∨ file.offset = content.length
  /-- The path can be handed to the disk. -/
  check : Walk.check path = .ok ()
  /-- The path leads to the file. -/
  walk : Walk.runToMake m.disk (Walk.origin m.cwd path) (Walk.names path) = .ok (.found place)
  /-- It is a regular file with the content. -/
  get? : m.disk.get? place = some (.file content mode)

/-- What is left of a file when it has been opened for writing. A missing file counts as an empty
one. -/
def kept (mode : WriteMode) (content : Option Bytes) : Bytes :=
  match mode with
  | .truncate => []
  | .append => content.getD []

/-- A regular file that has been opened is open under a number. -/
theorem exists_appends_of_create {m : Machine} {path : String} {mode : WriteMode} {place : Location}
    {d : Disk} {content : Bytes} {fileMode : FileMode} (hcheck : Walk.check path = .ok ())
    (hcreate : m.disk.create m.cwd path mode = (.ok place, d))
    (hwalk : Walk.runToMake d (Walk.origin m.cwd path) (Walk.names path) = .ok (.found place))
    (hget : d.get? place = some (.file content fileMode)) (hend : mode = .append ∨ content = [])
    (hothers : ∀ l, l ≠ place → d.get? l = m.disk.get? l) :
    ∃ id m₁, Host.create path mode m = (.ok ⟨id⟩, m₁) ∧
      Nonempty (m₁.Appends path place id content) ∧ OnlyAt place m m₁ := by
  refine ⟨m.opened.length, { m with
    disk := d
    opened := m.opened ++ [.file { place, append := mode = .append, readable := false }] },
    ?_, ⟨?_⟩, ⟨_, _, rfl⟩, hothers _⟩
  · simp [Host.create, openFile, hcreate, opening]
  · refine ⟨_, fileMode, List.getElem?_concat_length, rfl, ?_, hcheck, hwalk, hget⟩
    rcases hend with rfl | rfl
    · exact .inl rfl
    · exact .inr rfl

/-- A file that is there or can be made can be opened, and holds then what opening has left. -/
theorem Holds.exists_appends {m : Machine} {path : String} {content : Option Bytes}
    (h : m.Holds path content) (mode : WriteMode) :
    ∃ place id m₁, m.Leads path place ∧ Host.create path mode m = (.ok ⟨id⟩, m₁) ∧
      Nonempty (m₁.Appends path place id (kept mode content)) ∧ OnlyAt place m m₁ := by
  cases h with
  | @file place b fileMode hcheck hwalk hget =>
    refine ⟨place, ?_⟩
    suffices hopen : ∃ id m₁, Host.create path mode m = (.ok ⟨id⟩, m₁) ∧
        Nonempty (m₁.Appends path place id (kept mode (some b))) ∧ OnlyAt place m m₁ by
      obtain ⟨id, m₁, hopen⟩ := hopen
      exact ⟨id, m₁, ⟨_, hwalk, rfl⟩, hopen⟩
    cases mode with
    | append =>
      have hcreate : m.disk.create m.cwd path .append = (.ok place, m.disk) := by
        simp [Disk.create, hcheck, hwalk, Disk.openAt, hget]
      exact exists_appends_of_create hcheck hcreate hwalk hget (.inl rfl) fun _ _ => rfl
    | truncate =>
      have hcreate : m.disk.create m.cwd path .truncate =
          (.ok place, m.disk.put place (.file [] fileMode)) := by
        simp [Disk.create, hcheck, hwalk, Disk.openAt, hget]
      have hat : m.disk.FileAt place := .inr ⟨_, _, hget⟩
      have hwalk' := Walk.runToMake_of_keeps hwalk (Disk.keeps_put hat [] fileMode)
      exact exists_appends_of_create hcheck hcreate hwalk' (Disk.get?_put_self _ _ hat.ne_nil)
        (.inr rfl) fun _ => Disk.get?_put_of_ne _ _
  | @missing dir name hcheck hwalk =>
    let place := dir ++ [name]
    let d := m.disk.put place (.file [] {})
    have hcreate : m.disk.create m.cwd path mode = (.ok place, d) := by
      simp [Disk.create, hcheck, hwalk, place, d]
    have hnone : m.disk.get? place = none := by
      have hself := Walk.through_on_self hwalk
      by_contra hne
      simp [Spot.on, Option.isSome_iff_ne_none.2 hne, place] at hself
    have hget : d.get? place = some (.file [] {}) := Disk.get?_put_self _ _ (by simp [place])
    have hwalk' : Walk.runToMake d (Walk.origin m.cwd path) (Walk.names path) =
        .ok (.found place) := by
      have hkept := Walk.runToMake_of_keeps hwalk (Disk.keeps_put (.inl hnone) [] {})
      simpa [Spot.on, hget, place, d] using hkept
    have hkept : kept mode none = [] := by cases mode <;> rfl
    obtain ⟨id, m₁, hopen⟩ := exists_appends_of_create hcheck hcreate hwalk' hget (.inr rfl)
      fun _ => Disk.get?_put_of_ne _ _
    exact ⟨place, id, m₁, ⟨_, hwalk, rfl⟩, hkept ▸ hopen⟩

/-- Writing to a file that is open at its end puts the bytes there, and the path still leads to the
file. -/
theorem Appends.exists_write {m : Machine} {path : String} {place : Location} {id : Nat}
    {content : Bytes} (h : m.Appends path place id content) (b : Bytes) :
    ∃ m', Host.write ⟨id⟩ b m = (.ok (), m') ∧ m'.Holds path (some (content ++ b)) ∧
      m'.Leads path place ∧ OnlyAt place m m' := by
  have hat : m.disk.FileAt place := .inr ⟨_, _, h.get?⟩
  have hwalk := Walk.runToMake_of_keeps h.walk (Disk.keeps_put hat (content ++ b) h.mode)
  have hstart : (if h.file.append = true then content.length else h.file.offset) =
      content.length := by
    rcases h.atEnd with happend | hoffset
    · rw [if_pos happend]
    · rw [hoffset, ite_self]
  simp only [Host.write, writeFile, h.opened, OpenFile.write, h.atPlace, h.get?, hstart,
    splice_length]
  exact ⟨_, rfl, .file h.check hwalk (Disk.get?_put_self _ _ hat.ne_nil), ⟨_, hwalk, rfl⟩,
    ⟨_, _, rfl⟩, Disk.get?_put_of_ne _ _⟩

/-- The file of a path holds the bytes on the second machine, at the place to which the path leads
on both, and nothing else is different. -/
structure Rewritten (m : Machine) (path : String) (place : Location) (b : Bytes) (m' : Machine) :
    Prop where
  /-- The path leads to the place. -/
  leads : m.Leads path place
  /-- It leads there afterwards. -/
  leads_after : m'.Leads path place
  /-- The file holds the bytes. -/
  holds : m'.Holds path (some b)
  /-- Nothing else is different. -/
  only : OnlyAt place m m'

theorem Rewritten.trans {m m₁ m₂ : Machine} {path : String} {place place' : Location} {b b' : Bytes}
    (h : m.Rewritten path place b m₁) (h' : m₁.Rewritten path place' b' m₂) :
    m.Rewritten path place b' m₂ := by
  obtain rfl := h.leads_after.unique h'.leads
  exact ⟨h.leads, h'.leads_after, h'.holds, h.only.trans h'.only⟩

theorem Holds.exists_rewritten_self {m : Machine} {path : String} {b : Bytes}
    (h : m.Holds path (some b)) : ∃ place, m.Rewritten path place b m := by
  cases h with
  | @file place _ _ hcheck hwalk hget =>
    have hleads : m.Leads path place := ⟨_, hwalk, rfl⟩
    exact ⟨place, hleads, hleads, .file hcheck hwalk hget, .refl place m⟩

/-- **What is written to a file that has been opened comes after what opening has left of it**, and
nothing else is different. -/
theorem Holds.exists_rewritten {m : Machine} {path : String} {content : Option Bytes}
    (h : m.Holds path content) (mode : WriteMode) (b : Bytes) :
    ∃ place id m₁ m', Host.create path mode m = (.ok ⟨id⟩, m₁) ∧
      Host.write ⟨id⟩ b m₁ = (.ok (), m') ∧
      m.Rewritten path place (kept mode content ++ b) m' := by
  obtain ⟨place, id, m₁, hleads, hcreate, ⟨happends⟩, honly⟩ := h.exists_appends mode
  obtain ⟨m', hwrite, hholds, hleads', honly'⟩ := happends.exists_write b
  exact ⟨place, id, m₁, m', hcreate, hwrite, hleads, hleads', hholds, honly.trans honly'⟩

/-- **Entries are written after what opening a file has left of it.** -/
theorem Holds.writeEntries {m : Machine} {path : String} {content : Option Bytes}
    (h : m.Holds path content) (mode : WriteMode) (es : List String) :
    ∃ m', History.writeEntries path mode es m = (.ok (), m') ∧
      m'.Holds path (some (kept mode content ++ History.toBytes es)) := by
  obtain ⟨_, id, m₁, m', hcreate, hwrite, hwritten⟩ := h.exists_rewritten mode (History.toBytes es)
  exact ⟨m', by simp [History.writeEntries, hcreate, hwrite], hwritten.holds⟩

/-- **Entries are appended to what a file holds.** A missing file counts as an empty one. -/
theorem Holds.writeEntries_append {m : Machine} {path : String} {content : Option Bytes}
    (h : m.Holds path content) (es : List String) :
    ∃ m', History.writeEntries path .append es m = (.ok (), m') ∧
      m'.Holds path (some (content.getD [] ++ History.toBytes es)) :=
  h.writeEntries .append es

end Machine
end LineShell
