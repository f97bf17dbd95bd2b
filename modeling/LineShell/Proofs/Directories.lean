import LineShell.Proofs.Lookup

/-!
# What is found stands in a directory

Looking up a directory and a name at once, as one path, and looking up the directory and then what it
lists are two ways to the same thing. `Host.InDirectories` is what a machine has to do for that: it
lists the files that can be found, it lists nothing but names, and below what is missing it finds
nothing.

On a disk this comes from walks. A walk that has found something by a last name has found a directory
by the names before it, and the thing is stored there under the name (`through_init`). The last name
may also be one that leads nowhere new or up, but then a directory is found and not a file, provided
that the disk is a tree (`Disk.IsTree`): whatever is stored is stored in a directory.
-/

namespace LineShell

/-- A name is put after a directory. -/
theorem Path.exists_join_eq (dir : String) {name : String} (h : ¬ isAbsolute name) :
    ∃ rest, join dir name = dir ++ rest := by
  rw [join, if_neg h]
  split_ifs
  · exact ⟨name, rfl⟩
  · exact ⟨"/" ++ name, String.append_assoc⟩

namespace Walk

variable {d : Disk} {here dir place : Location} {ns : List String} {name : String}

/-- How a name leads from a directory to what a walk finds by it. -/
inductive LeadsTo (d : Disk) (dir : Location) (name : String) (place : Location) : Prop where
  /-- It stands for the directory itself. -/
  | stay (hname : name = "." ∨ name = "") (hplace : place = dir)
  /-- It stands for the directory above. -/
  | up (hname : name = "..") (hplace : place = dir.dropLast)
  /-- Something is stored under it. -/
  | stored (h : (d.get? (dir ++ [name])).isSome)

section Init

variable {follow : Location → String → List String → Except OsError Spot}

/-- A single name leads from a directory. -/
theorem Goes.leadsTo (h : Goes d false follow here [name] (.found place)) :
    d.get? here = some .directory ∧ LeadsTo d here name place := by
  cases h with
  | stay hdir hname h =>
    cases h
    exact ⟨hdir, .stay hname rfl⟩
  | up hdir _ h =>
    cases h
    exact ⟨hdir, .up rfl rfl⟩
  | link hdir _ _ hget => exact ⟨hdir, .stored (by simp [hget])⟩
  | down hdir _ _ hget => exact ⟨hdir, .stored (by simp [hget])⟩

/-- A walk that gets to something by a last name has got to a directory without it, if it has after
each link. -/
theorem Goes.init (h : Goes d false follow here (ns ++ [name]) (.found place))
    (hfollow : ∀ here target rest, follow here target (rest ++ [name]) = .ok (.found place) →
      ∃ dir, follow here target rest = .ok (.found dir) ∧ d.get? dir = some .directory ∧
        LeadsTo d dir name place) :
    ∃ dir, Goes d false follow here ns (.found dir) ∧ d.get? dir = some .directory ∧
      LeadsTo d dir name place := by
  -- along the names before the last one; a link hands the rest to `follow`
  induction ns generalizing here with
  | nil => exact ⟨here, .stop here, h.leadsTo⟩
  | cons n ns ih =>
    rw [List.cons_append] at h
    generalize hrest : ns ++ [name] = rest at h
    cases h with
    | stay hdir hname h =>
      subst hrest
      obtain ⟨dir, hgoes, hleads⟩ := ih h
      exact ⟨dir, .stay hdir hname hgoes, hleads⟩
    | up hdir _ h =>
      subst hrest
      obtain ⟨dir, hgoes, hleads⟩ := ih h
      exact ⟨dir, .up hdir (by simp) hgoes, hleads⟩
    | link hdir hname _ hget h =>
      subst hrest
      obtain ⟨dir, hgoes, hleads⟩ := hfollow _ _ _ h
      exact ⟨dir, .link hdir hname (by simp) hget hgoes, hleads⟩
    | down hdir hname _ hget hlink h =>
      subst hrest
      obtain ⟨dir, hgoes, hleads⟩ := ih h
      exact ⟨dir, .down hdir hname (by simp) hget hlink hgoes, hleads⟩

end Init

/-- **What is found by a last name is found from a directory.** -/
theorem through_init {links : Nat}
    (h : through d false links here (ns ++ [name]) = .ok (.found place)) :
    ∃ dir, through d false links here ns = .ok (.found dir) ∧ d.get? dir = some .directory ∧
      LeadsTo d dir name place := by
  induction links generalizing here ns with
  | zero =>
    rw [through] at h ⊢
    obtain ⟨dir, hgoes, hdir, hleads⟩ := (goes_of_steps h).init fun _ _ _ hf => by cases hf
    exact ⟨dir, steps_of_goes hgoes, hdir, hleads⟩
  | succ links ih =>
    rw [through] at h ⊢
    obtain ⟨dir, hgoes, hdir, hleads⟩ := (goes_of_steps h).init fun here target rest hf => by
      rw [← List.append_assoc] at hf
      exact ih hf
    exact ⟨dir, steps_of_goes hgoes, hdir, hleads⟩

/-- A path that can be handed to the disk still can without its end. -/
theorem check_of_append {p q : String} (hp : p ≠ "") (h : check (p ++ q) = .ok ()) :
    check p = .ok () := by
  rw [check_eq_ok_iff, String.toList_append, List.mem_append, String.utf8ByteSize_append] at h
  rw [check_eq_ok_iff]
  exact ⟨fun hnul => h.1 (.inl hnul), hp, by omega⟩

/-- A name that is joined to a directory is walked last. -/
theorem exists_names_join (dir : String) {name : String} (hname : name ≠ "")
    (hslash : '/' ∉ name.toList) :
    ∃ ns, names (Path.join dir name) = ns ++ [name] ∧ (names dir = ns ∨ names dir = ns ++ [""]) := by
  have hnil : name.toList ≠ [] := mt String.toList_eq_nil_iff.1 hname
  have hlast : name.toList.getLast? ≠ some '/' := fun h => hslash (List.mem_of_getLast? h)
  have hlast' : ('/' :: name.toList).getLast? ≠ some '/' := by
    rwa [← List.singleton_append, List.getLast?_append_of_ne_nil _ hnil]
  refine ⟨((dir.toList.splitOn '/').filter (· ≠ [])).map String.ofList, ?_, ?_⟩
  · rw [Path.join, if_neg (Path.not_isAbsolute_of_not_mem hslash)]
    split_ifs with hdir
    · rcases hdir with hempty | hend
      · simp [names, hempty, List.splitOn_eq_singleton hslash, hnil, hlast]
      · obtain ⟨cs, hcs⟩ := List.getLast?_eq_some_iff.1 hend
        simp [names, hcs, List.splitOn_append_cons_self, List.splitOn_eq_singleton hslash, hnil,
          hlast']
    · simp [names, List.splitOn_append_cons_self, List.splitOn_eq_singleton hslash, hnil, hlast']
  · rw [names]
    split_ifs
    · exact .inr rfl
    · exact .inl (List.append_nil _)

end Walk

namespace Disk

/-- Whatever is stored on a disk is stored under names, and in a directory. -/
def IsTree (d : Disk) : Prop :=
  ∀ e ∈ d.nodes, (∀ name ∈ e.1, Path.IsName name) ∧ d.get? e.1.dropLast = some .directory

instance (d : Disk) : Decidable d.IsTree :=
  inferInstanceAs (Decidable (∀ e ∈ d.nodes, _ ∧ _))

variable {d : Disk} {dir place cwd : Location} {name : String}

theorem exists_mem_of_get? {node : Node} (hne : place ≠ []) (h : d.get? place = some node) :
    ∃ e ∈ d.nodes, e.1 = place := by
  rw [get?, if_neg hne] at h
  obtain ⟨before, after, hnodes, -⟩ := List.lookup_eq_some_iff.1 h
  exact ⟨(place, node), by simp [hnodes], rfl⟩

/-- Above what is stored there is a directory. -/
theorem IsTree.get?_dropLast (h : d.IsTree) {node : Node} (hget : d.get? place = some node) :
    d.get? place.dropLast = some .directory := by
  by_cases hne : place = []
  · subst hne
    rfl
  · obtain ⟨e, he, rfl⟩ := exists_mem_of_get? hne hget
    exact (h e he).2

/-- What is stored in a directory under a name is listed there by it. -/
theorem mem_names_of_isSome (h : (d.get? (dir ++ [name])).isSome) : name ∈ d.names dir := by
  obtain ⟨node, hget⟩ := Option.isSome_iff_exists.1 h
  obtain ⟨e, he, hplace⟩ := exists_mem_of_get? (by simp) hget
  exact List.mem_filterMap.2 ⟨e, he, by simp [hplace]⟩

/-- **What is found by a directory and a name** is found in the directory. -/
theorem find?_of_join {path : String} {node : Node} (hpath : path ≠ "") (hname : name ≠ "")
    (hslash : '/' ∉ name.toList) (h : d.find? cwd (Path.join path name) = .ok (place, node)) :
    ∃ dir, d.find? cwd path = .ok (dir, .directory) ∧ Walk.LeadsTo d dir name place := by
  obtain ⟨hcheck, hrun, hget⟩ := find?_eq_ok_iff.1 h
  obtain ⟨ns, hjoin, hnames⟩ := Walk.exists_names_join path hname hslash
  obtain ⟨rest, hrest⟩ := Path.exists_join_eq path (Path.not_isAbsolute_of_not_mem hslash)
  rw [hjoin, hrest, Walk.origin_append cwd hpath] at hrun
  obtain ⟨dir, hdir, hget', hleads⟩ := Walk.through_init hrun
  refine ⟨dir, find?_eq_ok_iff.2 ⟨?_, ?_, hget'⟩, hleads⟩
  · exact Walk.check_of_append hpath (hrest ▸ hcheck)
  · rcases hnames with hnames | hnames
    · rw [hnames]
      exact hdir
    · rw [hnames]
      exact Walk.through_append_slash hdir hget'

end Disk

/-- What can be found by a directory and a name, and what the directory lists, go together. -/
structure Host.InDirectories {σ : Type} [Host σ] (s : σ) : Prop where
  /-- Directories list nothing but names. -/
  names : Host.HoldsNames s
  /-- A file that is found by a directory that can be read and a name is listed there. -/
  listed {dir name : String} {executable : Bool} {names : List String}
    (hentries : Host.entries? s dir = some names) (hname : name ≠ "") (hslash : '/' ∉ name.toList)
    (hfile : Host.kind? s (Path.join dir name) = some (.file executable)) : name ∈ names
  /-- Below what is missing there is nothing. -/
  missing {dir name : String} (hdir : dir ≠ "") (hmissing : Host.kind? s dir = none)
    (hname : name ≠ "") (hslash : '/' ∉ name.toList) : Host.kind? s (Path.join dir name) = none

namespace Machine

variable {m : Machine} {path : String}

theorem kind?_eq_some_iff {kind : FileKind} :
    Host.kind? m path = some kind ↔
      ∃ place node, m.disk.find? m.cwd path = .ok (place, node) ∧ Disk.kindOf node = kind := by
  show m.disk.kind? m.cwd path = _ ↔ _
  rw [Disk.kind?]
  rcases m.disk.find? m.cwd path with e | ⟨place, node⟩ <;> simp

/-- A path that can be read leads to a directory. -/
theorem find?_of_entries? {names : List String} (h : Host.entries? m path = some names) :
    ∃ place, m.disk.find? m.cwd path = .ok (place, .directory) ∧ m.disk.names place = names := by
  change m.disk.entries? m.cwd path = some names at h
  rw [Disk.entries?] at h
  split at h
  next place hfind => exact ⟨place, hfind, Option.some.inj h⟩
  next => cases h

/-- Nothing is read or found by the empty path. -/
theorem ne_empty_of_find? {place : Location} {node : Node}
    (h : m.disk.find? m.cwd path = .ok (place, node)) : path ≠ "" :=
  (Walk.check_eq_ok_iff.1 (Disk.find?_eq_ok_iff.1 h).1).2.1

/-- **On a disk that is a tree, what is found stands in a directory.** -/
theorem inDirectories (h : m.disk.IsTree) : Host.InDirectories m where
  names := holdsNames fun e he => (h e he).1
  listed {dir name executable names} hentries hname hslash hfile := by
    obtain ⟨dirPlace, hdir, rfl⟩ := find?_of_entries? hentries
    obtain ⟨place, node, hfind, hkind⟩ := kind?_eq_some_iff.1 hfile
    have hget := (Disk.find?_eq_ok_iff.1 hfind).2.2
    obtain ⟨dirPlace', hdir', hleads⟩ :=
      Disk.find?_of_join (ne_empty_of_find? hdir) hname hslash hfind
    have hsame : (dirPlace', Node.directory) = (dirPlace, .directory) :=
      Except.ok.inj (hdir'.symm.trans hdir)
    obtain rfl := (Prod.mk.inj hsame).1
    have hget' := (Disk.find?_eq_ok_iff.1 hdir).2.2
    have hfile (hplace : m.disk.get? place = some .directory) : False := by
      obtain rfl := Option.some.inj (hget.symm.trans hplace)
      cases hkind
    cases hleads with
    | stay _ hplace => exact (hfile (hplace ▸ hget')).elim
    | up _ hplace => exact (hfile (hplace ▸ h.get?_dropLast hget')).elim
    | stored hstored => exact Disk.mem_names_of_isSome hstored
  missing {dir name} hdir hmissing hname hslash := by
    by_contra hne
    obtain ⟨kind, hkind⟩ := Option.ne_none_iff_exists'.1 hne
    obtain ⟨place, node, hfind, -⟩ := kind?_eq_some_iff.1 hkind
    obtain ⟨dirPlace, hfind', -⟩ := Disk.find?_of_join hdir hname hslash hfind
    have := kind?_eq_some_iff.2 ⟨dirPlace, .directory, hfind', rfl⟩
    rw [hmissing] at this
    cases this

end Machine
end LineShell
