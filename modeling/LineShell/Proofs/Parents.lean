import LineShell.Machine.Instance
import LineShell.Proofs.Cutting
import LineShell.Proofs.Directories
import LineShell.Target

/-!
# Making the directories above a file

Before a file is opened for writing, the directories above it are made as far as they are missing.
If the file is there, there is nothing to make (`Holds.makeParent_eq`). That is not so clear as it
sounds. The directory above a path is found in its text: the last part is taken off, and then what
leads nowhere before it (`Path.exists_above`). So one has to see that a walk does not need the dots
that are lost (`through_of_dots`), that the shorter text can be handed to a disk if the path can,
and that no file is found by a path that ends in a slash or a dot (`directory_of_stay`).

Whatever is made, it is made where nothing was, and it is a directory (`Disk.Grows`).
-/

namespace LineShell
namespace Walk

/-- A name that leads nowhere new asks for a directory. -/
theorem Goes.of_stay {d : Disk} {making : Bool}
    {follow : Location → String → List String → Except OsError Spot} {here : Location}
    {name : String} {rest : List String} {spot : Spot} (hname : name = "." ∨ name = "")
    (h : Goes d making follow here (name :: rest) spot) :
    d.get? here = some .directory ∧ Goes d making follow here rest spot := by
  cases h with
  | stay hdir _ h => exact ⟨hdir, h⟩
  | up => exact absurd hname (by decide)
  | missing _ hname' | link _ hname' | down _ hname' => exact absurd hname hname'.stays

section Dots

variable {d : Disk} {here : Location} {ns ms : List String} {spot : Spot}

/-- A walk can do without a dot, if it can after each link. -/
theorem Goes.of_dot {follow : Location → String → List String → Except OsError Spot}
    (h : Goes d false follow here (ns ++ "." :: ms) spot)
    (hfollow : ∀ here target rest, follow here target (rest ++ "." :: ms) = .ok spot →
      follow here target (rest ++ ms) = .ok spot) :
    Goes d false follow here (ns ++ ms) spot := by
  -- along the names before the dot; a link hands the rest to `follow`
  induction ns generalizing here with
  | nil => exact (h.of_stay (.inl rfl)).2
  | cons n ns ih =>
    rw [List.cons_append] at h ⊢
    generalize hrest : ns ++ "." :: ms = rest at h
    cases h with
    | stay hdir hname h => exact .stay hdir hname (ih (hrest ▸ h))
    | up hdir _ h => exact .up hdir (by simp) (ih (hrest ▸ h))
    | missing => simp at hrest
    | link hdir hname _ hget h =>
      exact .link hdir hname (by simp) hget (hfollow _ _ _ (hrest ▸ h))
    | down hdir hname _ hget hlink h =>
      exact .down hdir hname (by simp) hget hlink (ih (hrest ▸ h))

theorem through_of_dot {links : Nat} (h : through d false links here (ns ++ "." :: ms) = .ok spot) :
    through d false links here (ns ++ ms) = .ok spot := by
  induction links generalizing here ns with
  | zero =>
    rw [through] at h ⊢
    exact steps_of_goes ((goes_of_steps h).of_dot fun _ _ _ hf => by cases hf)
  | succ links ih =>
    rw [through] at h ⊢
    refine steps_of_goes ((goes_of_steps h).of_dot fun here target rest hf => ?_)
    rw [← List.append_assoc] at hf ⊢
    exact ih hf

/-- **A walk does not need the dots at its end.** -/
theorem through_of_dots {links : Nat} (hms : ∀ n ∈ ms, n = ".")
    (h : through d false links here (ns ++ ms) = .ok spot) :
    through d false links here ns = .ok spot := by
  induction ms with
  | nil => rwa [List.append_nil] at h
  | cons n ms ih =>
    rw [List.forall_mem_cons] at hms
    obtain ⟨rfl, hms⟩ := hms
    exact ih hms (through_of_dot h)

end Dots

section Last

variable {d : Disk} {making : Bool} {here : Location} {ns : List String} {name : String}
  {spot : Spot}

/-- A walk whose last name leads nowhere new ends at a directory, if it does after each link. -/
theorem Goes.directory_of_stay {follow : Location → String → List String → Except OsError Spot}
    (hname : name = "." ∨ name = "") (h : Goes d making follow here (ns ++ [name]) spot)
    (hfollow : ∀ here target rest, follow here target (rest ++ [name]) = .ok spot →
      ∃ place, spot = .found place ∧ d.get? place = some .directory) :
    ∃ place, spot = .found place ∧ d.get? place = some .directory := by
  induction ns generalizing here with
  | nil =>
    obtain ⟨hdir, hend⟩ := h.of_stay hname
    cases hend
    exact ⟨here, rfl, hdir⟩
  | cons n ns ih =>
    rw [List.cons_append] at h
    generalize hrest : ns ++ [name] = rest at h
    cases h with
    | stay _ _ h | up _ _ h | down _ _ _ _ _ h => exact ih (hrest ▸ h)
    | missing => simp at hrest
    | link _ _ _ _ h => exact hfollow _ _ _ (hrest ▸ h)

/-- **A walk that ends with a slash or a dot ends at a directory.** -/
theorem directory_of_stay {links : Nat} (hname : name = "." ∨ name = "")
    (h : through d making links here (ns ++ [name]) = .ok spot) :
    ∃ place, spot = .found place ∧ d.get? place = some .directory := by
  induction links generalizing here ns with
  | zero =>
    rw [through] at h
    exact (goes_of_steps h).directory_of_stay hname fun _ _ _ hf => by cases hf
  | succ links ih =>
    rw [through] at h
    refine (goes_of_steps h).directory_of_stay hname fun here target rest hf => ?_
    rw [← List.append_assoc] at hf
    exact ih hf

end Last

section Text

variable {path : String}

theorem origin_of_isAbsolute {cwd : Location} (h : Path.isAbsolute path) : origin cwd path = [] :=
  if_pos (beq_iff_eq.1 h)

/-- The last text of a path that starts with a slash and does not end with one. -/
theorem exists_splitOn_eq_concat (hpath : Path.isAbsolute path)
    (hslash : path.toList.getLast? ≠ some '/') :
    ∃ init last, path.toList.splitOn '/' = init ++ [last] ∧ last ≠ [] := by
  obtain ⟨head, rest, hcut⟩ := Completion.exists_cutAt '/' path
  have hhead : head ≠ "" := by
    rintro rfl
    have hrest : rest = path := String.empty_append.symm.trans hcut.joined
    exact Path.not_isAbsolute_of_not_mem hcut.free (hrest ▸ hpath)
  have hends := hcut.ends.resolve_left hhead
  obtain ⟨cs, hcs⟩ := List.getLast?_eq_some_iff.1 hends
  refine ⟨cs.splitOn '/', rest.toList, ?_, fun hrest => hslash ?_⟩
  · rw [← hcut.joined, String.toList_append, hcs, List.append_assoc, List.singleton_append,
      List.splitOn_append_cons_self, List.splitOn_eq_singleton hcut.free]
  · rwa [← hcut.joined, String.toList_append, hrest, List.append_nil]

theorem names_of_splitOn {init : List (List Char)} {last : List Char}
    (hslash : path.toList.getLast? ≠ some '/') (htexts : path.toList.splitOn '/' = init ++ [last])
    (hne : last ≠ []) :
    names path = (init.filter (· ≠ [])).map String.ofList ++ [String.ofList last] := by
  simp [names, hslash, htexts, hne]

/-- The names of texts with slashes between them. -/
theorem names_intercalate {ts : List (List Char)} (hslash : ∀ t ∈ ts, '/' ∉ t) (hne : ts ≠ [])
    (hlast : ts.getLast? ≠ some []) :
    names (String.ofList (List.intercalate ['/'] ts)) = (ts.filter (· ≠ [])).map String.ofList := by
  have hsplit := List.splitOn_intercalate '/' hslash hne
  have hend : (List.intercalate ['/'] ts).getLast? ≠ some '/' := by
    intro hend
    obtain ⟨cs, hcs⟩ := List.getLast?_eq_some_iff.1 hend
    rw [hcs, List.splitOn_append_cons_self, List.splitOn_nil] at hsplit
    exact hlast (by rw [← hsplit, List.getLast?_concat])
  rw [names, String.toList_ofList, hsplit, if_neg hend, List.append_nil]

end Text
end Walk

namespace Path

/-- What is dropped leads nowhere, and what is left does not start with nothing. -/
theorem exists_dropIdle (ts : List (List Char)) :
    ∃ idle, idle ++ dropIdle ts = ts ∧ (∀ t ∈ idle, t = [] ∨ t = ['.']) ∧
      (dropIdle ts).head? ≠ some [] := by
  fun_induction dropIdle ts with
  | case1 => exact ⟨[], rfl, by simp, by simp⟩
  | case2 => exact ⟨[[]], rfl, by simp, by simp⟩
  | case3 t ht => exact ⟨[], rfl, by simp, by simpa using ht⟩
  | case4 t above _ ht ih =>
    obtain ⟨idle, hidle, hall, hhead⟩ := ih
    refine ⟨t :: idle, by rw [List.cons_append, hidle], ?_, hhead⟩
    rw [List.forall_mem_cons]
    exact ⟨ht, hall⟩
  | case5 t above _ ht =>
    rw [not_or] at ht
    exact ⟨[], rfl, by simp, by simpa using ht.1⟩

/-- Texts with slashes between them start with the first of them. -/
theorem prefix_intercalate (sep : List Char) (l l' : List (List Char)) :
    List.intercalate sep l <+: List.intercalate sep (l ++ l') := by
  induction l with
  | nil => exact List.nil_prefix
  | cons t l ih =>
    by_cases hl : l = []
    · subst hl
      cases l' with
      | nil => exact List.prefix_rfl
      | cons t' l' =>
        rw [List.singleton_append, List.intercalate_singleton, List.intercalate_cons_cons,
          List.append_assoc]
        exact List.prefix_append ..
    · rw [List.cons_append, List.intercalate_cons_of_ne_nil hl,
        List.intercalate_cons_of_ne_nil (by simp [hl])]
      exact (List.prefix_append_right_inj _).2 ih

/-- **How the path above another one is spelled**, if that starts at the root and its last text is
neither nothing nor a dot. Before the last text there is some that leads nowhere. What comes before
that is the path above, or the root if it is nothing. -/
theorem exists_above {p : String} (hp : isAbsolute p) {init : List (List Char)} {last : List Char}
    (htexts : p.toList.splitOn '/' = init ++ [last]) (hne : last ≠ []) (hdot : last ≠ ['.']) :
    ∃ kept idle, init = kept ++ idle ∧ (∀ t ∈ idle, t = [] ∨ t = ['.']) ∧
      kept.getLast? ≠ some [] ∧
      parent? p =
        some (if kept = [] then "/" else String.ofList (List.intercalate ['/'] kept)) := by
  obtain ⟨idle, hidle, hall, hhead⟩ := exists_dropIdle init.reverse
  refine ⟨(dropIdle init.reverse).reverse, idle.reverse, ?_, by simpa using hall,
    by simpa using hhead, ?_⟩
  · rw [← List.reverse_append, hidle, List.reverse_reverse]
  · rw [parent?, htexts, List.reverse_append, List.reverse_singleton, List.singleton_append,
      dropIdle_cons hne hdot, hp]
    dsimp only
    cases dropIdle init.reverse with
    | nil => rfl
    | cons t ts => simp

end Path

namespace Disk

variable {d d' : Disk} {start : Location} {ns : List String} {name : String}

/-- A directory is made under a name that is missing from a directory, and nowhere else. -/
theorem eq_put_of_makeDir (h : d.makeDir start ns name = .ok d') :
    ∃ dir, Walk.run d start ns = .ok (.found dir) ∧ Walk.IsName name ∧
      d.get? (dir ++ [name]) = none ∧ d' = d.put (dir ++ [name]) .directory := by
  rw [makeDir] at h
  split at h
  next => cases h
  next => cases h
  next dir hrun =>
    split_ifs at h with _ hname hlong hget
    refine ⟨dir, hrun, ⟨fun hstay => hname ?_, fun hup => hname (.inr (.inr hup)), hlong⟩, ?_,
      (Except.ok.inj h).symm⟩
    · rcases hstay with hdot | hempty
      · exact .inr (.inl hdot)
      · exact .inl hempty
    · exact Option.not_isSome_iff_eq_none.1 hget

section Present

variable {place : Location}

/-- A directory that is there need not be made. -/
theorem ensureDir_of_directory (h : Walk.run d start (ns ++ [name]) = .ok (.found place))
    (hplace : d.get? place = some .directory) : d.ensureDir start ns name = .ok d := by
  have hthere : d.leadsToDirectory start (ns ++ [name]) = true := by
    simp [leadsToDirectory, h, isDirectory, hplace]
  cases hmake : d.makeDir start ns name with
  | error e => simp [ensureDir, hmake, hthere]
  | ok d' =>
    -- it would have been made where the walk has found something
    obtain ⟨dir, hrun, hname, hnone, -⟩ := eq_put_of_makeDir hmake
    obtain ⟨dir', hrun', -, hleads⟩ := Walk.through_init h
    obtain rfl := Spot.found.inj (Except.ok.inj (hrun.symm.trans hrun'))
    cases hleads with
    | stay hstay => exact absurd hstay hname.stays
    | up hup => exact absurd hup hname.up
    | stored hstored => simp [hnone] at hstored

theorem makeDirsBack_of_directory (h : Walk.run d start ns = .ok (.found place))
    (hplace : d.get? place = some .directory) : makeDirsBack start ns.reverse d = (.ok (), d) := by
  rcases List.eq_nil_or_concat ns with rfl | ⟨above, name, rfl⟩
  · rfl
  · rw [List.concat_eq_append] at h ⊢
    rw [List.reverse_append, List.reverse_singleton, List.singleton_append, makeDirsBack,
      List.reverse_reverse, ensureDir_of_directory h hplace]

/-- The directories of a path that leads to a directory need not be made. -/
theorem makeDirs_of_directory {cwd : Location} {path : String} (hcheck : Walk.check path = .ok ())
    (h : Walk.run d (Walk.origin cwd path) (Walk.names path) = .ok (.found place))
    (hplace : d.get? place = some .directory) : d.makeDirs cwd path = (.ok (), d) := by
  have hempty : path ≠ "" := (Walk.check_eq_ok_iff.1 hcheck).2.1
  rw [makeDirs, if_neg hempty, hcheck]
  exact makeDirsBack_of_directory h hplace

/-- The directories of the first texts of an absolute path need not be made if these lead to a
directory. -/
theorem makeDirs_of_kept (cwd : Location) {path : String} {kept rest : List (List Char)}
    (hpath : Path.isAbsolute path) (hcheck : Walk.check path = .ok ())
    (htexts : path.toList.splitOn '/' = kept ++ rest) (hkept : kept.getLast? ≠ some [])
    (h : Walk.run d [] ((kept.filter (· ≠ [])).map String.ofList) = .ok (.found place))
    (hplace : d.get? place = some .directory) :
    d.makeDirs cwd (if kept = [] then "/" else String.ofList (List.intercalate ['/'] kept)) =
      (.ok (), d) := by
  split_ifs with hnil
  · subst hnil
    exact makeDirs_of_directory (by decide) (Walk.through_append_slash h hplace) hplace
  · have hslash : ∀ t ∈ kept, '/' ∉ t := fun t ht =>
      Path.not_mem_of_mem_splitOn (htexts ▸ List.mem_append_left rest ht)
    -- the path goes on from there, so that it starts at the root and is short enough
    obtain ⟨more, hmore⟩ := Path.prefix_intercalate ['/'] kept rest
    rw [← htexts, List.intercalate_splitOn] at hmore
    obtain rfl : String.ofList (List.intercalate ['/'] kept) ++ String.ofList more = path := by
      rw [← String.toList_inj, String.toList_append, String.toList_ofList, String.toList_ofList,
        hmore]
    have hempty : String.ofList (List.intercalate ['/'] kept) ≠ "" := by
      rw [ne_eq, String.ofList_eq_empty_iff]
      intro hempty
      have hsplit := List.splitOn_intercalate '/' hslash hnil
      rw [hempty, List.splitOn_nil] at hsplit
      exact hkept (by rw [← hsplit]; rfl)
    rw [Path.isAbsolute_append_iff hempty] at hpath
    refine makeDirs_of_directory (Walk.check_of_append hempty hcheck) ?_ hplace
    rwa [Walk.origin_of_isAbsolute hpath, Walk.names_intercalate hslash hnil hkept]

end Present

/-- Whatever is different on the second disk is a directory where nothing was. -/
def Grows (d d' : Disk) : Prop :=
  ∀ l, d'.get? l = d.get? l ∨ d.get? l = none ∧ d'.get? l = some .directory

theorem Grows.refl (d : Disk) : Grows d d :=
  fun _ => .inl rfl

theorem Grows.trans {d'' : Disk} (h : Grows d d') (h' : Grows d' d'') : Grows d d'' := by
  intro l
  rcases h l with hsame | ⟨hnone, hdir⟩
  · rw [← hsame]
    exact h' l
  · rcases h' l with hsame' | ⟨hnone', -⟩
    · exact .inr ⟨hnone, hsame'.trans hdir⟩
    · simp [hdir] at hnone'

theorem grows_of_makeDir (h : d.makeDir start ns name = .ok d') : Grows d d' := by
  obtain ⟨dir, -, -, hnone, rfl⟩ := eq_put_of_makeDir h
  intro l
  by_cases hl : l = dir ++ [name]
  · subst hl
    exact .inr ⟨hnone, get?_put_self d _ (by simp)⟩
  · exact .inl (get?_put_of_ne d _ hl)

theorem grows_of_ensureDir (h : d.ensureDir start ns name = .ok d') : Grows d d' := by
  rw [ensureDir] at h
  split at h
  next hmake => exact Except.ok.inj h ▸ grows_of_makeDir hmake
  next =>
    split_ifs at h
    exact Except.ok.inj h ▸ .refl d

/-- **Only directories are made**, and only where nothing was, even if not all of them can be made. -/
theorem grows_makeDirsBack (start : Location) (ns : List String) (d : Disk) :
    Grows d (makeDirsBack start ns d).2 := by
  fun_induction makeDirsBack start ns d with
  | case1 d => exact .refl d
  | case2 name above d d' hmade => exact grows_of_ensureDir hmade
  | case3 name above d => exact .refl d
  | case4 name above d _ _ _ _ d' habove ih | case6 name above d _ _ _ _ d' habove _ _ ih =>
    rw [habove] at ih
    exact ih
  | case5 name above d _ _ _ _ d' habove d'' hmade ih =>
    rw [habove] at ih
    exact ih.trans (grows_of_ensureDir hmade)

theorem grows_makeDirs (d : Disk) (cwd : Location) (path : String) :
    Grows d (d.makeDirs cwd path).2 := by
  rw [makeDirs]
  split_ifs
  · exact .refl d
  · split
    · exact .refl d
    · exact grows_makeDirsBack _ _ d

end Disk

namespace Machine

variable {m : Machine} {path : String}

theorem makeDirs_eq (path : String) (m : Machine) : Host.makeDirs path m =
    ((m.disk.makeDirs m.cwd path).1, { m with disk := (m.disk.makeDirs m.cwd path).2 }) := rfl

/-- Making the directories above a path changes nothing but the disk, and there only adds
directories. -/
theorem makeParent_grows (path : String) (m : Machine) :
    ∃ disk, (Target.makeParent path m).2 = { m with disk } ∧ m.disk.Grows disk := by
  rw [Target.makeParent]
  split
  · exact ⟨m.disk, rfl, .refl _⟩
  · exact ⟨_, rfl, Disk.grows_makeDirs _ _ _⟩

/-- A file is not found by a path that ends in a slash. -/
theorem Holds.getLast?_ne {content : Option Bytes} (h : m.Holds path content) :
    path.toList.getLast? ≠ some '/' := by
  intro hlast
  have hnames : ∃ ns, Walk.names path = ns ++ [""] := ⟨_, by rw [Walk.names, if_pos hlast]⟩
  obtain ⟨ns, hns⟩ := hnames
  cases h with
  | file _ hwalk hget =>
    rw [hns] at hwalk
    obtain ⟨place, hfound, hdir⟩ := Walk.directory_of_stay (.inr rfl) hwalk
    obtain rfl := Spot.found.inj hfound
    simp [hget] at hdir
  | missing _ hwalk =>
    rw [hns] at hwalk
    obtain ⟨place, hfound, -⟩ := Walk.directory_of_stay (.inr rfl) hwalk
    cases hfound

/-- **Above a file that is there, nothing has to be made.** -/
theorem Holds.makeParent_eq {b : Bytes} (h : m.Holds path (some b))
    (hpath : Path.isAbsolute path) : Target.makeParent path m = (.ok (), m) := by
  have hslash := h.getLast?_ne
  cases h with
  | @file place _ mode hcheck hwalk hget =>
    obtain ⟨init, last, htexts, hne⟩ := Walk.exists_splitOn_eq_concat hpath hslash
    have hrun := Walk.run_of_runToMake hwalk
    rw [Walk.origin_of_isAbsolute hpath, Walk.names_of_splitOn hslash htexts hne] at hrun
    -- the last name is no dot, since that would have led to a directory
    have hdot : last ≠ ['.'] := by
      rintro rfl
      obtain ⟨place', hfound, hdir⟩ := Walk.directory_of_stay (.inl rfl) hrun
      obtain rfl := Spot.found.inj hfound
      simp [hget] at hdir
    obtain ⟨kept, idle, rfl, hidle, hkept, habove⟩ := Path.exists_above hpath htexts hne hdot
    obtain ⟨dir, hinit, hdir, -⟩ := Walk.through_init hrun
    rw [List.filter_append, List.map_append] at hinit
    have hdots : ∀ n ∈ (idle.filter (· ≠ [])).map String.ofList, n = "." := by
      simp only [List.mem_map, List.mem_filter, decide_eq_true_eq]
      rintro _ ⟨t, ⟨ht, hne⟩, rfl⟩
      rw [(hidle t ht).resolve_left hne]
    rw [List.append_assoc] at htexts
    have hmade := Disk.makeDirs_of_kept m.cwd hpath hcheck htexts hkept
      (Walk.through_of_dots hdots hinit) hdir
    rw [Target.makeParent, habove]
    show Host.makeDirs _ m = _
    rw [makeDirs_eq, hmade]

end Machine
end LineShell
