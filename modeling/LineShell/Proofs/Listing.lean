import LineShell.Machine.Setup
import LineShell.Proofs.Directories
import LineShell.Proofs.Extending
import LineShell.Proofs.Naming

/-!
# Listing programs and looking them up

There are two ways through the search path. `find?` asks in each directory for a file of one name, and
`listAll` reads all directories and keeps of each name what it has met first. In one directory both
come to the same (`lookup_executables`): what it lists and can be executed is found by its name, and
what is found by a name is listed, as long as the directory can be read or is missing altogether.
Going on from directory to directory, the first one that has the name counts both times
(`lookup_flatMap_executables`), and sorting does not change what stands under a name
(`Names.lookup_sortedBy`).

If a directory cannot be read, what is in it is not listed, but still found. So names that are offered
as commands can always be run, and those that can be run are offered if all directories can be read.
-/

namespace LineShell

namespace SearchPath

variable {σ : Type} [Host σ] {s : σ} {sp : SearchPath} {dir name program : String}

/-- Each directory of the search path can be read, unless it is missing. -/
def Readable (sp : SearchPath) (s : σ) : Prop :=
  ∀ dir ∈ sp.dirs, Host.kind? s dir = none ∨ (Host.entries? s dir).isSome

/-- The file that a name means: that of the first directory in which there is an executable file of
the name. A name that is empty or holds a slash means none. -/
structure Means (sp : SearchPath) (s : σ) (name program : String) : Prop where
  /-- The name is not empty. -/
  ne_empty : name ≠ ""
  /-- It holds no slash. -/
  no_slash : '/' ∉ name.toList
  /-- The first directory that has such a file counts. -/
  first : ∃ before dir after, sp.dirs = before ++ dir :: after ∧
    (∀ d ∈ before, Host.kind? s (Path.join d name) ≠ some (.file true)) ∧
    Host.kind? s (Path.join dir name) = some (.file true) ∧ Path.join dir name = program

theorem isExecutable_iff {path : String} :
    Host.isExecutable s path ↔ Host.kind? s path = some (.file true) := by
  rw [Host.isExecutable, beq_iff_eq]

theorem find?_eq_some_iff_means : sp.find? s name = some program ↔ sp.Means s name program := by
  simp only [find?_eq_some_iff, isExecutable_iff]
  constructor
  · rintro ⟨hname, hslash, hfirst⟩
    exact ⟨hname, hslash, hfirst⟩
  · rintro ⟨hname, hslash, hfirst⟩
    exact ⟨hname, hslash, hfirst⟩

/-! ### One directory -/

theorem mem_executables {e : String × String} :
    e ∈ executables s dir ↔ ∃ names, Host.entries? s dir = some names ∧ e.1 ∈ names ∧
      e.2 = Path.join dir e.1 ∧ Host.isExecutable s (Path.join dir e.1) := by
  obtain ⟨name, program⟩ := e
  rw [executables]
  cases Host.entries? s dir with
  | none => simp
  | some names =>
    simp only [List.mem_filter, List.mem_map, Prod.mk.injEq, Option.some.injEq, exists_eq_left']
    constructor
    · rintro ⟨⟨name, hmem, rfl, rfl⟩, hx⟩
      exact ⟨hmem, rfl, hx⟩
    · rintro ⟨hmem, rfl, hx⟩
      exact ⟨⟨name, hmem, rfl, rfl⟩, hx⟩

theorem eq_of_lookup_executables (h : (executables s dir).lookup name = some program) :
    program = Path.join dir name ∧ Host.isExecutable s (Path.join dir name) := by
  obtain ⟨names, -, -, hprogram, hx⟩ := mem_executables.1 (Names.mem_of_lookup_eq_some h)
  exact ⟨hprogram, hx⟩

/-- **In a directory that can be read or is missing, a name is listed if it is found.** -/
theorem lookup_executables (hs : Host.InDirectories s) (hdir : dir ≠ "")
    (hread : Host.kind? s dir = none ∨ (Host.entries? s dir).isSome) (hname : name ≠ "")
    (hslash : '/' ∉ name.toList) :
    (executables s dir).lookup name =
      if Host.isExecutable s (Path.join dir name) then some (Path.join dir name) else none := by
  split_ifs with hx
  · have hfile := isExecutable_iff.1 hx
    obtain ⟨names, hentries⟩ : ∃ names, Host.entries? s dir = some names := by
      rcases hread with hmissing | hread
      · rw [hs.missing hdir hmissing hname hslash] at hfile
        cases hfile
      · exact Option.isSome_iff_exists.1 hread
    have hmem : (name, Path.join dir name) ∈ executables s dir :=
      mem_executables.2 ⟨names, hentries, hs.listed hentries hname hslash hfile, rfl, hx⟩
    -- something is listed under the name, and it can only be this file
    have hsome := List.lookup_isSome_iff.2 ⟨_, hmem, beq_self_eq_true name⟩
    obtain ⟨program, hprogram⟩ := Option.isSome_iff_exists.1 hsome
    rw [hprogram, (eq_of_lookup_executables hprogram).1]
  · rw [Option.eq_none_iff_forall_ne_some]
    exact fun program hprogram => hx (eq_of_lookup_executables hprogram).2

/-! ### From directory to directory -/

/-- The first directory that has a name counts, whichever way it is looked for. -/
theorem lookup_flatMap_executables (hs : Host.InDirectories s) {dirs : List String}
    (hdirs : ∀ dir ∈ dirs, dir ≠ "")
    (hread : ∀ dir ∈ dirs, Host.kind? s dir = none ∨ (Host.entries? s dir).isSome)
    (hname : name ≠ "") (hslash : '/' ∉ name.toList) :
    (dirs.flatMap (executables s)).lookup name =
      (dirs.map (Path.join · name)).find? (Host.isExecutable s) := by
  induction dirs with
  | nil => rfl
  | cons dir dirs ih =>
    rw [List.forall_mem_cons] at hdirs hread
    rw [List.flatMap_cons, List.lookup_append, ih hdirs.2 hread.2,
      lookup_executables hs hdirs.1 hread.1 hname hslash, List.map_cons, List.find?_cons]
    split_ifs with hx
    · rw [hx]
      rfl
    · rw [Bool.not_eq_true] at hx
      rw [hx]
      rfl

theorem ne_empty_of_mem (h : dir ∈ sp.dirs) : dir ≠ "" := by
  rintro rfl
  exact sp.spelled h

/-- Only names are listed. -/
theorem isName_of_lookup (hs : Host.InDirectories s)
    (h : (sp.listAll s).lookup name = some program) : Path.IsName name :=
  Completion.isName_of_mem_listAll hs.names (Names.mem_of_lookup_eq_some h)

theorem find?_of_not_bare (h : name = "" ∨ '/' ∈ name.toList) : sp.find? s name = none := by
  rw [Option.eq_none_iff_forall_ne_some]
  intro program hprogram
  have hmeans := find?_eq_some_iff_means.1 hprogram
  exact h.elim hmeans.ne_empty hmeans.no_slash

theorem lookup_of_not_bare (hs : Host.InDirectories s) (h : name = "" ∨ '/' ∈ name.toList) :
    (sp.listAll s).lookup name = none := by
  rw [Option.eq_none_iff_forall_ne_some]
  intro program hprogram
  have hname := isName_of_lookup hs hprogram
  exact h.elim hname.ne_empty hname.no_slash

/-- **What is listed under a name is what is found by it**, if all directories can be read or are
missing. -/
theorem lookup_listAll (hs : Host.InDirectories s) (hread : sp.Readable s) (name : String) :
    (sp.listAll s).lookup name = sp.find? s name := by
  by_cases hbare : name = "" ∨ '/' ∈ name.toList
  · rw [find?_of_not_bare hbare, lookup_of_not_bare hs hbare]
  · rw [not_or] at hbare
    have hyes : isBare name := by simpa [isBare] using hbare
    rw [listAll, Names.lookup_sortedBy, find?, if_pos hyes]
    exact lookup_flatMap_executables hs (fun _ => ne_empty_of_mem) hread hbare.1 hbare.2

/-- **What is listed is found**, be it somewhere else. -/
theorem exists_find?_of_lookup (hs : Host.InDirectories s)
    (h : (sp.listAll s).lookup name = some program) : ∃ p, sp.find? s name = some p := by
  have hname := isName_of_lookup hs h
  have hyes : isBare name := by simpa [isBare] using ⟨hname.ne_empty, hname.no_slash⟩
  rw [listAll, Names.lookup_sortedBy] at h
  obtain ⟨dir, hdir, hexecutable⟩ := List.mem_flatMap.1 (Names.mem_of_lookup_eq_some h)
  obtain ⟨names, -, -, -, hx⟩ := mem_executables.1 hexecutable
  -- a directory that cannot be read may come before this one, and have the name as well
  have hsome : ((sp.dirs.map (Path.join · name)).find? (Host.isExecutable s)).isSome :=
    List.find?_isSome.2 ⟨_, List.mem_map_of_mem hdir, hx⟩
  rw [find?, if_pos hyes]
  exact Option.isSome_iff_exists.1 hsome

end SearchPath

/-! ### Commands -/

section Commands

variable {σ : Type} [Host σ] {s : σ} {st : State} {sp : SearchPath} {name : String}

theorem Builtin.mem_all (b : Builtin) : b ∈ Builtin.all := by
  cases b <;> decide

/-- Names of builtins are offered, and names of programs that are listed. -/
theorem Completion.mem_commandNames :
    name ∈ commandNames sp s ↔
      (∃ b : Builtin, b.name = name) ∨ ∃ program, (sp.listAll s).lookup name = some program := by
  have hlisted : name ∈ (sp.listAll s).map Prod.fst ↔
      ∃ program, (sp.listAll s).lookup name = some program := by
    rw [← Option.isSome_iff_exists, List.lookup_isSome_iff, List.mem_map]
    refine exists_congr fun e => and_congr_right fun _ => ?_
    rw [beq_iff_eq, eq_comm]
  rw [commandNames, Names.mem_sorted, List.mem_append, hlisted, List.mem_map]
  simp only [Builtin.mem_all, true_and]

/-- Names of builtins can be run, and names of programs that are found. -/
theorem Command.exists_resolve_iff :
    (∃ c, resolve st s name = some c) ↔
      (∃ b : Builtin, b.name = name) ∨ ∃ program, program? st s name = some program := by
  simp only [← Builtin.ofName?_eq_some_iff, resolve]
  cases Builtin.ofName? name <;> simp

theorem Command.program?_of_bare (h : '/' ∉ name.toList) :
    program? st s name = st.searchPath.find? s name := by
  rw [program?, if_neg (by simpa using h)]

end Commands

/-- **What is listed is what is found, and what is offered is what can be run.** On a machine that
finds in directories what they list, and whatever the search path of the shell:

* names are listed in increasing order, each once, and none is empty or holds a slash; nor is
  something found by such a name;
* a name that is listed is found, and a name that is offered as a command can be run;
* what is found by a name is the executable file of the first directory that has one of that name;
* if each directory can be read or is missing, what is listed under a name is what is found by it,
  and a name without a slash that can be run is offered.

Every machine with a disk that is a tree is of this kind. -/
theorem listed_as_found :
    (∀ {σ : Type} [Host σ] (s : σ) (st : State), Host.InDirectories s →
      ((st.searchPath.listAll s).map Prod.fst).Pairwise (· < ·) ∧
      (∀ name, name = "" ∨ '/' ∈ name.toList →
        (st.searchPath.listAll s).lookup name = none ∧ st.searchPath.find? s name = none) ∧
      (∀ name program, (st.searchPath.listAll s).lookup name = some program →
        ∃ p, st.searchPath.find? s name = some p) ∧
      (∀ name ∈ Completion.commandNames st.searchPath s, ∃ c, Command.resolve st s name = some c) ∧
      (∀ name program, st.searchPath.find? s name = some program ↔
        st.searchPath.Means s name program) ∧
      (st.searchPath.Readable s →
        (∀ name, (st.searchPath.listAll s).lookup name = st.searchPath.find? s name) ∧
        ∀ name, '/' ∉ name.toList → (∃ c, Command.resolve st s name = some c) →
          name ∈ Completion.commandNames st.searchPath s)) ∧
    ∀ m : Machine, m.disk.IsTree → Host.InDirectories m := by
  refine ⟨fun s st hs => ⟨?_, fun name hname => ?_, fun name program h => ?_, fun name hname => ?_,
    fun name program => SearchPath.find?_eq_some_iff_means, fun hread => ⟨?_, fun name hslash hrun => ?_⟩⟩,
    fun m => Machine.inDirectories⟩
  · exact List.pairwise_map.2 (Names.pairwise_sortedBy Prod.fst _)
  · exact ⟨SearchPath.lookup_of_not_bare hs hname, SearchPath.find?_of_not_bare hname⟩
  · exact SearchPath.exists_find?_of_lookup hs h
  · rw [Command.exists_resolve_iff]
    refine (Completion.mem_commandNames.1 hname).imp_right ?_
    rintro ⟨program, h⟩
    rw [Command.program?_of_bare (SearchPath.isName_of_lookup hs h).no_slash]
    exact SearchPath.exists_find?_of_lookup hs h
  · exact SearchPath.lookup_listAll hs hread
  · rw [Completion.mem_commandNames, SearchPath.lookup_listAll hs hread,
      ← Command.program?_of_bare hslash]
    exact Command.exists_resolve_iff.1 hrun

/-- A machine with a file that is not executable and an executable one of the same name, a link to the
latter and a link that leads nowhere. -/
def besideTools : Machine :=
  .ofDisk ((((Disk.base.install [] "/r/a/tool" (.file [] {})).install [] "/r/b/tool"
    (.file [] { executable := true })).install [] "/r/b/also" (.link "tool")).install [] "/r/b/lost"
      (.link "nowhere")) "/r" [] []

/-- Of two files `tool` the executable one is listed and found, though the other comes first; the link
to it is listed as well, and the other link is not. One of the directories is missing. -/
theorem listed_as_found_tools :
    Host.InDirectories besideTools ∧
      (SearchPath.ofValue (some "/r/a::/r/none:/r/b:/r/a")).listAll besideTools =
        [("also", "/r/b/also"), ("tool", "/r/b/tool")] ∧
      (SearchPath.ofValue (some "/r/a::/r/none:/r/b:/r/a")).find? besideTools "tool" =
        some "/r/b/tool" ∧
      (SearchPath.ofValue (some "/r/a::/r/none:/r/b:/r/a")).find? besideTools "lost" = none ∧
      "also" ∈ Completion.commandNames (.ofValue (some "/r/a::/r/none:/r/b:/r/a")) besideTools := by
  have hs : Host.InDirectories besideTools := listed_as_found.2 besideTools (by decide +kernel)
  have hlist : (SearchPath.ofValue (some "/r/a::/r/none:/r/b:/r/a")).listAll besideTools =
      [("also", "/r/b/also"), ("tool", "/r/b/tool")] := by decide +kernel
  have hread : (SearchPath.ofValue (some "/r/a::/r/none:/r/b:/r/a")).Readable besideTools := by
    unfold SearchPath.Readable
    decide +kernel
  obtain ⟨-, -, -, -, -, hall⟩ := listed_as_found.1 besideTools
    ⟨"/", none, .ofValue (some "/r/a::/r/none:/r/b:/r/a"), {}⟩ hs
  obtain ⟨hlookup, hoffered⟩ := hall hread
  refine ⟨hs, hlist, ?_, ?_, hoffered "also" (by decide) ⟨.external "/r/b/also", by decide +kernel⟩⟩
  · rw [← hlookup, hlist]
    rfl
  · rw [← hlookup, hlist]
    rfl

end LineShell
