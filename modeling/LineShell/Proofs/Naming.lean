import LineShell.Proofs.Changes
import Mathlib.Data.List.Forall2

/-!
# What a name stands for

A name stands for the builtin of that name, or else for a program, or else for nothing.
`Command.IsProgram` says which file a name means as a program without looking anything up: it is
the path itself if there is a slash in the name, and otherwise the first executable file of the
name in the directories of the search path. `Command.resolve` finds just that
(`resolve_eq_builtin_iff`, `resolve_eq_external_iff`, `resolve_eq_none_iff`).

`type` words the three cases apart. It goes through them by itself, but in the same order
(`Builtin.describe_eq`), and no program is in a file with the name `a shell builtin`; so from what
it says one can tell what the name stands for (`reports_builtin_iff`, `reports_program_iff`,
`reports_nothing_iff`).
-/

namespace LineShell

/-- A path below a directory has a slash in it, unless neither the directory nor the name has. -/
theorem Path.slash_mem_join {dir name : String} (h : dir ≠ "" ∨ '/' ∈ name.toList) :
    '/' ∈ (join dir name).toList := by
  unfold join
  split_ifs with habsolute hdir
  · exact List.mem_of_mem_head? (by simpa [isAbsolute] using habsolute)
  · rw [String.toList_append, List.mem_append]
    rcases h with hne | hname
    · have hnil : dir.toList ≠ [] := by simpa using hne
      have hlast : dir.toList.getLast? = some '/' := hdir.resolve_left hnil
      exact .inl (List.mem_of_getLast? hlast)
    · exact .inr hname
  · simp

namespace Builtin

theorem ofName?_eq_some_iff {name : String} {b : Builtin} :
    ofName? name = some b ↔ b.name = name := by
  constructor
  · intro h
    exact (eq_name_of_ofName? h).symm
  · rintro rfl
    cases b <;> decide

theorem ofName?_eq_none_iff {name : String} :
    ofName? name = none ↔ ∀ b : Builtin, b.name ≠ name := by
  rw [Option.eq_none_iff_forall_ne_some]
  exact forall_congr' fun b => ofName?_eq_some_iff.not

end Builtin

variable {σ : Type} [Host σ]

/-- A name is looked up if it is not empty and holds no slash, and the first directory that has an
executable file of the name counts. -/
theorem SearchPath.find?_eq_some_iff {sp : SearchPath} {s : σ} {name program : String} :
    sp.find? s name = some program ↔ name ≠ "" ∧ '/' ∉ name.toList ∧
      ∃ before dir after, sp.dirs = before ++ dir :: after ∧
        (∀ d ∈ before, ¬ Host.isExecutable s (Path.join d name)) ∧
        Host.isExecutable s (Path.join dir name) ∧ Path.join dir name = program := by
  have hbare : isBare name ↔ name ≠ "" ∧ '/' ∉ name.toList := by simp [isBare]
  have hfind : sp.find? s name = some program ↔ isBare name ∧
      (sp.dirs.find? (Host.isExecutable s ∘ (Path.join · name))).map (Path.join · name) =
        some program := by
    rw [find?, List.find?_map]
    split_ifs with hname <;> simp [hname]
  rw [hfind, hbare, and_assoc, Option.map_eq_some_iff]
  refine and_congr_right fun _ => and_congr_right fun _ => ?_
  constructor
  · rintro ⟨dir, hdir, hprogram⟩
    obtain ⟨hx, before, after, hdirs, hbefore⟩ := List.find?_eq_some_iff_append.1 hdir
    exact ⟨before, dir, after, hdirs, by simpa using hbefore, hx, hprogram⟩
  · rintro ⟨before, dir, after, hdirs, hbefore, hx, hprogram⟩
    refine ⟨dir, List.find?_eq_some_iff_append.2 ⟨hx, before, after, hdirs, ?_⟩, hprogram⟩
    simpa using hbefore

namespace Command

/-- The file that a name means as a program. A name with a slash is a path as seen from the working
directory. Any other is looked for in the directories of the search path, and the first one that
has it counts. -/
inductive IsProgram (st : State) (s : σ) (name : String) : String → Prop where
  /-- The path leads to an executable file. -/
  | path (hslash : '/' ∈ name.toList) (hx : Host.isExecutable s (Path.join st.cwd name)) :
    IsProgram st s name (Path.join st.cwd name)
  /-- There is an executable file of the name in a directory, and in none before it. -/
  | found {before after : List String} {dir : String} (hslash : '/' ∉ name.toList)
      (hname : name ≠ "") (hdirs : st.searchPath.dirs = before ++ dir :: after)
      (hbefore : ∀ d ∈ before, ¬ Host.isExecutable s (Path.join d name))
      (hx : Host.isExecutable s (Path.join dir name)) : IsProgram st s name (Path.join dir name)

section Resolve

variable {st : State} {s : σ} {name program : String}

/-- The file of a program is never told by a name alone. -/
theorem IsProgram.slash_mem (h : IsProgram st s name program) : '/' ∈ program.toList := by
  cases h with
  | path hslash => exact Path.slash_mem_join (.inr hslash)
  | @found before after dir _ _ hdirs =>
    have hmem : dir ∈ st.searchPath.dirs := by simp [hdirs]
    exact Path.slash_mem_join (.inl fun hdir => st.searchPath.spelled (hdir ▸ hmem))

theorem IsProgram.ne_builtin (h : IsProgram st s name program) : program ≠ "a shell builtin" := by
  rintro rfl
  have hslash := h.slash_mem
  simp at hslash

theorem program?_eq_some_iff : program? st s name = some program ↔ IsProgram st s name program := by
  by_cases hslash : '/' ∈ name.toList
  · have hprogram : program? st s name = some program ↔
        Host.isExecutable s (Path.join st.cwd name) ∧ Path.join st.cwd name = program := by
      simp [program?, hslash]
    rw [hprogram]
    constructor
    · rintro ⟨hx, rfl⟩
      exact .path hslash hx
    · rintro (⟨-, hx⟩ | ⟨hnot⟩)
      · exact ⟨hx, rfl⟩
      · exact absurd hslash hnot
  · have hprogram : program? st s name = st.searchPath.find? s name := by simp [program?, hslash]
    rw [hprogram, SearchPath.find?_eq_some_iff]
    constructor
    · rintro ⟨hname, -, before, dir, after, hdirs, hbefore, hx, rfl⟩
      exact .found hslash hname hdirs hbefore hx
    · rintro (⟨hyes⟩ | ⟨-, hname, hdirs, hbefore, hx⟩)
      · exact absurd hyes hslash
      · exact ⟨hname, hslash, _, _, _, hdirs, hbefore, hx, rfl⟩

theorem resolve_eq_builtin_iff {b : Builtin} :
    resolve st s name = some (.builtin b) ↔ b.name = name := by
  rw [← Builtin.ofName?_eq_some_iff]
  constructor
  · exact ofName?_of_resolve
  · intro h
    simp only [resolve, h]

/-- A name means a program only if it is no builtin's. -/
theorem resolve_eq_external_iff :
    resolve st s name = some (.external program) ↔
      (∀ b : Builtin, b.name ≠ name) ∧ IsProgram st s name program := by
  rw [← Builtin.ofName?_eq_none_iff, ← program?_eq_some_iff, resolve]
  cases Builtin.ofName? name <;> simp

theorem resolve_eq_none_iff :
    resolve st s name = none ↔
      (∀ b : Builtin, b.name ≠ name) ∧ ∀ program, ¬ IsProgram st s name program := by
  simp only [← Builtin.ofName?_eq_none_iff, ← program?_eq_some_iff, resolve,
    ← Option.eq_none_iff_forall_ne_some]
  cases Builtin.ofName? name <;> simp

end Resolve
end Command

section Wording

variable {name program : String}

theorem is_inj {other : String} :
    s!"{name} is {program}" = s!"{name} is {other}" ↔ program = other := by
  simp [toString, ← String.toList_inj]

/-- That a name is a builtin's is worded as if it were the program `a shell builtin`. -/
theorem is_builtin_iff :
    s!"{name} is a shell builtin" = s!"{name} is {program}" ↔ program = "a shell builtin" := by
  have hbuiltin : s!"{name} is a shell builtin" = name ++ " is " ++ "a shell builtin" := by
    rw [String.append_assoc]
    rfl
  have hprogram : s!"{name} is {program}" = name ++ " is " ++ program := by simp [toString]
  rw [hbuiltin, hprogram, String.append_right_inj, eq_comm]

theorem not_found_ne : s!"{name}: not found" ≠ s!"{name} is {program}" := by
  have hnothing : s!"{name}: not found" = name ++ ": not found" := rfl
  have hprogram : s!"{name} is {program}" = name ++ (" is " ++ program) := by
    simp [toString, String.append_assoc]
  rw [hnothing, hprogram, Ne, String.append_right_inj]
  intro h
  have hhead := congrArg (fun text => text.toList.head?) h
  simp at hhead

end Wording

/-- What `type` spells out of a name is what the name stands for. -/
theorem Builtin.describe_eq (st : State) (s : σ) (name : String) :
    describe st s name =
      match Command.resolve st s name with
      | some (.builtin _) => s!"{name} is a shell builtin"
      | some (.external program) => s!"{name} is {program}"
      | none => s!"{name}: not found" := by
  unfold describe Command.resolve
  cases ofName? name with
  | some b => rfl
  | none => cases Command.program? st s name <;> rfl

namespace Command

section Reports

/-- What `type` says of a name by itself; it does nothing else. -/
def Reports (st : State) (s : σ) (name text : String) : Prop :=
  Builtin.type.run [name] st s = (.ok (.text text), st, s)

variable {st : State} {s : σ} {name text program : String}

theorem reports_iff : Reports st s name text ↔ Builtin.describe st s name = text := by
  simp [Reports, Builtin.run, Builtin.runType]

theorem reports_builtin_iff :
    Reports st s name s!"{name} is a shell builtin" ↔
      ∃ b, resolve st s name = some (.builtin b) := by
  rw [reports_iff, Builtin.describe_eq]
  rcases hc : resolve st s name with _ | b | program
  · exact iff_of_false (is_builtin_iff.2 rfl ▸ not_found_ne) (by simp)
  · exact iff_of_true rfl ⟨b, rfl⟩
  · refine iff_of_false (fun h => ?_) (by simp)
    exact (resolve_eq_external_iff.1 hc).2.ne_builtin (is_builtin_iff.1 h.symm)

theorem reports_program_iff :
    program ≠ "a shell builtin" ∧ Reports st s name s!"{name} is {program}" ↔
      resolve st s name = some (.external program) := by
  rw [reports_iff, Builtin.describe_eq]
  rcases hc : resolve st s name with _ | b | program'
  · exact iff_of_false (fun h => not_found_ne h.2) (by simp)
  · exact iff_of_false (fun h => h.1 (is_builtin_iff.1 h.2)) (by simp)
  · rw [Option.some.injEq, external.injEq, is_inj]
    constructor
    · exact And.right
    · rintro rfl
      exact ⟨(resolve_eq_external_iff.1 hc).2.ne_builtin, rfl⟩

theorem reports_nothing_iff :
    Reports st s name s!"{name}: not found" ↔ resolve st s name = none := by
  rw [reports_iff, Builtin.describe_eq]
  rcases resolve st s name with _ | b | program
  · exact iff_of_true rfl rfl
  · exact iff_of_false (fun h => not_found_ne (h.symm.trans (is_builtin_iff.2 rfl))) (by simp)
  · exact iff_of_false (fun h => not_found_ne h.symm) (by simp)

/-- Several names are told of one by one, each as by itself. -/
theorem exists_reports (st : State) (s : σ) {names : List String} (h : names ≠ []) :
    ∃ texts, List.Forall₂ (Reports st s) names texts ∧
      Builtin.type.run names st s = (.ok (.text ("\n".intercalate texts)), st, s) := by
  refine ⟨names.map (Builtin.describe st s), ?_, ?_⟩
  · rw [List.forall₂_map_right_iff]
    exact List.forall₂_same.2 fun name _ => reports_iff.2 rfl
  · obtain ⟨name, rest, rfl⟩ := List.exists_cons_of_ne_nil h
    rfl

end Reports

end Command
end LineShell
