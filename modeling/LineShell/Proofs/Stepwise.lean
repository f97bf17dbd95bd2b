import LineShell.Proofs.Changes
import LineShell.Proofs.Lookup

/-!
# Going in steps

Going to a directory and on from there is the same as going all the way at once, by the two paths
with a slash between them.

The parts of two such paths come one after the other (`parts_append_slash`), and so they do when the
second path is joined to the first (`parts_join`). Folding reads parts from the left, and what it has
come to after some of them is all that the others depend on. So it makes no difference whether the
first path has been folded already (`normalize_join`). Where `..` leads up over the place at which
the paths meet, it takes away a name of the first one, and at the root it does nothing; both are in
the list of names that is handed on.

A tilde at the start of the first path is expanded with the whole path after it, one part at a time.
The parts that are put after the home directory are those of the rest, whichever path they are from
(`exists_expand_append`).
-/

namespace LineShell
namespace Path

section Parts

variable {dir p q : String}

theorem parts_append_slash (p q : String) : parts (p ++ "/" ++ q) = parts p ++ parts q := by
  simp [parts, List.splitOn_append_cons_self]

theorem parts_append_of_slash (hdir : dir.toList.getLast? = some '/') (q : String) :
    parts (dir ++ q) = parts dir ++ parts q := by
  obtain ⟨cs, hcs⟩ := List.getLast?_eq_some_iff.1 hdir
  have hdir' : dir = String.ofList cs ++ "/" := by
    rw [← String.toList_inj, hcs, String.toList_append, String.toList_ofList]
    rfl
  have hparts : parts dir = parts (String.ofList cs) := by
    rw [hdir', ← String.append_empty (s := _ ++ "/"), parts_append_slash]
    exact List.append_nil _
  rw [hparts, hdir', parts_append_slash]

/-- **The parts of a path that is joined to a directory** come after those of the directory. -/
theorem parts_join (dir : String) (hq : ¬ isAbsolute q) :
    parts (join dir q) = parts dir ++ parts q := by
  rw [join, if_neg hq]
  split_ifs with hdir
  · rcases hdir with hempty | hslash
    · rw [String.toList_eq_nil_iff.1 hempty, String.empty_append]
      rfl
    · exact parts_append_of_slash hslash q
  · exact parts_append_slash dir q

theorem isAbsolute_join_iff (hq : ¬ isAbsolute q) : isAbsolute (join dir q) ↔ isAbsolute dir := by
  by_cases hdir : dir = ""
  · subst hdir
    have hjoin : join "" q = q := by simp [join]
    rw [hjoin]
    exact iff_of_false hq (by decide)
  · rw [join, if_neg hq]
    split_ifs
    · rw [isAbsolute_append_iff hdir]
    · rw [String.append_assoc, isAbsolute_append_iff hdir]

/-- It does not matter to the parts in which order three paths are joined. -/
theorem parts_join_join (cwd dir : String) (hq : ¬ isAbsolute q) :
    parts (join cwd (join dir q)) = parts (join cwd dir) ++ parts q := by
  by_cases hdir : isAbsolute dir
  · rw [join, if_pos ((isAbsolute_join_iff hq).2 hdir), parts_join dir hq, join, if_pos hdir]
  · rw [parts_join cwd (mt (isAbsolute_join_iff hq).1 hdir), parts_join dir hq, parts_join cwd hdir,
      List.append_assoc]

/-- Names with slashes between them have these names as their parts. -/
theorem parts_ofNames {names : List String} (h : ∀ s ∈ names, IsName s) :
    parts (ofNames true names) = names := by
  by_cases hnil : names = []
  · subst hnil
    rfl
  · have hkept : ∀ cs ∈ names.map String.toList, decide (cs ≠ [] ∧ cs ≠ ['.']) = true := by
      rw [List.forall_mem_map]
      intro s hs
      rw [decide_eq_true_eq]
      exact ⟨fun he => (h s hs).ne_empty (String.toList_injective he),
        fun he => (h s hs).ne_dot (String.toList_injective he)⟩
    rw [parts, splitOn_ofNames true h hnil, List.filter_append, List.filter_eq_self.2 hkept]
    simp

end Parts

section Fold

variable {p q : String}

/-- Names are put down as they come. -/
theorem foldl_step_of_names {names : List String} (h : ∀ s ∈ names, IsName s)
    (before : List String) : names.foldl step before = before ++ names := by
  induction names generalizing before with
  | nil => exact (List.append_nil before).symm
  | cons name names ih =>
    rw [List.forall_mem_cons] at h
    rw [List.foldl_cons, ih h.2, step, if_neg h.1.ne_dots, List.append_assoc, List.singleton_append]

/-- What a path comes to when it is folded are names. -/
theorem isName_of_mem_foldl_parts (p : String) : ∀ s ∈ (parts p).foldl step [], IsName s :=
  isName_of_mem_foldl (fun _ => isName_of_mem_parts) (by simp)

/-- Folding a folded path again brings back its names. -/
theorem foldl_parts_normalize (hp : isAbsolute p) :
    (parts (normalize p)).foldl step [] = (parts p).foldl step [] := by
  have hnames := isName_of_mem_foldl_parts p
  rw [normalize_eq, hp, parts_ofNames hnames, foldl_step_of_names hnames, List.nil_append]

/-- **Folding can be done in steps.** -/
theorem normalize_join (hp : isAbsolute p) (hq : ¬ isAbsolute q) :
    normalize (join (normalize p) q) = normalize (join p q) := by
  have habs : isAbsolute (normalize p) := by
    rw [normalize_eq, hp]
    exact isAbsolute_ofNames (isName_of_mem_foldl_parts p)
  rw [normalize_eq, isAbsolute_join habs, parts_join _ hq, List.foldl_append,
    foldl_parts_normalize hp, ← List.foldl_append, ← parts_join p hq, ← isAbsolute_join hp q,
    ← normalize_eq]

end Fold

section Tilde

variable {home : Option String} {p q e : String}

/-- A path that goes on from where one is: it starts neither at the root nor at home. -/
structure GoesOn (q : String) : Prop where
  /-- It does not start at the root. -/
  not_root : q.toList.head? ≠ some '/'
  /-- It does not lead home. -/
  not_home : q ≠ "~"
  /-- It does not lead to something below home. -/
  not_below_home : ¬ ['~', '/'] <+: q.toList

theorem belowHome?_eq_none (hhome : p ≠ "~") (hbelow : ¬ ['~', '/'] <+: p.toList) :
    belowHome? p = none := by
  rw [belowHome?]
  split
  next hp => exact absurd (String.toList_inj.1 hp) hhome
  next rest hp => exact absurd (hp ▸ List.prefix_append ['~', '/'] rest) hbelow
  next => rfl

namespace GoesOn

theorem not_isAbsolute (h : GoesOn q) : ¬ isAbsolute q := by
  rw [isAbsolute, beq_iff_eq]
  exact h.not_root

theorem expand_eq (h : GoesOn q) (home : Option String) : expand home q = .ok q := by
  simp only [expand, belowHome?_eq_none h.not_home h.not_below_home]

end GoesOn

/-- The texts between the slashes of what comes after a tilde; these are put after home. -/
def texts (cs : List Char) : List (List Char) :=
  (cs.splitOn '/').filter (· ≠ [])

theorem of_mem_texts {cs t : List Char} (h : t ∈ texts cs) : t ≠ [] ∧ '/' ∉ t := by
  rw [texts, List.mem_filter, decide_eq_true_eq] at h
  exact ⟨h.2, not_mem_of_mem_splitOn h.1⟩

theorem texts_append_slash (cs : List Char) (q : String) :
    texts (cs ++ '/' :: q.toList) = texts cs ++ texts q.toList := by
  simp [texts, List.splitOn_append_cons_self]

theorem parts_eq_texts (q : String) :
    parts q = ((texts q.toList).filter (· ≠ ['.'])).map String.ofList := by
  rw [parts, texts, List.filter_filter]
  simp [Bool.and_comm]

/-- A path that starts at home still does with a slash and another path after it. -/
theorem exists_belowHome?_append {rest : List Char} (h : belowHome? p = some rest) (q : String) :
    ∃ rest', belowHome? (p ++ "/" ++ q) = some rest' ∧ texts rest' = texts rest ++ texts q.toList := by
  rw [belowHome?] at h
  split at h
  next hp =>
    obtain rfl := Option.some.inj h
    refine ⟨q.toList, ?_, rfl⟩
    simp [belowHome?, hp]
  next rest' hp =>
    obtain rfl := Option.some.inj h
    refine ⟨rest' ++ '/' :: q.toList, ?_, texts_append_slash rest' q⟩
    simp [belowHome?, hp]
  next => cases h

/-- A path that does not start at home does not do so with a slash and another path after it. -/
theorem belowHome?_append_of_none (hp : p ≠ "") (h : belowHome? p = none) (q : String) :
    belowHome? (p ++ "/" ++ q) = none := by
  have hhome : p ≠ "~" := by
    rintro rfl
    cases h
  refine belowHome?_eq_none (fun he => ?_) fun hbelow => ?_
  · have hslash : '/' ∈ (p ++ "/" ++ q).toList := by simp
    rw [he] at hslash
    simp at hslash
  · -- the slash after a tilde is either the one between the paths or in the first path
    obtain ⟨c, cs, hcs⟩ := List.exists_cons_of_ne_nil (mt String.toList_eq_nil_iff.1 hp)
    cases cs with
    | nil =>
      refine hhome (String.toList_inj.1 ?_)
      simp only [String.toList_append, hcs, List.cons_append, List.cons_prefix_cons] at hbelow
      rw [hcs, ← hbelow.1]
      rfl
    | cons c' cs =>
      simp only [String.toList_append, hcs, List.cons_append, List.cons_prefix_cons] at hbelow
      obtain ⟨rfl, rfl, -⟩ := hbelow
      simp [belowHome?, hcs] at h

/-- What is put after a directory text by text are the parts of the texts. -/
theorem parts_foldl_join (cwd dir : String) {ts : List (List Char)}
    (h : ∀ t ∈ ts, t ≠ [] ∧ '/' ∉ t) :
    parts (join cwd (ts.foldl (fun d t => join d (String.ofList t)) dir)) =
      parts (join cwd dir) ++ (ts.filter (· ≠ ['.'])).map String.ofList := by
  induction ts generalizing dir with
  | nil => exact (List.append_nil _).symm
  | cons t ts ih =>
    rw [List.forall_mem_cons] at h
    obtain ⟨⟨hne, hslash⟩, hts⟩ := h
    have hrel : ¬ isAbsolute (String.ofList t) :=
      not_isAbsolute_of_not_mem (by rwa [String.toList_ofList])
    have ht : parts (String.ofList t) = ([t].filter (· ≠ ['.'])).map String.ofList := by
      rw [parts, String.toList_ofList, List.splitOn_eq_singleton hslash]
      simp [List.filter_singleton, hne]
    rw [List.foldl_cons, ih _ hts, parts_join_join cwd dir hrel, ht, List.append_assoc,
      ← List.map_append, ← List.filter_append, List.singleton_append]

/-- **A path with another one after it is expanded** to a path that has the parts of both. -/
theorem exists_expand_append (hp : p ≠ "") (h : expand home p = .ok e) (q : String) :
    ∃ e', expand home (p ++ "/" ++ q) = .ok e' ∧
      ∀ cwd, parts (join cwd e') = parts (join cwd e) ++ parts q := by
  unfold expand at h
  split at h
  next hnone =>
    obtain rfl := Except.ok.inj h
    refine ⟨p ++ "/" ++ q, ?_, fun cwd => ?_⟩
    · simp only [expand, belowHome?_append_of_none hp hnone]
    · rw [String.append_assoc, join_append cwd hp, ← String.append_assoc, parts_append_slash]
  next => cases h
  next rest dir hrest =>
    obtain rfl := Except.ok.inj h
    obtain ⟨rest', hrest', htexts⟩ := exists_belowHome?_append hrest q
    refine ⟨(texts rest').foldl (fun d t => join d (String.ofList t)) dir, ?_, fun cwd => ?_⟩
    · simp only [expand, hrest', texts]
    · rw [htexts, List.foldl_append, parts_foldl_join cwd _ fun t => of_mem_texts, ← parts_eq_texts,
        texts]

/-- **Resolving can be done in steps.** -/
theorem resolve_resolve {cwd d : String} (hcwd : isAbsolute cwd) (hp : p ≠ "") (hq : GoesOn q)
    (h : resolve home cwd p = .ok d) : resolve home d q = resolve home cwd (p ++ "/" ++ q) := by
  cases he : expand home p with
  | error e => simp [resolve, he, Except.map] at h
  | ok e =>
    obtain rfl : normalize (join cwd e) = d := by simpa [resolve, he, Except.map] using h
    obtain ⟨e', he', hparts⟩ := exists_expand_append hp he q
    have hrel := hq.not_isAbsolute
    have hjoin : normalize (join (join cwd e) q) = normalize (join cwd e') := by
      rw [normalize_eq, normalize_eq, parts_join _ hrel, hparts,
        isAbsolute_join (isAbsolute_join hcwd e), isAbsolute_join hcwd]
    rw [resolve, resolve, hq.expand_eq, he', Except.map, Except.map,
      normalize_join (isAbsolute_join hcwd e) hrel, hjoin]

end Tilde

end Path

namespace Builtin

variable {σ : Type} [Host σ] {st st' : State} {s : σ} {p q : String}

theorem goTo_eq_ok_iff :
    goTo st s p = .ok st' ↔ ∃ target, st.resolve p = .ok target ∧ Host.isDirectory s target ∧
      { st with cwd := target } = st' := by
  rw [goTo]
  rcases st.resolve p with ⟨⟩ | target
  · simp
  · by_cases hdir : Host.isDirectory s target
    · simp [hdir]
    · by_cases hexists : Host.pathExists s target <;> simp [hdir, hexists]

/-- What `cd` comes to hangs on where its path leads, and not on how that is spelled. -/
theorem goTo_eq_ok_congr {d : String} (h : State.resolve { st with cwd := d } q = st.resolve p) :
    goTo { st with cwd := d } s q = .ok st' ↔ goTo st s p = .ok st' := by
  simp only [goTo_eq_ok_iff, h]

theorem run_cd_of_ok (h : goTo st s p = .ok st') : cd.run [p] st s = (.ok .silent, st', s) := by
  simp only [run, runCd, h]

theorem run_cd_of_error {e : CommandError} (h : goTo st s p = .error e) :
    cd.run [p] st s = (.error e, st, s) := by
  simp only [run, runCd, h]

/-- A `cd` that has succeeded has gone to where its path leads, and has done nothing else. -/
theorem goTo_of_run {o : Outcome} {s' : σ} (h : cd.run [p] st s = (.ok o, st', s')) :
    goTo st s p = .ok st' ∧ s' = s := by
  cases hgo : goTo st s p with
  | error e =>
    rw [run_cd_of_error hgo] at h
    cases h
  | ok st₁ =>
    rw [run_cd_of_ok hgo] at h
    cases h
    exact ⟨rfl, rfl⟩

end Builtin

/-- **Going in steps is going at once.** A path is resolved from an absolute directory, and from
there a second one that starts neither at the root nor at home. The two with a slash between them are
resolved to the same. So when `cd` has gone to a directory, going on from there and going all the
way from the start come to the same: either both succeed and the shell is in the same state, or both
fail and leave it as it was. -/
theorem going_in_steps :
    (∀ (home : Option String) (cwd p q d : String), Path.isAbsolute cwd → p ≠ "" →
      Path.GoesOn q → Path.resolve home cwd p = .ok d →
      Path.resolve home d q = Path.resolve home cwd (p ++ "/" ++ q)) ∧
    ∀ {σ : Type} [Host σ] (st st₁ : State) (s s₁ : σ) (p q : String) (o : Outcome),
      Path.isAbsolute st.cwd → p ≠ "" → Path.GoesOn q →
      Builtin.cd.run [p] st s = (.ok o, st₁, s₁) →
      (∃ st₂, Builtin.cd.run [q] st₁ s₁ = (.ok .silent, st₂, s₁) ∧
        Builtin.cd.run [p ++ "/" ++ q] st s = (.ok .silent, st₂, s)) ∨
      ∃ e e', Builtin.cd.run [q] st₁ s₁ = (.error e, st₁, s₁) ∧
        Builtin.cd.run [p ++ "/" ++ q] st s = (.error e', st, s) := by
  refine ⟨fun home cwd p q d hcwd hp hq h => Path.resolve_resolve hcwd hp hq h, ?_⟩
  intro σ _ st st₁ s s₁ p q o hcwd hp hq hrun
  obtain ⟨hgo, rfl⟩ := Builtin.goTo_of_run hrun
  obtain ⟨d, hd, -, rfl⟩ := Builtin.goTo_eq_ok_iff.1 hgo
  have hresolve : State.resolve { st with cwd := d } q = st.resolve (p ++ "/" ++ q) :=
    Path.resolve_resolve hcwd hp hq hd
  cases hon : Builtin.goTo { st with cwd := d } s₁ q with
  | ok st₂ =>
    have hall := (Builtin.goTo_eq_ok_congr hresolve).1 hon
    exact .inl ⟨st₂, Builtin.run_cd_of_ok hon, Builtin.run_cd_of_ok hall⟩
  | error e =>
    cases hall : Builtin.goTo st s₁ (p ++ "/" ++ q) with
    | ok st₂ => exact absurd (hon.symm.trans ((Builtin.goTo_eq_ok_congr hresolve).2 hall)) (by simp)
    | error e' => exact .inr ⟨e, e', Builtin.run_cd_of_error hon, Builtin.run_cd_of_error hall⟩

/-- From `/`, `~//sub` leads to `/r/sub`. Going on from there by `../../..//r/./sub` leads up over the
root and back, and so does going all the way at once. -/
theorem going_in_steps_sub :
    Path.resolve (some "/r") "/" "~//sub" = .ok "/r/sub" ∧
      Path.resolve (some "/r") "/r/sub" "../../..//r/./sub" = .ok "/r/sub" ∧
      ∃ st, Builtin.cd.run ["../../..//r/./sub"] ⟨"/r/sub", some "/r", .ofValue none, {}⟩
          State.besideSub = (.ok .silent, st, State.besideSub) ∧
        Builtin.cd.run ["~//sub/../../..//r/./sub"] ⟨"/", some "/r", .ofValue none, {}⟩
          State.besideSub = (.ok .silent, st, State.besideSub) := by
  have hon : Path.GoesOn "../../..//r/./sub" := ⟨by decide, by decide, by decide⟩
  have hfirst : Path.resolve (some "/r") "/" "~//sub" = .ok "/r/sub" := by decide +kernel
  have hall : Path.resolve (some "/r") "/" "~//sub/../../..//r/./sub" = .ok "/r/sub" := by
    decide +kernel
  have hdir : Host.isDirectory State.besideSub "/r/sub" := by decide +kernel
  have hsteps := going_in_steps.1 (some "/r") "/" "~//sub" _ _ rfl (by decide) hon hfirst
  have hcd : Builtin.cd.run ["~//sub"] ⟨"/", some "/r", .ofValue none, {}⟩ State.besideSub =
      (.ok .silent, ⟨"/r/sub", some "/r", .ofValue none, {}⟩, State.besideSub) :=
    Builtin.run_cd_of_ok (Builtin.goTo_eq_ok_iff.2 ⟨_, hfirst, hdir, rfl⟩)
  have hok : Builtin.cd.run ["~//sub/../../..//r/./sub"] ⟨"/", some "/r", .ofValue none, {}⟩
      State.besideSub =
        (.ok .silent, ⟨"/r/sub", some "/r", .ofValue none, {}⟩, State.besideSub) :=
    Builtin.run_cd_of_ok (Builtin.goTo_eq_ok_iff.2 ⟨_, hall, hdir, rfl⟩)
  refine ⟨hfirst, hsteps.trans hall, ?_⟩
  rcases going_in_steps.2 _ _ _ _ _ _ _ rfl (by decide) hon hcd with hboth | ⟨e, e', -, herror⟩
  · exact hboth
  · exact absurd (herror.symm.trans hok) (by simp)

end LineShell
