import LineShell.Proofs.Stepwise

/-!
# What a path is resolved to

Resolving looks at no file. The texts between the slashes of a path are read from the left and work
on a stack of names, whose top is the deepest one (`Evaluates`):

| text         | the stack                                |
|--------------|------------------------------------------|
| a name       | gets it on top                           |
| `.`, nothing | stays as it is                           |
| `..`         | loses its top; an empty stack stays empty|

`Route` tells which texts are read: those of an absolute path alone, those of any other path after
those of the directory, and after a tilde those of the home directory first. They are those of the
expanded path, joined to the directory (`Route.exists_expand`). A path is resolved to the names that
they leave on the stack (`evaluates_parts_iff`), with a slash before each. There is nothing in it then
that could be folded or expanded, so it is resolved to itself from anywhere (`normalize_ofNames`,
`resolve_ofNames`).
-/

namespace LineShell
namespace Path

/-- The texts between the slashes of a path, empty ones included. -/
def components (p : String) : List (List Char) :=
  p.toList.splitOn '/'

/-- What texts, read one after the other, make of a stack of names. -/
inductive Evaluates : List (List Char) → List String → List String → Prop where
  /-- All texts have been read. -/
  | done (stack : List String) : Evaluates [] stack stack
  /-- Nothing and a dot change nothing. -/
  | pass {t : List Char} {ts : List (List Char)} {stack result : List String}
      (ht : t = [] ∨ t = ['.']) (hrest : Evaluates ts stack result) :
    Evaluates (t :: ts) stack result
  /-- A name is put on top. -/
  | push {t : List Char} {ts : List (List Char)} {stack result : List String}
      (ht : ¬ (t = [] ∨ t = ['.'])) (hup : t ≠ ['.', '.'])
      (hrest : Evaluates ts (String.ofList t :: stack) result) : Evaluates (t :: ts) stack result
  /-- Two dots take the top away. -/
  | pop {name : String} {ts : List (List Char)} {stack result : List String}
      (hrest : Evaluates ts stack result) : Evaluates (['.', '.'] :: ts) (name :: stack) result
  /-- Where there is no top, two dots change nothing. -/
  | bottom {ts : List (List Char)} {result : List String} (hrest : Evaluates ts [] result) :
    Evaluates (['.', '.'] :: ts) [] result

/-- The texts that do something to a stack. -/
def effective (ts : List (List Char)) : List String :=
  (ts.filter fun t => t ≠ [] ∧ t ≠ ['.']).map String.ofList

theorem parts_eq_effective (p : String) : parts p = effective (components p) := rfl

theorem effective_append (ts us : List (List Char)) :
    effective (ts ++ us) = effective ts ++ effective us := by
  simp [effective]

theorem effective_cons_of_pass {t : List Char} (ht : t = [] ∨ t = ['.']) (ts : List (List Char)) :
    effective (t :: ts) = effective ts := by
  rcases ht with rfl | rfl <;> simp [effective]

theorem effective_cons {t : List Char} (ht : ¬ (t = [] ∨ t = ['.'])) (ts : List (List Char)) :
    effective (t :: ts) = String.ofList t :: effective ts := by
  rw [not_or] at ht
  simp [effective, ht]

section Stack

variable {ts : List (List Char)} {stack result result' : List String}

/-- What is left on the stack is determined. -/
theorem Evaluates.unique (h : Evaluates ts stack result) (h' : Evaluates ts stack result') :
    result = result' := by
  induction h with
  | done => cases h' with | done => rfl
  | pass ht _ ih =>
    cases h' with
    | pass _ hrest => exact ih hrest
    | push ht' => exact absurd ht ht'
    | pop | bottom => simp at ht
  | push ht hup _ ih =>
    cases h' with
    | pass ht' => exact absurd ht' ht
    | push _ _ hrest => exact ih hrest
    | pop | bottom => exact absurd rfl hup
  | pop _ ih =>
    cases h' with
    | pass ht => simp at ht
    | push _ hup => exact absurd rfl hup
    | pop hrest => exact ih hrest
  | bottom _ ih =>
    cases h' with
    | pass ht => simp at ht
    | push _ hup => exact absurd rfl hup
    | bottom hrest => exact ih hrest

/-- Folding keeps the stack as a list whose last name is the top. -/
theorem evaluates_foldl (ts : List (List Char)) (stack : List String) :
    Evaluates ts stack ((effective ts).foldl step stack.reverse).reverse := by
  induction ts generalizing stack with
  | nil =>
    have hstack : stack.reverse.reverse = stack := List.reverse_reverse stack
    exact hstack.symm ▸ .done stack
  | cons t ts ih =>
    by_cases ht : t = [] ∨ t = ['.']
    · rw [effective_cons_of_pass ht]
      exact .pass ht (ih stack)
    rw [effective_cons ht, List.foldl_cons]
    by_cases hup : t = ['.', '.']
    · subst hup
      have hstep : step stack.reverse (String.ofList ['.', '.']) = stack.tail.reverse := by
        rw [step, if_pos rfl, List.dropLast_reverse]
      rw [hstep]
      cases stack with
      | nil => exact .bottom (ih [])
      | cons name stack => exact .pop (ih stack)
    · have hstep : step stack.reverse (String.ofList t) = (String.ofList t :: stack).reverse := by
        have hne : String.ofList t ≠ ".." := fun h => hup (String.ofList_injective h)
        rw [step, if_neg hne, List.reverse_cons]
      rw [hstep]
      exact .push ht hup (ih _)

theorem evaluates_iff :
    Evaluates ts stack result ↔ result = ((effective ts).foldl step stack.reverse).reverse := by
  constructor
  · intro h
    exact h.unique (evaluates_foldl ts stack)
  · rintro rfl
    exact evaluates_foldl ts stack

end Stack

section Route

/-- The texts by which a path leads from the root, as seen from a directory. -/
def componentsFrom (cwd p : String) : List (List Char) :=
  if isAbsolute p then components p else components cwd ++ components p

/-- The texts by which a path that may start with a tilde leads from the root. -/
inductive Route (home : Option String) (cwd : String) : String → List (List Char) → Prop where
  /-- It does not start at home. -/
  | plain {p : String} (hhome : p ≠ "~") (hbelow : ¬ ['~', '/'] <+: p.toList) :
    Route home cwd p (componentsFrom cwd p)
  /-- It leads home. -/
  | home {dir : String} (hdir : home = some dir) : Route home cwd "~" (componentsFrom cwd dir)
  /-- It leads to something below home. -/
  | belowHome {dir : String} (hdir : home = some dir) (rest : String) :
    Route home cwd ("~/" ++ rest) (componentsFrom cwd dir ++ components rest)

variable {home : Option String} {cwd p : String} {ts : List (List Char)}

theorem parts_join_eq (cwd p : String) : parts (join cwd p) = effective (componentsFrom cwd p) := by
  by_cases hp : isAbsolute p
  · rw [join, if_pos hp, componentsFrom, if_pos hp, parts_eq_effective]
  · rw [parts_join cwd hp, componentsFrom, if_neg hp, effective_append, parts_eq_effective,
      parts_eq_effective]

/-- A tilde is expanded to the home directory with the texts after the tilde put after it. -/
theorem expand_of_belowHome? {rest : List Char} {dir : String} (h : belowHome? p = some rest) :
    expand (some dir) p = .ok ((texts rest).foldl (fun d t => join d (String.ofList t)) dir) := by
  simp only [expand, h, texts]

/-- The texts that are put after the home directory are read after those of the home directory. -/
theorem parts_join_texts (cwd dir rest : String) :
    parts (join cwd ((texts rest.toList).foldl (fun d t => join d (String.ofList t)) dir)) =
      effective (componentsFrom cwd dir ++ components rest) := by
  rw [parts_foldl_join cwd dir fun t => of_mem_texts, parts_join_eq, ← parts_eq_texts, effective_append,
    parts_eq_effective]

/-- **A route is read like the expanded path** as seen from the directory. -/
theorem Route.exists_expand (h : Route home cwd p ts) :
    ∃ e, expand home p = .ok e ∧ parts (join cwd e) = effective ts := by
  cases h with
  | plain hhome hbelow =>
    have hnone := belowHome?_eq_none hhome hbelow
    exact ⟨p, by simp only [expand, hnone], parts_join_eq cwd p⟩
  | @home dir hdir =>
    subst hdir
    have hrest : belowHome? "~" = some [] := rfl
    have hnil : texts [] = [] := rfl
    refine ⟨dir, ?_, parts_join_eq cwd dir⟩
    rw [expand_of_belowHome? hrest, hnil, List.foldl_nil]
  | @belowHome dir hdir rest =>
    subst hdir
    have hrest : belowHome? ("~/" ++ rest) = some rest.toList := by
      simp [belowHome?]
    exact ⟨_, expand_of_belowHome? hrest, parts_join_texts cwd dir rest⟩

/-- The paths that start at home. -/
theorem startsAtHome_cases (p : String) :
    p = "~" ∨ (∃ rest, p = "~/" ++ rest) ∨ p ≠ "~" ∧ ¬ ['~', '/'] <+: p.toList := by
  by_cases hhome : p = "~"
  · exact .inl hhome
  by_cases hbelow : ['~', '/'] <+: p.toList
  · obtain ⟨rest, hrest⟩ := hbelow
    refine .inr (.inl ⟨String.ofList rest, String.toList_inj.1 ?_⟩)
    simp [← hrest]
  · exact .inr (.inr ⟨hhome, hbelow⟩)

/-- There is a route unless home is needed and not known. -/
theorem exists_route_iff (cwd : String) :
    (∃ ts, Route home cwd p ts) ↔ ¬ (home = none ∧ (p = "~" ∨ ['~', '/'] <+: p.toList)) := by
  constructor
  · rintro ⟨ts, hroute⟩ ⟨rfl, hp⟩
    cases hroute with
    | plain hhome hbelow => exact hp.elim hhome hbelow
    | home hdir | belowHome hdir => cases hdir
  · intro h
    rcases startsAtHome_cases p with rfl | ⟨rest, rfl⟩ | ⟨hhome, hbelow⟩
    · obtain ⟨dir, hdir⟩ := Option.ne_none_iff_exists'.1 fun hnone => h ⟨hnone, .inl rfl⟩
      exact ⟨_, .home hdir⟩
    · have hprefix : ['~', '/'] <+: ("~/" ++ rest).toList := ⟨rest.toList, by simp⟩
      obtain ⟨dir, hdir⟩ := Option.ne_none_iff_exists'.1 fun hnone => h ⟨hnone, .inr hprefix⟩
      exact ⟨_, .belowHome hdir rest⟩
    · exact ⟨_, .plain hhome hbelow⟩

end Route

section Result

variable {home : Option String} {cwd p q : String} {names : List String}

theorem resolve_eq_ok_iff :
    resolve home cwd p = .ok q ↔ ∃ e, expand home p = .ok e ∧ normalize (join cwd e) = q := by
  rw [resolve]
  cases expand home p <;> simp [Except.map]

/-- Resolving fails only where expanding does. -/
theorem resolve_eq_error_iff :
    resolve home cwd p = .error .notFound ↔ home = none ∧ (p = "~" ∨ ['~', '/'] <+: p.toList) := by
  constructor
  · intro herror
    by_contra hknown
    obtain ⟨ts, hroute⟩ := (exists_route_iff cwd).2 hknown
    obtain ⟨e, he, -⟩ := hroute.exists_expand
    have hok : resolve home cwd p = .ok (normalize (join cwd e)) := resolve_eq_ok_iff.2 ⟨e, he, rfl⟩
    rw [herror] at hok
    cases hok
  · rintro ⟨rfl, hp⟩
    obtain ⟨rest, hrest⟩ : ∃ rest, belowHome? p = some rest := by
      rcases hp with rfl | ⟨rest, hrest⟩
      · exact ⟨[], rfl⟩
      · exact ⟨rest, by simp [belowHome?, ← hrest]⟩
    simp [resolve, expand, hrest, Except.map]

/-- **Folding leaves the names that the texts of the path leave on a stack.** -/
theorem evaluates_parts_iff {ts : List (List Char)} (h : parts p = effective ts)
    {stack : List String} : Evaluates ts [] stack ↔ stack = ((parts p).foldl step []).reverse := by
  rw [evaluates_iff, List.reverse_nil, h]

/-- **Names with slashes before them cannot be folded further.** -/
theorem normalize_ofNames (h : ∀ c ∈ names, IsName c) :
    normalize (ofNames true names) = ofNames true names := by
  have habs : isAbsolute (ofNames true names) := (folded_ofNames h).isAbsolute
  rw [normalize_eq, habs, parts_ofNames h, foldl_step_of_names h, List.nil_append]

/-- **They are resolved to themselves**, from whichever directory and with any home. -/
theorem resolve_ofNames (h : ∀ c ∈ names, IsName c) (home : Option String) (cwd : String) :
    resolve home cwd (ofNames true names) = .ok (ofNames true names) := by
  have habs : isAbsolute (ofNames true names) := (folded_ofNames h).isAbsolute
  have hnone : belowHome? (ofNames true names) = none := by
    simp [belowHome?, toList_ofNames]
  refine resolve_eq_ok_iff.2 ⟨ofNames true names, by simp only [expand, hnone], ?_⟩
  rw [join, if_pos habs, normalize_ofNames h]

end Result

/-- **A resolved path is canonical.** Seen from an absolute directory, a path is resolved to the root
or to names with a slash before each, and a name is not empty, no dot, not two dots and holds no
slash. The names are what is left on an empty stack by the texts of the expanded path joined to the
directory, and by those of the path's route. Folding the result, or resolving it from anywhere with
any home, gives it back. Only a path that starts at home is not resolved, and only if home is not
known. -/
theorem resolved_path_is_canonical (home : Option String) (cwd p : String)
    (hcwd : isAbsolute cwd) :
    (∀ q, resolve home cwd p = .ok q →
      (∃ names, q = "/" ++ "/".intercalate names ∧ (∀ c ∈ names, IsName c) ∧
        (∃ e, expand home p = .ok e ∧
          ∀ stack, Evaluates (components (join cwd e)) [] stack ↔ stack = names.reverse) ∧
        ∃ ts, Route home cwd p ts ∧ ∀ stack, Evaluates ts [] stack ↔ stack = names.reverse) ∧
      normalize q = q ∧ ∀ home' cwd', resolve home' cwd' q = .ok q) ∧
    (resolve home cwd p = .error .notFound ↔
      home = none ∧ (p = "~" ∨ ['~', '/'] <+: p.toList)) := by
  refine ⟨fun q hq => ?_, resolve_eq_error_iff⟩
  have hknown : ¬ (home = none ∧ (p = "~" ∨ ['~', '/'] <+: p.toList)) := fun hp => by
    rw [resolve_eq_error_iff.2 hp] at hq
    cases hq
  obtain ⟨ts, hroute⟩ := (exists_route_iff cwd).2 hknown
  obtain ⟨e, he, hparts⟩ := hroute.exists_expand
  obtain ⟨e', he', rfl⟩ := resolve_eq_ok_iff.1 hq
  obtain rfl : e = e' := Except.ok.inj (he.symm.trans he')
  have hnames := isName_of_mem_foldl_parts (join cwd e)
  rw [normalize_eq, isAbsolute_join hcwd]
  refine ⟨⟨_, rfl, hnames, ⟨e, he, fun stack => evaluates_parts_iff (parts_eq_effective _)⟩,
    ts, hroute, fun stack => evaluates_parts_iff hparts⟩, normalize_ofNames hnames,
    resolve_ofNames hnames⟩

/-- Home is seen from `/usr/bin`, and a path below it leads up over the root. -/
theorem resolved_path_is_canonical_up :
    resolve (some "../r") "/usr/bin" "~//./a/../../..//../../b/" = .ok "/b" ∧
      resolve none "lost" "/b" = .ok "/b" := by
  have hok : resolve (some "../r") "/usr/bin" "~//./a/../../..//../../b/" = .ok "/b" := by
    decide +kernel
  exact ⟨hok, ((resolved_path_is_canonical _ _ _ rfl).1 _ hok).2.2 none "lost"⟩

end Path
end LineShell
