import LineShell.Path
import Mathlib.Data.List.Infix

/-!
# Folded paths

A path is folded when it is the root, or when nothing between its slashes is empty, a dot or two
dots and no slash ends it. Folding works on a text, to which names are joined and from which they
are taken off. What the text stands for is a list of names, with slashes between them (`ofNames`):
joining a name puts it at the end of the list (`join_ofNames`), and the last name of the list is the
one that is taken off (`pop_ofNames`). So folding can be followed on the lists alone
(`normalize_eq`).

Every part that folding takes over is a name (`isName_of_mem_foldl`), and names with slashes between
them are a folded path (`folded_ofNames`). So whatever is resolved from an absolute directory comes
out folded (`folded_resolve`).
-/

namespace LineShell
namespace Path

/-- A text that leads one level down. -/
structure IsName (s : String) : Prop where
  /-- It is not empty. -/
  ne_empty : s ≠ ""
  /-- It does not stay where it is. -/
  ne_dot : s ≠ "."
  /-- It does not lead up. -/
  ne_dots : s ≠ ".."
  /-- It is one level only. -/
  no_slash : '/' ∉ s.toList

/-- The root, or an absolute path without an empty component, a `.`, a `..` or a slash at its
end. -/
def Folded (p : String) : Prop :=
  p = "/" ∨ isAbsolute p ∧ p.toList.getLast? ≠ some '/' ∧
    ∀ c ∈ p.toList.tail.splitOn '/', c ≠ [] ∧ c ≠ ['.'] ∧ c ≠ ['.', '.']

instance (p : String) : Decidable (Folded p) :=
  inferInstanceAs (Decidable (_ ∨ _))

theorem Folded.isAbsolute {p : String} (h : Folded p) : isAbsolute p := by
  rcases h with rfl | h
  · rfl
  · exact h.1

theorem not_mem_of_mem_splitOn {x : Char} {l : List Char} {cs : List Char}
    (h : l ∈ cs.splitOn x) : x ∉ l := by
  induction cs generalizing l with
  | nil =>
    rw [List.splitOn_nil, List.mem_singleton] at h
    exact h ▸ List.not_mem_nil
  | cons c cs ih =>
    rw [List.splitOn_cons_eq_if_modifyHead] at h
    split_ifs at h with hc
    · rcases List.mem_cons.1 h with rfl | h
      · exact List.not_mem_nil
      · exact ih h
    · cases hs : cs.splitOn x with
      | nil => exact absurd hs (List.splitOn_ne_nil x cs)
      | cons a as =>
        rw [hs, List.modifyHead_cons] at h
        rcases List.mem_cons.1 h with rfl | h
        · have ha : x ∉ a := ih (hs ▸ List.mem_cons_self ..)
          exact List.not_mem_cons_of_ne_of_not_mem (fun he => hc (by simp [he])) ha
        · exact ih (hs ▸ List.mem_cons_of_mem a h)

/-- A path that ends with a slash has an empty component after its first slash. -/
theorem nil_mem_splitOn_tail {c : Char} {cs : List Char} (h : (c :: cs).getLast? = some '/') :
    [] ∈ cs.splitOn '/' := by
  cases cs with
  | nil => simp
  | cons d ds =>
    rw [List.getLast?_cons_cons] at h
    obtain ⟨as, has⟩ := List.getLast?_eq_some_iff.1 h
    simp [has, List.splitOn_append_cons_self]

/-- The parts of a path are names, apart from those that lead up. -/
theorem isName_of_mem_parts {p s : String} (h : s ∈ parts p) (hup : s ≠ "..") : IsName s := by
  simp only [parts, List.mem_map, List.mem_filter, decide_eq_true_eq] at h
  obtain ⟨cs, ⟨hmem, hne, hdot⟩, rfl⟩ := h
  refine ⟨fun he => hne ?_, fun hd => hdot ?_, hup, ?_⟩
  · simpa using congrArg String.toList he
  · simpa using congrArg String.toList hd
  · simpa using not_mem_of_mem_splitOn hmem

/-- One level down or up from a list of names; the last name is the deepest. -/
def step (names : List String) (part : String) : List String :=
  if part = ".." then names.dropLast else names ++ [part]

/-- The path with the given names, from the root or from nowhere in particular. -/
def ofNames (absolute : Bool) (names : List String) : String :=
  (if absolute then "/" else "") ++ "/".intercalate names

theorem toList_ofNames (absolute : Bool) (names : List String) :
    (ofNames absolute names).toList =
      (if absolute then ['/'] else []) ++ List.intercalate ['/'] (names.map String.toList) := by
  cases absolute <;> simp [ofNames]

theorem splitOn_intercalate_names {names : List String} (h : ∀ s ∈ names, '/' ∉ s.toList)
    (hnil : names ≠ []) :
    (List.intercalate ['/'] (names.map String.toList)).splitOn '/' = names.map String.toList :=
  List.splitOn_intercalate '/' (by simpa using h) (by simpa using hnil)

section Text

variable {absolute : Bool} {names : List String} {name : String}

theorem ofNames_singleton (absolute : Bool) (name : String) :
    ofNames absolute [name] = ofNames absolute [] ++ name := by
  simp [ofNames]

theorem ofNames_concat (absolute : Bool) (hnil : names ≠ []) (name : String) :
    ofNames absolute (names ++ [name]) = ofNames absolute names ++ "/" ++ name := by
  rw [ofNames, ofNames, String.intercalate_append_of_ne_nil hnil (by simp),
    String.intercalate_singleton]
  simp only [String.append_assoc]

/-- The text of some names ends like the last one. -/
theorem getLast?_ofNames_concat (absolute : Bool) (names : List String) (hname : name ≠ "") :
    (ofNames absolute (names ++ [name])).toList.getLast? = name.toList.getLast? := by
  have hnil : name.toList ≠ [] := mt String.toList_eq_nil_iff.1 hname
  by_cases hnames : names = []
  · rw [hnames, List.nil_append, ofNames_singleton, String.toList_append,
      List.getLast?_append_of_ne_nil _ hnil]
  · rw [ofNames_concat absolute hnames, String.toList_append, List.getLast?_append_of_ne_nil _ hnil]

/-- **Joining a name puts it at the end.** -/
theorem join_ofNames (h : ∀ s ∈ names, IsName s) (hname : IsName name) :
    join (ofNames absolute names) name = ofNames absolute (names ++ [name]) := by
  have hrel : ¬ isAbsolute name := by
    rw [isAbsolute, beq_iff_eq]
    exact fun hhead => hname.no_slash (List.mem_of_head? hhead)
  rw [join, if_neg hrel]
  rcases List.eq_nil_or_concat names with rfl | ⟨init, last, rfl⟩
  · have hopen : (ofNames absolute []).toList = [] ∨
        (ofNames absolute []).toList.getLast? = some '/' := by
      cases absolute <;> decide
    rw [if_pos hopen, List.nil_append, ofNames_singleton]
  · rw [List.concat_eq_append] at h ⊢
    have hlast : IsName last := h last (by simp)
    have hend := getLast?_ofNames_concat absolute init hlast.ne_empty
    have hclosed : ¬ ((ofNames absolute (init ++ [last])).toList = [] ∨
        (ofNames absolute (init ++ [last])).toList.getLast? = some '/') := by
      rintro (hempty | hslash)
      · rw [hempty, List.getLast?_nil, eq_comm, List.getLast?_eq_none_iff] at hend
        exact hlast.ne_empty (String.toList_eq_nil_iff.1 hend)
      · exact hlast.no_slash (List.mem_of_getLast? (hend.symm.trans hslash))
    have hnil : init ++ [last] ≠ [] := List.append_ne_nil_of_right_ne_nil _ (by simp)
    rw [if_neg hclosed, ofNames_concat absolute hnil name]

theorem dropIdle_cons {t : List Char} (hne : t ≠ []) (hdot : t ≠ ['.'])
    (above : List (List Char)) : dropIdle (t :: above) = t :: above := by
  cases above <;> simp [dropIdle, hne, hdot]

theorem IsName.dropIdle_cons (h : IsName name) (above : List (List Char)) :
    dropIdle (name.toList :: above) = name.toList :: above := by
  refine Path.dropIdle_cons (mt String.toList_eq_nil_iff.1 h.ne_empty) (fun hdot => ?_) above
  exact h.ne_dot (String.toList_inj.1 hdot)

/-- The texts between the slashes are the names, after an empty one if the path is absolute. -/
theorem splitOn_ofNames (absolute : Bool) (h : ∀ s ∈ names, IsName s) (hnil : names ≠ []) :
    (ofNames absolute names).toList.splitOn '/' =
      (if absolute then [[]] else []) ++ names.map String.toList := by
  have hsplit := splitOn_intercalate_names (fun s hs => (h s hs).no_slash) hnil
  rw [toList_ofNames]
  cases absolute with
  | false => simpa using hsplit
  | true => simp [List.splitOn_cons_eq_if_modifyHead, hsplit]

theorem isAbsolute_ofNames (h : ∀ s ∈ names, IsName s) :
    isAbsolute (ofNames absolute names) = absolute := by
  rw [isAbsolute, toList_ofNames]
  cases absolute with
  | true => rfl
  | false =>
    cases names with
    | nil => rfl
    | cons name names =>
      -- the first character is that of the first name
      rw [List.forall_mem_cons] at h
      have hnil : name.toList ≠ [] := mt String.toList_eq_nil_iff.1 h.1.ne_empty
      obtain ⟨c, cs, hcs⟩ := List.exists_cons_of_ne_nil hnil
      have hc : c ≠ '/' := fun hc => h.1.no_slash (by simp [hcs, hc])
      cases names <;> simp [hcs, hc, List.intercalate_cons_cons]

/-- **What stands above a path of names** is the path without the last one. -/
theorem parent?_ofNames_concat (h : ∀ s ∈ names, IsName s) (hname : IsName name) :
    parent? (ofNames absolute (names ++ [name])) = some (ofNames absolute names) := by
  have hall : ∀ s ∈ names ++ [name], IsName s := by
    rw [List.forall_mem_append, List.forall_mem_singleton]
    exact ⟨h, hname⟩
  rw [parent?, splitOn_ofNames absolute hall (by simp), List.map_append, List.map_singleton,
    ← List.append_assoc, List.reverse_append, List.reverse_singleton, List.singleton_append,
    hname.dropIdle_cons, isAbsolute_ofNames hall]
  rcases List.eq_nil_or_concat names with rfl | ⟨init, last, rfl⟩
  · cases absolute <;> rfl
  · rw [List.concat_eq_append] at h ⊢
    have hlast : IsName last := h last (by simp)
    have htexts := splitOn_ofNames absolute h (by simp)
    have hback : ((ofNames absolute (init ++ [last])).toList.splitOn '/').reverse =
        last.toList :: ((if absolute then [[]] else []) ++ init.map String.toList).reverse := by
      rw [htexts]
      simp
    -- the texts of the shorter path end in a name, so that all of them are kept
    rw [← htexts, hback]
    dsimp only
    rw [hlast.dropIdle_cons]
    dsimp only
    rw [← hback, List.reverse_reverse, List.intercalate_splitOn, String.ofList_toList]

/-- **The last name is taken off**, if there is one. -/
theorem pop_ofNames (h : ∀ s ∈ names, IsName s) :
    pop (ofNames absolute names) = ofNames absolute names.dropLast := by
  rcases List.eq_nil_or_concat names with rfl | ⟨init, last, rfl⟩
  · cases absolute <;> decide
  · rw [List.concat_eq_append] at h ⊢
    rw [List.forall_mem_append, List.forall_mem_singleton] at h
    rw [pop, parent?_ofNames_concat h.1 h.2, Option.getD_some, List.dropLast_concat]

/-- One part does to the text what it does to the names. -/
theorem follow_ofNames (h : ∀ s ∈ names, IsName s) {part : String}
    (hpart : part ≠ ".." → IsName part) :
    follow (ofNames absolute names) part = ofNames absolute (step names part) := by
  rw [follow, step]
  split_ifs with hup
  · exact pop_ofNames h
  · exact join_ofNames h (hpart hup)

theorem isName_of_mem_step (h : ∀ s ∈ names, IsName s) {part : String}
    (hpart : part ≠ ".." → IsName part) : ∀ s ∈ step names part, IsName s := by
  intro s hs
  rw [step] at hs
  split_ifs at hs with hup
  · exact h s (List.mem_of_mem_dropLast hs)
  · rcases List.mem_append.1 hs with hs | hs
    · exact h s hs
    · exact List.mem_singleton.1 hs ▸ hpart hup

/-- **Folding keeps only names.** -/
theorem isName_of_mem_foldl {ps : List String} (hps : ∀ s ∈ ps, s ≠ ".." → IsName s)
    (hnames : ∀ s ∈ names, IsName s) : ∀ s ∈ ps.foldl step names, IsName s := by
  induction ps generalizing names with
  | nil => exact hnames
  | cons part ps ih =>
    rw [List.forall_mem_cons] at hps
    exact ih hps.2 (isName_of_mem_step hnames hps.1)

/-- Parts do to the text what they do to the names. -/
theorem foldl_follow_ofNames {ps : List String} (hps : ∀ s ∈ ps, s ≠ ".." → IsName s)
    (hnames : ∀ s ∈ names, IsName s) :
    ps.foldl follow (ofNames absolute names) = ofNames absolute (ps.foldl step names) := by
  induction ps generalizing names with
  | nil => rfl
  | cons part ps ih =>
    rw [List.forall_mem_cons] at hps
    rw [List.foldl_cons, follow_ofNames hnames hps.1, List.foldl_cons]
    exact ih hps.2 (isName_of_mem_step hnames hps.1)

/-- **Folding can be followed on lists of names.** -/
theorem normalize_eq (p : String) :
    normalize p = ofNames (isAbsolute p) ((parts p).foldl step []) := by
  have hstart : (if isAbsolute p then "/" else "") = ofNames (isAbsolute p) [] := by
    cases isAbsolute p <;> rfl
  rw [normalize, hstart]
  exact foldl_follow_ofNames (fun s => isName_of_mem_parts) (by simp)

end Text

/-- **Names with slashes between them are a folded path.** -/
theorem folded_ofNames {names : List String} (h : ∀ s ∈ names, IsName s) :
    Folded (ofNames true names) := by
  by_cases hnil : names = []
  · subst hnil
    exact .inl rfl
  · have hsplit := splitOn_intercalate_names (fun s hs => (h s hs).no_slash) hnil
    have htext : (ofNames true names).toList =
        '/' :: List.intercalate ['/'] (names.map String.toList) := toList_ofNames true names
    have hcomponents : ∀ c ∈ (ofNames true names).toList.tail.splitOn '/',
        c ≠ [] ∧ c ≠ ['.'] ∧ c ≠ ['.', '.'] := by
      rw [htext, List.tail_cons, hsplit, List.forall_mem_map]
      intro s hs
      refine ⟨fun he => (h s hs).ne_empty ?_, fun he => (h s hs).ne_dot ?_,
        fun he => (h s hs).ne_dots ?_⟩ <;> exact String.toList_injective he
    refine .inr ⟨isAbsolute_ofNames h, fun hlast => ?_, hcomponents⟩
    rw [htext] at hlast hcomponents
    exact (hcomponents [] (nil_mem_splitOn_tail hlast)).1 rfl

theorem isAbsolute_append {dir : String} (h : isAbsolute dir) (p : String) :
    isAbsolute (dir ++ p) := by
  rw [isAbsolute, beq_iff_eq] at h ⊢
  obtain ⟨cs, hcs⟩ := List.head?_eq_some_iff.1 h
  simp [hcs]

theorem isAbsolute_join {dir : String} (h : isAbsolute dir) (p : String) :
    isAbsolute (join dir p) := by
  rw [join]
  split_ifs with hp
  · exact hp
  · exact isAbsolute_append h p
  · exact isAbsolute_append (isAbsolute_append h "/") p

/-- **What is resolved from an absolute directory is folded.** -/
theorem folded_resolve {home : Option String} {cwd p q : String} (hcwd : isAbsolute cwd)
    (h : resolve home cwd p = .ok q) : Folded q := by
  cases he : expand home p with
  | error e => simp [resolve, he, Except.map] at h
  | ok d =>
    have hq : normalize (join cwd d) = q := by simpa [resolve, he, Except.map] using h
    rw [← hq, normalize_eq, isAbsolute_join hcwd]
    exact folded_ofNames (isName_of_mem_foldl (fun s => isName_of_mem_parts) (by simp))

end Path
end LineShell
