import LineShell.Proofs.Rendering

/-!
# How operators and targets are read

The words of a command are read from the left (`Reads`). A word that is an operator takes the next
word as its target, whatever that is; without a next word it keeps waiting for one. A word that
starts with an operator and goes on has its target in itself, and of the operators that it starts
with the longest counts. All other words are arguments.

`Reads` names the operators by their parts, a stream's number and a mode's mark, and says nothing
about the order in which they are tried. `exists_longest` connects it with the table in which they
are looked up. So there is one reading of each list of words (`Reads.unique`), and taking the
redirections out of the words gives its arguments and, for each stream, its last target
(`exists_reads`). A reading that is not left waiting goes on with that of the words after it
(`Reads.append`).
-/

namespace LineShell
namespace Redirection

/-- The numbers by which a stream is named in an operator; standard output needs none. -/
def Stream.numbers : Stream → List String
  | .out => ["", "1"]
  | .err => ["2"]

/-- The mark of an operator that opens its target in a mode. -/
def mark : WriteMode → String
  | .truncate => ">"
  | .append => ">>"

/-- The word is the operator, and nothing more. -/
def Operator.SpelledBy (op : Operator) (w : String) : Prop :=
  ∃ n ∈ op.stream.numbers, w = n ++ mark op.mode

/-- The word starts with none of the operators. -/
def NoOperator (w : String) : Prop :=
  ∀ (op : Operator) (s : String), op.SpelledBy s → ¬ s.toList <+: w.toList

/-- Of the operators that a word starts with, this one is the longest. -/
structure Longest (w s : String) (op : Operator) : Prop where
  /-- It is an operator. -/
  spelled : op.SpelledBy s
  /-- The word starts with it. -/
  starts : s.toList <+: w.toList
  /-- No operator that the word starts with is longer. -/
  length_le (op' : Operator) (s' : String) (hspelled : op'.SpelledBy s')
    (hstarts : s'.toList <+: w.toList) : s'.toList.length ≤ s.toList.length

/-- What a word is read as, with the word after it where it takes that. -/
inductive Item where
  /-- An argument. -/
  | argument (w : String)
  /-- An operator and its target. -/
  | target (op : Operator) (path : String)
  /-- An operator that has got no target. -/
  | waiting (op : Operator)
  deriving DecidableEq, Repr

/-- How words are read from the left. -/
inductive Reads : List String → List Item → Prop where
  /-- There are no more words. -/
  | done : Reads [] []
  /-- A word that starts with no operator is an argument. -/
  | argument {w : String} {ws : List String} {items : List Item} (hw : NoOperator w)
      (hrest : Reads ws items) : Reads (w :: ws) (.argument w :: items)
  /-- An operator takes the next word. -/
  | apart {w : String} {op : Operator} {ws : List String} {items : List Item} (hw : op.SpelledBy w)
      (path : String) (hrest : Reads ws items) : Reads (w :: path :: ws) (.target op path :: items)
  /-- An operator that is the last word waits. -/
  | last {w : String} {op : Operator} (hw : op.SpelledBy w) : Reads [w] [.waiting op]
  /-- A word that starts with an operator and goes on has its target in itself. -/
  | together {w s path : String} {op : Operator} {ws : List String} {items : List Item}
      (hw : Longest w s op) (hpath : w = s ++ path) (hne : path ≠ "") (hrest : Reads ws items) :
    Reads (w :: ws) (.target op path :: items)

section Table

variable {w s : String} {op : Operator}

/-- The table holds the operators and nothing else. -/
theorem mem_spellings_iff : (s, op) ∈ spellings ↔ op.SpelledBy s := by
  rcases op with ⟨_ | _, _ | _⟩ <;>
    simp [spellings, Operator.SpelledBy, Stream.numbers, mark, or_comm]

/-- A longer operator comes before a shorter one. -/
theorem pairwise_spellings :
    spellings.Pairwise fun p q => q.1.toList.length ≤ p.1.toList.length := by
  decide

/-- An operator is known by its spelling. -/
theorem Operator.SpelledBy.unique {op' : Operator} (h : op.SpelledBy s) (h' : op'.SpelledBy s) :
    op = op' := by
  have htable : ∀ p ∈ spellings, ∀ q ∈ spellings, p.1 = q.1 → p.2 = q.2 := by decide
  exact htable _ (mem_spellings_iff.2 h) _ (mem_spellings_iff.2 h') rfl

theorem noOperator_iff : NoOperator w ↔ operator? w = none := by
  rw [operator?_eq_none_iff_spellings]
  constructor
  · intro h p hp
    exact h p.2 p.1 (mem_spellings_iff.1 hp)
  · intro h op s hs
    exact h (s, op) (mem_spellings_iff.2 hs)

/-- The longest operator that a word starts with is determined. -/
theorem Longest.unique {s' : String} {op' : Operator} (h : Longest w s op)
    (h' : Longest w s' op') : s = s' ∧ op = op' := by
  have hlength : s.toList.length = s'.toList.length :=
    Nat.le_antisymm (h'.length_le op s h.spelled h.starts) (h.length_le op' s' h'.spelled h'.starts)
  have hs : s = s' :=
    String.toList_inj.1 ((List.prefix_of_prefix_length_le h.starts h'.starts hlength.le).eq_of_length
      hlength)
  subst hs
  exact ⟨rfl, h.spelled.unique h'.spelled⟩

/-- What is found in the table is the longest operator that the word starts with. -/
theorem exists_longest {rest : List Char} (h : operator? w = some (op, rest)) :
    ∃ s, Longest w s op ∧ w = s ++ String.ofList rest := by
  obtain ⟨before, ⟨s, op'⟩, after, hspellings, hfound, hnone⟩ := List.findSome?_eq_some_iff.1 h
  obtain ⟨rest', hrest, hpair⟩ := Option.map_eq_some_iff.1 hfound
  obtain ⟨rfl, rfl⟩ := Prod.mk.inj hpair
  have hw : s.toList ++ rest' = w.toList := List.isPrefixOf?_eq_some_iff_append_eq.1 hrest
  refine ⟨s, ⟨mem_spellings_iff.1 (by simp [hspellings]), ⟨rest', hw⟩, ?_⟩, ?_⟩
  · -- an operator before this one in the table is no start of the word, one after it is not longer
    intro op' s' hspelled hstarts
    have hmem := mem_spellings_iff.2 hspelled
    rw [hspellings, List.mem_append, List.mem_cons] at hmem
    rcases hmem with hbefore | hself | hafter
    · have hno := hnone _ hbefore
      rw [Option.map_eq_none_iff, isPrefixOf?_eq_none_iff] at hno
      exact absurd hstarts hno
    · obtain ⟨rfl, -⟩ := Prod.mk.inj hself
      exact le_rfl
    · have hsorted := pairwise_spellings
      rw [hspellings, List.pairwise_append, List.pairwise_cons] at hsorted
      exact hsorted.2.1.1 _ hafter
  · rw [← String.toList_inj, ← hw, String.toList_append, String.toList_ofList]

/-- A word that is an operator starts with no longer one. -/
theorem Operator.SpelledBy.longest (h : op.SpelledBy w) : Longest w w op :=
  ⟨h, List.prefix_rfl, fun _ _ _ hstarts => hstarts.length_le⟩

theorem Longest.not_noOperator (h : Longest w s op) : ¬ NoOperator w :=
  fun hno => hno op s h.spelled h.starts

/-- A word that is an operator has no target in itself. -/
theorem Operator.SpelledBy.eq_empty {op' : Operator} {path : String} (h : op.SpelledBy w)
    (hs : Longest w s op') (hw : w = s ++ path) : path = "" := by
  obtain ⟨rfl, -⟩ := h.longest.unique hs
  exact String.append_eq_left_iff.1 hw.symm

/-- An operator is not made longer by a path after it that does not begin with its mark. -/
theorem Operator.SpelledBy.longest_append {path : String} (h : op.SpelledBy s)
    (hpath : path.toList.head? ≠ some '>') : Longest (s ++ path) s op := by
  have hword : (s ++ path).toList = s.toList ++ path.toList := String.toList_append
  refine ⟨h, ⟨path.toList, hword.symm⟩, fun op' s' hspelled hstarts => ?_⟩
  rw [hword] at hstarts
  rcases List.prefix_or_prefix_of_prefix hstarts (List.prefix_append s.toList path.toList) with
    hshort | hlong
  · exact hshort.length_le
  · -- a longer operator has one more mark, and the path does not give it
    have htable : ∀ p ∈ spellings, ∀ q ∈ spellings, p.1.toList <+: q.1.toList →
        q.1.toList = p.1.toList ∨ q.1.toList = p.1.toList ++ ['>'] := by decide
    rcases htable _ (mem_spellings_iff.2 h) _ (mem_spellings_iff.2 hspelled) hlong with hsame | hmore
    · rw [hsame]
    · have hmore' : s'.toList = s.toList ++ ['>'] := hmore
      rw [hmore', List.prefix_append_right_inj] at hstarts
      obtain ⟨rest, hrest⟩ := hstarts
      exact absurd (by rw [← hrest]; rfl) hpath

end Table

section Reading

/-- The arguments of a reading, in order. -/
def arguments (items : List Item) : List String :=
  items.filterMap fun
    | .argument w => some w
    | _ => none

/-- The target that an item gives a stream. -/
def Item.targetOf? (stream : Stream) : Item → Option Target
  | .target op path => if op.stream = stream then some ⟨path, op.mode⟩ else none
  | _ => none

/-- The last target that a reading gives a stream. -/
def lastTarget (stream : Stream) (items : List Item) : Option Target :=
  (items.filterMap (Item.targetOf? stream)).getLast?

/-- What a reading comes to. -/
def ofItems (items : List Item) : List String × Redirection :=
  (arguments items, ⟨lastTarget .out items, lastTarget .err items⟩)

theorem arguments_append (items items' : List Item) :
    arguments (items ++ items') = arguments items ++ arguments items' :=
  List.filterMap_append

theorem lastTarget_append (stream : Stream) (items items' : List Item) :
    lastTarget stream (items ++ items') =
      (lastTarget stream items' <|> lastTarget stream items) := by
  simp [lastTarget, List.filterMap_append, List.getLast?_append]

/-- A target that comes first counts if its stream gets none later. -/
theorem ofItems_target (op : Operator) (path : String) (items : List Item) :
    ofItems (.target op path :: items) =
      ((ofItems items).1, (ofItems items).2.orSet op path) := by
  have hlast (stream : Stream) : lastTarget stream (.target op path :: items) =
      (lastTarget stream items <|> Item.targetOf? stream (.target op path)) := by
    rw [← List.singleton_append, lastTarget_append]
    cases h : Item.targetOf? stream (.target op path) <;> simp [lastTarget, h]
  have hargs : arguments (.target op path :: items) = arguments items := rfl
  rcases op with ⟨_ | _, mode⟩ <;> simp [ofItems, hargs, hlast, orSet, Item.targetOf?]

variable {ws xs ys : List String} {items items' : List Item}

/-- **There is at most one reading.** What a word is read as is told by the operator that it starts
with. -/
theorem Reads.unique (h : Reads ws items) (h' : Reads ws items') : items = items' := by
  induction h generalizing items' with
  | done => cases h' with | done => rfl
  | argument hw _ ih =>
    cases h' with
    | argument _ hrest => rw [ih hrest]
    | apart hw' | last hw' => exact absurd hw hw'.longest.not_noOperator
    | together hw' => exact absurd hw hw'.not_noOperator
  | apart hw path _ ih =>
    cases h' with
    | argument hw' => exact absurd hw' hw.longest.not_noOperator
    | apart hw' _ hrest => rw [hw.unique hw', ih hrest]
    | together hw' hpath hne => exact absurd (hw.eq_empty hw' hpath) hne
  | last hw =>
    cases h' with
    | argument hw' => exact absurd hw' hw.longest.not_noOperator
    | last hw' => rw [hw.unique hw']
    | together hw' hpath hne => exact absurd (hw.eq_empty hw' hpath) hne
  | together hw hpath hne _ ih =>
    cases h' with
    | argument hw' => exact absurd hw' hw.not_noOperator
    | apart hw' | last hw' => exact absurd (hw'.eq_empty hw hpath) hne
    | together hw' hpath' _ hrest =>
      obtain ⟨rfl, rfl⟩ := hw.unique hw'
      rw [ih hrest, (String.append_right_inj _).1 (hpath.symm.trans hpath')]

/-- **There is a reading, and taking the redirections out of the words comes to it.** -/
theorem exists_reads (ws : List String) : ∃ items, Reads ws items ∧ extract ws = ofItems items := by
  fun_induction extract ws with
  | case1 => exact ⟨[], .done, rfl⟩
  | case2 w rest hw args r hr ih =>
    obtain ⟨items, hreads, hitems⟩ := ih
    have hargs : ofItems (.argument w :: items) = (w :: (ofItems items).1, (ofItems items).2) := rfl
    exact ⟨_, .argument (noOperator_iff.2 hw) hreads, by rw [hargs, ← hitems, hr]⟩
  | case3 w op hw =>
    obtain ⟨s, hs, rfl⟩ := exists_longest hw
    exact ⟨[.waiting op], .last (by simpa using hs.spelled), rfl⟩
  | case4 w op hw path rest args r hr ih =>
    obtain ⟨items, hreads, hitems⟩ := ih
    obtain ⟨s, hs, rfl⟩ := exists_longest hw
    refine ⟨_, .apart (by simpa using hs.spelled) path hreads, ?_⟩
    rw [ofItems_target, ← hitems, hr]
  | case5 w rest op path hne hw args r hr ih =>
    obtain ⟨items, hreads, hitems⟩ := ih
    obtain ⟨s, hs, hpath⟩ := exists_longest hw
    have hempty : String.ofList path ≠ "" := by simpa using hne
    refine ⟨_, .together hs hpath hempty hreads, ?_⟩
    rw [ofItems_target, ← hitems, hr]

theorem Reads.extract_eq (h : Reads ws items) : extract ws = ofItems items := by
  obtain ⟨items', h', hitems⟩ := exists_reads ws
  rw [hitems, h.unique h']

/-- **A reading that is not left waiting goes on with the words that come after.** -/
theorem Reads.append (h : Reads xs items) (hend : ∀ op, items.getLast? ≠ some (.waiting op))
    (h' : Reads ys items') : Reads (xs ++ ys) (items ++ items') := by
  have htail {item : Item} {rest : List Item}
      (hlast : ∀ op, (item :: rest).getLast? ≠ some (.waiting op)) (op : Operator) :
      rest.getLast? ≠ some (.waiting op) := by
    cases rest with
    | nil => simp
    | cons next rest => exact hlast op
  induction h with
  | done => exact h'
  | argument hw _ ih => exact .argument hw (ih (htail hend))
  | apart hw path _ ih => exact .apart hw path (ih (htail hend))
  | last hw => exact absurd rfl (hend _)
  | together hw hpath hne _ ih => exact .together hw hpath hne (ih (htail hend))

/-- The reading of the words ends on an operator that has got no target. -/
def Waits (ws : List String) : Prop :=
  ∃ items op, Reads ws (items ++ [.waiting op])

end Reading

/-- **Taking the redirections out of some words is reading them from the left.** There is exactly one
reading; its arguments are those that are left, in order, and for each stream the last target in it
counts. No argument starts with an operator. If the reading of some words is not left waiting for a
target, then other words can come after them: the arguments of both are put together, and for each
stream the target among the later words counts if there is one, and otherwise that among the
earlier ones. -/
theorem extract_reads_from_left (xs : List String) :
    (∃ items, (∀ items', Reads xs items' ↔ items' = items) ∧ (extract xs).1 = arguments items ∧
      (extract xs).2.stdout = lastTarget .out items ∧
      (extract xs).2.stderr = lastTarget .err items) ∧
    (∀ a ∈ (extract xs).1, NoOperator a) ∧
    ∀ ys, ¬ Waits xs →
      (extract (xs ++ ys)).1 = (extract xs).1 ++ (extract ys).1 ∧
      (extract (xs ++ ys)).2.stdout = ((extract ys).2.stdout <|> (extract xs).2.stdout) ∧
      (extract (xs ++ ys)).2.stderr = ((extract ys).2.stderr <|> (extract xs).2.stderr) := by
  obtain ⟨items, hreads, hextract⟩ := exists_reads xs
  refine ⟨⟨items, fun items' => ⟨fun h => h.unique hreads, ?_⟩, ?_⟩, ?_, fun ys hwaits => ?_⟩
  · rintro rfl
    exact hreads
  · rw [hextract]
    exact ⟨rfl, rfl, rfl⟩
  · exact fun a ha => noOperator_iff.2 (operator?_eq_none_of_mem_extract ha)
  · obtain ⟨later, hlater, hextract'⟩ := exists_reads ys
    have hend (op : Operator) : items.getLast? ≠ some (.waiting op) := by
      intro hlast
      obtain ⟨before, rfl⟩ := List.getLast?_eq_some_iff.1 hlast
      exact hwaits ⟨before, op, hreads⟩
    rw [(hreads.append hend hlater).extract_eq, hextract, hextract']
    exact ⟨arguments_append items later, lastTarget_append .out items later,
      lastTarget_append .err items later⟩

/-- A target that is spelled like an operator, one that its operator has in itself, and an operator
at the end that gets none. -/
theorem extract_reads_from_left_operators :
    let earlier := ["x", "2>", ">", "1>f"]
    let later := [">>", "1>", "2>>"]
    ¬ Waits earlier ∧ (extract (earlier ++ later)).1 = ["x"] ∧
      (extract (earlier ++ later)).2.stdout = some ⟨"1>", .append⟩ ∧
      (extract (earlier ++ later)).2.stderr = some ⟨">", .truncate⟩ := by
  intro earlier later
  have hwaits : ¬ Waits earlier := by
    have herr : Operator.SpelledBy ⟨.err, .truncate⟩ "2>" := ⟨"2", by decide, rfl⟩
    obtain ⟨s, hlongest, hpath⟩ := exists_longest (w := "1>f") rfl
    have hreads : Reads earlier _ :=
      .argument (noOperator_iff.2 rfl) (.apart herr ">" (.together hlongest hpath (by decide) .done))
    rintro ⟨items, op, hwaiting⟩
    have hlast := congrArg List.getLast? (hwaiting.unique hreads)
    simp at hlast
  have hearlier : extract earlier =
      (["x"], ⟨some ⟨"f", .truncate⟩, some ⟨">", .truncate⟩⟩) := by decide
  have hlater : extract later = ([], ⟨some ⟨"1>", .append⟩, none⟩) := by decide
  have happend := (extract_reads_from_left earlier).2.2 later hwaits
  rw [hearlier, hlater] at happend
  exact ⟨hwaits, happend⟩

end Redirection
end LineShell
