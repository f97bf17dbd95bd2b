/-!
# Names in increasing order

Names are shown in increasing order: the order of their code points. `ordered` puts a list of names
in that order. Names found in several places are shown once: `sorted` leaves repetitions out, and
`sortedBy` does the same for things that have names; of several with one name, the earliest in the
list counts.
-/

namespace LineShell
namespace Names

/-- Puts a name into a list of names in increasing order. -/
def insert (name : String) : List String → List String
  | [] => [name]
  | b :: l => if name ≤ b then name :: b :: l else b :: insert name l

/-- The names in increasing order, each as often as it is in the list. -/
def ordered : List String → List String
  | [] => []
  | name :: l => insert name (ordered l)

/-- Puts something into a list that is in the order of its keys, in the place of what has the same
key. -/
def insertBy {α : Type} (key : α → String) (a : α) : List α → List α
  | [] => [a]
  | b :: l =>
    if key a < key b then a :: b :: l
    else if key a = key b then a :: l
    else b :: insertBy key a l

/-- The list in the order of the keys, without repetition. -/
def sortedBy {α : Type} (key : α → String) : List α → List α
  | [] => []
  | a :: l => insertBy key a (sortedBy key l)

/-- The names in increasing order, without repetition. -/
def sorted (l : List String) : List String :=
  sortedBy id l

/-- Whether a name starts with a text. -/
def startsWith (s text : String) : Bool :=
  text.toList.isPrefixOf s.toList

/-- What is put into a list is in it, and nothing else is new. -/
theorem mem_of_mem_insertBy {α : Type} {key : α → String} {a b : α} {l : List α}
    (h : b ∈ insertBy key a l) : b = a ∨ b ∈ l := by
  induction l with
  | nil => simpa [insertBy] using h
  | cons c l ih =>
    rw [insertBy] at h
    split at h
    · simpa using h
    · split at h
      · rcases List.mem_cons.1 h with h | h
        · exact Or.inl h
        · exact Or.inr (List.mem_cons_of_mem c h)
      · rcases List.mem_cons.1 h with h | h
        · exact Or.inr (h ▸ List.mem_cons_self)
        · exact (ih h).imp id (List.mem_cons_of_mem c)

/-- Sorting makes nothing up. -/
theorem mem_of_mem_sortedBy {α : Type} {key : α → String} {b : α} {l : List α}
    (h : b ∈ sortedBy key l) : b ∈ l := by
  induction l with
  | nil => simp [sortedBy] at h
  | cons a l ih =>
    rcases mem_of_mem_insertBy h with h | h
    · exact h ▸ List.mem_cons_self
    · exact List.mem_cons_of_mem a (ih h)

end Names
end LineShell
