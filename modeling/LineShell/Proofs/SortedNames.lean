import LineShell.Names
import Mathlib.Data.List.Sort
import Mathlib.Data.String.Basic

/-!
# Names in increasing order

`Names.ordered` keeps each name as often as it comes (`perm_ordered`), in increasing order
(`pairwise_ordered`). So whether a name comes twice is decided by what is put in order
(`pairwise_lt_ordered`).

What `Names.sorted` makes of names is strictly increasing (`pairwise_sorted`) and holds the same
names (`mem_sorted`). No two lists are both at once, so this fixes it: `sorted_eq_iff`. So what
comes of names hangs on which names there are, and on neither their order nor how often each of them
stands in the list. Where something stands under each name, the first thing of a name is kept
(`lookup_sortedBy`).
-/

namespace LineShell
namespace Names

theorem insert_eq_orderedInsert (name : String) (l : List String) :
    insert name l = l.orderedInsert (· ≤ ·) name := by
  induction l with
  | nil => rfl
  | cons b l ih => rw [insert, List.orderedInsert_cons, ih]

theorem ordered_eq_insertionSort (l : List String) : ordered l = l.insertionSort (· ≤ ·) := by
  induction l with
  | nil => rfl
  | cons name l ih => rw [ordered, ih, insert_eq_orderedInsert, List.insertionSort_cons]

/-- Putting names in order drops none and makes up none. -/
theorem perm_ordered (l : List String) : (ordered l).Perm l :=
  ordered_eq_insertionSort l ▸ List.perm_insertionSort (· ≤ ·) l

@[simp] theorem mem_ordered {x : String} {l : List String} : x ∈ ordered l ↔ x ∈ l :=
  (perm_ordered l).mem_iff

theorem pairwise_ordered (l : List String) : (ordered l).Pairwise (· ≤ ·) :=
  ordered_eq_insertionSort l ▸ List.pairwise_insertionSort (· ≤ ·) l

/-- Names of which none comes twice are strictly increasing once they are in order. -/
theorem pairwise_lt_ordered {l : List String} (h : l.Nodup) : (ordered l).Pairwise (· < ·) := by
  have hnodup : (ordered l).Nodup := (perm_ordered l).nodup_iff.2 h
  exact (pairwise_ordered l).imp₂ (fun _ _ => lt_of_le_of_ne) hnodup

/-- A name starts with a single character if that is its first one. -/
theorem startsWith_iff_head? {name text : String} {c : Char} (htext : text.toList = [c]) :
    startsWith name text ↔ name.toList.head? = some c := by
  rw [startsWith, List.isPrefixOf_iff_prefix, htext, List.singleton_prefix_iff_head?_eq_some]

section Keys

variable {α : Type} {key : α → String}

/-- Putting something in its place keeps a list in the order of its keys. -/
theorem pairwise_insertBy {a : α} {l : List α} (h : l.Pairwise (key · < key ·)) :
    (insertBy key a l).Pairwise (key · < key ·) := by
  induction l with
  | nil => exact List.pairwise_singleton _ a
  | cons b l ih =>
    obtain ⟨hb, hl⟩ := List.pairwise_cons.1 h
    rw [insertBy]
    split_ifs with hlt heq
    · refine List.pairwise_cons.2 ⟨fun c hc => ?_, h⟩
      rcases List.mem_cons.1 hc with rfl | hc
      · exact hlt
      · exact hlt.trans (hb c hc)
    · exact List.pairwise_cons.2 ⟨fun c hc => heq ▸ hb c hc, hl⟩
    · have hgt : key b < key a := lt_of_le_of_ne (not_lt.1 hlt) (Ne.symm heq)
      refine List.pairwise_cons.2 ⟨fun c hc => ?_, ih hl⟩
      rcases mem_of_mem_insertBy hc with rfl | hc
      · exact hgt
      · exact hb c hc

/-- Sorting puts things in the order of their keys, no two of which are the same. -/
theorem pairwise_sortedBy (key : α → String) (l : List α) :
    (sortedBy key l).Pairwise (key · < key ·) := by
  induction l with
  | nil => exact List.Pairwise.nil
  | cons a l ih => exact pairwise_insertBy ih

end Keys

section Lookup

variable {β : Type} {name : String}

theorem mem_of_lookup_eq_some {value : β} {l : List (String × β)} (h : l.lookup name = some value) :
    (name, value) ∈ l := by
  obtain ⟨before, after, rfl, -⟩ := List.lookup_eq_some_iff.1 h
  exact List.mem_append_right before List.mem_cons_self

theorem lookup_cons_eq_ite (e : String × β) (l : List (String × β)) :
    (e :: l).lookup name = if name = e.1 then some e.2 else l.lookup name := by
  obtain ⟨key, value⟩ := e
  by_cases h : name = key
  · simp [h]
  · have hne : (name == key) = false := by simpa using h
    simp [List.lookup_cons, h, hne]

/-- What is put in stands under its name, and under every other name nothing changes. -/
theorem lookup_insertBy (e : String × β) (l : List (String × β)) :
    (insertBy Prod.fst e l).lookup name = if name = e.1 then some e.2 else l.lookup name := by
  induction l with
  | nil => exact lookup_cons_eq_ite e []
  | cons b l ih =>
    rw [insertBy]
    by_cases hlt : e.1 < b.1
    · rw [if_pos hlt, lookup_cons_eq_ite e]
    · rw [if_neg hlt]
      by_cases heq : e.1 = b.1
      · rw [if_pos heq, lookup_cons_eq_ite e, lookup_cons_eq_ite b, heq]
        split_ifs <;> rfl
      · rw [if_neg heq, lookup_cons_eq_ite b, lookup_cons_eq_ite b, ih]
        -- no name is both of the different keys
        split_ifs with hb he he
        · exact absurd (he.symm.trans hb) heq
        all_goals rfl

/-- **Sorting keeps what stands under a name**: the first thing of that name. -/
theorem lookup_sortedBy (l : List (String × β)) :
    (sortedBy Prod.fst l).lookup name = l.lookup name := by
  induction l with
  | nil => rfl
  | cons e l ih => rw [sortedBy, lookup_insertBy, ih, lookup_cons_eq_ite]

end Lookup

theorem mem_insertBy_id {x a : String} {l : List String} : x ∈ insertBy id a l ↔ x = a ∨ x ∈ l := by
  refine ⟨mem_of_mem_insertBy, fun h => ?_⟩
  induction l with
  | nil => simpa [insertBy] using h
  | cons b l ih =>
    rw [insertBy]
    simp only [id]
    split_ifs with hlt heq
    · exact List.mem_cons.2 h
    · subst heq
      rw [List.mem_cons, ← or_assoc, or_self] at h
      exact List.mem_cons.2 h
    · rcases h with rfl | h
      · exact List.mem_cons_of_mem b (ih (.inl rfl))
      · rcases List.mem_cons.1 h with rfl | h
        · exact List.mem_cons_self
        · exact List.mem_cons_of_mem b (ih (.inr h))

/-- Sorting names neither loses one nor makes one up. -/
@[simp] theorem mem_sorted {x : String} {l : List String} : x ∈ sorted l ↔ x ∈ l := by
  rw [sorted]
  induction l with
  | nil => rfl
  | cons a l ih => rw [sortedBy, mem_insertBy_id, ih, List.mem_cons]

/-- Sorted names are strictly increasing. -/
theorem pairwise_sorted (l : List String) : (sorted l).Pairwise (· < ·) :=
  pairwise_sortedBy id l

/-- **Sorting is the one way to have the names in increasing order.** -/
theorem sorted_eq_iff {l l' : List String} :
    sorted l = l' ↔ l'.Pairwise (· < ·) ∧ ∀ x, x ∈ l' ↔ x ∈ l := by
  constructor
  · rintro rfl
    exact ⟨pairwise_sorted l, fun x => mem_sorted⟩
  · rintro ⟨hp, hmem⟩
    have hs := pairwise_sorted l
    have hperm : (sorted l).Perm l' := by
      refine (List.perm_ext_iff_of_nodup (hs.imp ne_of_lt) (hp.imp ne_of_lt)).2 fun x => ?_
      rw [mem_sorted, hmem]
    exact hperm.eq_of_pairwise (fun x y _ _ hxy hyx => absurd hyx (lt_asymm hxy)) hs hp

end Names
end LineShell
