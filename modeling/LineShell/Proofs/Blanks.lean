import LineShell.Text.Blank
import Mathlib.Data.List.TakeWhile

/-!
# What trimming takes away

Trimming splits a text into leading blanks, what is kept, and trailing blanks. `exists_trimStart`
and `exists_trimEnd` give the two splits, `trimEnd_append_of_blank` and `trimEnd_append` say that
only the last characters matter to the second, and `trim_append_blanks` that what is kept does not
depend on the blanks around it. So nothing more is taken away a second time (`trim_trim`), and a text
that neither starts nor ends blank is kept as it is (`trim_eq_self`).
-/

namespace LineShell
namespace Text

theorem trimEnd_cons (c : Char) (cs : List Char) :
    trimEnd (c :: cs) =
      if trimEnd cs = [] then (if isBlank c then [] else [c]) else c :: trimEnd cs := by
  rw [trimEnd]
  split <;> simp_all

/-- Blanks at the end are taken away. -/
theorem trimEnd_append_of_blank (a : List Char) {b : List Char} (hb : ∀ c ∈ b, isBlank c) :
    trimEnd (a ++ b) = trimEnd a := by
  induction a with
  | nil => simpa [trimEnd] using trimEnd_eq_nil_iff.2 hb
  | cons c a ih => rw [List.cons_append, trimEnd_cons, ih, ← trimEnd_cons]

/-- Nothing is taken away from before a character that is kept. -/
theorem trimEnd_append (a : List Char) {b : List Char} (hb : trimEnd b ≠ []) :
    trimEnd (a ++ b) = a ++ trimEnd b := by
  induction a with
  | nil => rfl
  | cons c a ih =>
    have hne : a ++ trimEnd b ≠ [] := by simp [hb]
    rw [List.cons_append, trimEnd_cons, ih, if_neg hne, List.cons_append]

theorem trimEnd_concat (a : List Char) {c : Char} (hc : ¬ isBlank c) :
    trimEnd (a ++ [c]) = a ++ [c] := by
  have h : trimEnd [c] = [c] := by simp [trimEnd, hc]
  rw [trimEnd_append a (by simp [h]), h]

/-- A text is what is kept of it at its end, and blanks. -/
theorem exists_trimEnd (cs : List Char) :
    ∃ b, cs = trimEnd cs ++ b ∧ ∀ c ∈ b, isBlank c := by
  induction cs with
  | nil => exact ⟨[], rfl, by simp⟩
  | cons c cs ih =>
    obtain ⟨b, hcs, hb⟩ := ih
    rw [trimEnd_cons]
    split_ifs with h hc
    · refine ⟨c :: cs, rfl, List.forall_mem_cons.2 ⟨hc, trimEnd_eq_nil_iff.1 h⟩⟩
    · exact ⟨cs, rfl, trimEnd_eq_nil_iff.1 h⟩
    · exact ⟨b, by rw [List.cons_append, ← hcs], hb⟩

theorem trimEnd_trimEnd (cs : List Char) : trimEnd (trimEnd cs) = trimEnd cs := by
  obtain ⟨b, hcs, hb⟩ := exists_trimEnd cs
  conv => rhs; rw [hcs, trimEnd_append_of_blank _ hb]

/-- What is kept at the end of a text does not end blank. -/
theorem not_isBlank_of_trimEnd {cs a : List Char} {c : Char} (h : trimEnd cs = a ++ [c]) :
    ¬ isBlank c := by
  intro hc
  have hshort : trimEnd a = a ++ [c] := by
    rw [← trimEnd_append_of_blank a (b := [c]) (by simpa using hc), ← h, trimEnd_trimEnd]
  obtain ⟨b, ha, -⟩ := exists_trimEnd a
  have := congrArg List.length ha
  simp only [hshort, List.length_append, List.length_cons] at this
  omega

/-- A text is blanks, and what is kept of it at its start. -/
theorem exists_trimStart (cs : List Char) :
    ∃ b, cs = b ++ trimStart cs ∧ ∀ c ∈ b, isBlank c :=
  ⟨cs.takeWhile isBlank, List.takeWhile_append_dropWhile.symm, fun _ => List.mem_takeWhile_imp⟩

/-- **Blanks around a text do not matter.** -/
theorem trim_append_blanks {a b : List Char} (ha : ∀ c ∈ a, isBlank c) (x : List Char)
    (hb : ∀ c ∈ b, isBlank c) : trim (a ++ x ++ b) = trim x := by
  by_cases hx : trimStart x = []
  · have hblank : ∀ c ∈ x, isBlank c := by
      rw [← trim_eq_nil_iff, trim, hx, trimEnd]
    have hall : ∀ c ∈ a ++ x ++ b, isBlank c :=
      List.forall_mem_append.2 ⟨List.forall_mem_append.2 ⟨ha, hblank⟩, hb⟩
    rw [trim_eq_nil_iff.2 hall, trim_eq_nil_iff.2 hblank]
  · have hstart : trimStart (a ++ x ++ b) = trimStart x ++ b := by
      rw [trimStart] at hx
      rw [trimStart, List.append_assoc, List.dropWhile_append_of_pos ha, List.dropWhile_append,
        if_neg (by simpa using hx), trimStart]
    rw [trim, hstart, trimEnd_append_of_blank _ hb, trim]

/-- A text is blanks, what is kept of it, and blanks. -/
theorem exists_trim (cs : List Char) :
    ∃ a b, cs = a ++ trim cs ++ b ∧ (∀ c ∈ a, isBlank c) ∧ ∀ c ∈ b, isBlank c := by
  obtain ⟨a, hstart, ha⟩ := exists_trimStart cs
  obtain ⟨b, hend, hb⟩ := exists_trimEnd (trimStart cs)
  refine ⟨a, b, ?_, ha, hb⟩
  rw [trim, List.append_assoc, ← hend, ← hstart]

theorem trim_trim (cs : List Char) : trim (trim cs) = trim cs := by
  obtain ⟨a, b, hcs, ha, hb⟩ := exists_trim cs
  conv => rhs; rw [hcs, trim_append_blanks ha _ hb]

/-- What is kept of a text does not start blank. -/
theorem not_isBlank_of_head?_trim {cs : List Char} {c : Char} (h : (trim cs).head? = some c) :
    ¬ isBlank c := by
  obtain ⟨b, hstart, -⟩ := exists_trimEnd (trimStart cs)
  rw [trim] at h
  have hhead : (cs.dropWhile isBlank).head? = some c := by
    rw [← trimStart, hstart, List.head?_append, h, Option.some_or]
  have hnot := List.head?_dropWhile_not isBlank cs
  rw [hhead] at hnot
  simpa using hnot

/-- What is kept of a text does not end blank. -/
theorem not_isBlank_of_getLast?_trim {cs : List Char} {c : Char}
    (h : (trim cs).getLast? = some c) : ¬ isBlank c := by
  obtain ⟨a, ha⟩ := List.getLast?_eq_some_iff.1 h
  exact not_isBlank_of_trimEnd ha

/-- A text that neither starts nor ends blank is kept as it is. -/
theorem trim_eq_self {x : List Char} {c d : Char} (hx : x.head? = some c) (hc : ¬ isBlank c)
    (hx' : x.getLast? = some d) (hd : ¬ isBlank d) : trim x = x := by
  obtain ⟨y, rfl⟩ := List.head?_eq_some_iff.1 hx
  obtain ⟨z, hz⟩ := List.getLast?_eq_some_iff.1 hx'
  rw [trim, trimStart, List.dropWhile_cons_of_neg hc, hz, trimEnd_concat z hd]

end Text
end LineShell
