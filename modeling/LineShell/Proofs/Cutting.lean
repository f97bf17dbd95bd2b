import LineShell.Completion.Completer
import Mathlib.Data.List.Basic

/-!
# The word before the cursor

A request is about the word between the last space and the cursor, and of a path it is the text
after the last slash that is looked for in a directory. `CutAt` says what such a cut is: the two
parts make up the text, the first one is empty or ends in the character, and the second one does not
hold it. There is exactly one cut of a text (`cutAt_cutAfterLast`, `CutAt.unique`), and it is found
by looking at the text from its end.

`resolve_eq` is what a request comes to at that cut. The place of the word is told in bytes, and
`byteLength_toList` says that these are the bytes of what stands before it.
-/

namespace LineShell
namespace Completion

/-- A text in two parts: what comes up to the last place where a character stands, and the rest. -/
structure CutAt (c : Char) (text head rest : String) : Prop where
  /-- The parts make up the text. -/
  joined : head ++ rest = text
  /-- The first part ends in the character, unless it is empty. -/
  ends : head = "" ∨ head.toList.getLast? = some c
  /-- The character does not stand in the second part. -/
  free : c ∉ rest.toList

section Cut

variable {c : Char}

/-- What is found from the end of a text is a cut of it. -/
theorem cutAfterLast_cases (c : Char) (l : List Char) :
    ∃ head rest, cutAfterLast c l = (head, rest) ∧ head ++ rest = l ∧
      (head = [] ∨ head.getLast? = some c) ∧ c ∉ rest := by
  induction l with
  | nil => exact ⟨[], [], rfl, rfl, .inl rfl, List.not_mem_nil⟩
  | cons x xs ih =>
    obtain ⟨head, rest, heq, rfl, hends, hfree⟩ := ih
    rw [cutAfterLast, heq]
    cases head with
    | nil =>
      by_cases hx : x = c
      · exact ⟨[x], rest, if_pos hx, rfl, .inr (congrArg some hx), hfree⟩
      · exact ⟨[], x :: rest, if_neg hx, rfl, .inl rfl,
          List.not_mem_cons_of_ne_of_not_mem (Ne.symm hx) hfree⟩
    | cons y ys =>
      have hlast := hends.resolve_left (List.cons_ne_nil y ys)
      exact ⟨x :: y :: ys, rest, rfl, rfl, .inr (by rwa [List.getLast?_cons_cons]), hfree⟩

/-- Every text can be cut after the last of a character. -/
theorem cutAt_cutAfterLast (c : Char) (text : String) :
    CutAt c text (String.ofList (cutAfterLast c text.toList).1)
      (String.ofList (cutAfterLast c text.toList).2) := by
  obtain ⟨head, rest, heq, hjoined, hends, hfree⟩ := cutAfterLast_cases c text.toList
  rw [heq]
  refine ⟨?_, ?_, ?_⟩
  · rw [← String.ofList_append, hjoined, String.ofList_toList]
  · rwa [String.toList_ofList, ← String.ofList_nil, String.ofList_inj]
  · rwa [String.toList_ofList]

theorem exists_cutAt (c : Char) (text : String) : ∃ head rest, CutAt c text head rest :=
  ⟨_, _, cutAt_cutAfterLast c text⟩

/-- Of two cuts of a text neither comes after the other. -/
theorem CutAt.eq_nil_of_append {text head rest head' rest' : String} {t : List Char}
    (h : CutAt c text head rest) (h' : CutAt c text head' rest')
    (hhead : head'.toList = head.toList ++ t) (hrest : rest.toList = t ++ rest'.toList) : t = [] := by
  by_contra ht
  have hne : head' ≠ "" := by
    rintro rfl
    simp [ht] at hhead
  have hlast := h'.ends.resolve_left hne
  rw [hhead, List.getLast?_append_of_ne_nil _ ht] at hlast
  exact h.free (hrest ▸ List.mem_append_left _ (List.mem_of_getLast? hlast))

/-- **A text is cut after the last of a character in one way.** -/
theorem CutAt.unique {text head rest head' rest' : String} (h : CutAt c text head rest)
    (h' : CutAt c text head' rest') : head' = head ∧ rest' = rest := by
  have happ : head.toList ++ rest.toList = head'.toList ++ rest'.toList := by
    rw [← String.toList_append, ← String.toList_append, h.joined, h'.joined]
  obtain ⟨t, hhead, hrest⟩ | ⟨t, hhead, hrest⟩ := List.append_eq_append_iff.1 happ
  · obtain rfl := h.eq_nil_of_append h' hhead hrest
    exact ⟨String.toList_inj.1 (by simpa using hhead), String.toList_inj.1 (by simpa using hrest.symm)⟩
  · obtain rfl := h'.eq_nil_of_append h hhead hrest
    exact ⟨String.toList_inj.1 (by simpa using hhead.symm), String.toList_inj.1 (by simpa using hrest)⟩

theorem CutAt.cutAfterLast_eq {text head rest : String} (h : CutAt c text head rest) :
    cutAfterLast c text.toList = (head.toList, rest.toList) := by
  obtain ⟨hhead, hrest⟩ := h.unique (cutAt_cutAfterLast c text)
  rw [← hhead, ← hrest, String.toList_ofList, String.toList_ofList]

end Cut

/-- The bytes that are counted are those of the encoded text. -/
theorem byteLength_toList (s : String) : byteLength s.toList = s.utf8ByteSize := by
  have hlist (l : List Char) : byteLength l = (String.ofList l).utf8ByteSize := by
    induction l with
    | nil => rfl
    | cons c l ih => rw [byteLength, ih, String.ofList_cons, String.utf8ByteSize_append,
        String.utf8ByteSize_singleton]
  rw [hlist, String.ofList_toList]

variable {σ : Type} [Host σ]

/-- **What a request comes to**, once the text before the cursor is cut after its last space. -/
theorem Completer.resolve_eq (c : Completer) {text head word : String} (s : σ)
    (h : CutAt ' ' text head word) :
    c.resolve text s =
      (⟨head.utf8ByteSize,
        suggest word (c.candidates head.toList word s) (c.presses.press text).count⟩,
        { c with presses := c.presses.press text }) := by
  simp only [resolve, h.cutAfterLast_eq, String.ofList_toList, byteLength_toList, Presses.complete]

/-- A completer in a directory, with no programs to be found. -/
def Completer.inDirectory (cwd : String) : Completer :=
  { searchPath := ⟨[], List.not_mem_nil⟩, prompt := "", cwd }

end Completion
end LineShell
