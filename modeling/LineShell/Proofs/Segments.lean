import LineShell.Proofs.Turns
import LineShell.Stage

/-!
# Stages and words agree on quotes

A line is read twice: once to find the bars that divide it into stages, and once, stage by stage,
to find the words. The two readings have rules of their own for a backslash between double quotes.
The scanner of stages passes over the next character whatever it is; the reader of words takes it
with the backslash only if it is escapable. They agree all the same, because a character that is
not escapable stands for itself and changes no quotes. `scan_of_turn` is this simulation: one turn
of the reader moves the scanner of stages by the same characters to the same quotes, unless the
turn starts at a dividing bar.

From it follow that the stages, joined by bars, are the line (`intercalate_segments`), that the
dividing bars are the bars that the reader of words meets outside quotes and not escaped
(`mem_cuts_scan`), and that reading the stages one by one gives the words of the line with its
dividing bars turned into spaces (`flatMap_split_segments`).
-/

namespace LineShell
namespace Stage

open Word (turn Turn Meets)

theorem segments_eq (line : List Char) :
    segments line = (scan .bare line).1 :: (scan .bare line).2 := rfl

theorem scan_nil (q : Quoting) : scan q [] = ([], []) := by
  cases q <;> rfl

theorem scan_bar (cs : List Char) : scan .bare ('|' :: cs) = ([], segments cs) := rfl

theorem scan_quote (cs : List Char) :
    scan .bare ('\'' :: cs) = ('\'' :: (scan .single cs).1, (scan .single cs).2) := rfl

theorem scan_of_plain {q : Quoting} {c : Char} (h : Word.Plain q c) (hb : q = .bare → c ≠ '|')
    (cs : List Char) : scan q (c :: cs) = (c :: (scan q cs).1, (scan q cs).2) := by
  cases q <;> rw [scan] <;> simp_all [Word.Plain]

/-- **The scanner of stages moves with the reader of words.** A turn that does not start at a
dividing bar adds the characters it takes to the stage under way. -/
theorem scan_of_turn {q : Quoting} {cs : List Char} {t : Turn} (ht : turn q cs = some t)
    (hb : q = .bare → cs.head? ≠ some '|') :
    scan q cs = (cs.take t.count ++ (scan t.quoting (cs.drop t.count)).1,
      (scan t.quoting (cs.drop t.count)).2) := by
  cases Word.rule_of_turn ht with
  | plain q c cs hc => exact scan_of_plain hc (by simpa using hb) cs
  | keep c cs he =>
    -- the scanner takes two characters here and the reader one
    have hkeep : scan .double ('\\' :: c :: cs) =
        ('\\' :: c :: (scan .double cs).1, (scan .double cs).2) := rfl
    simp [hkeep, scan_of_plain (Word.plain_double_of_not_escapable he)]
  | _ => rfl

/-- **Induction along both readings.** The scanner of stages stops at a dividing bar or moves with a
turn of the reader of words. -/
theorem scanInduction {motive : Quoting → List Char → Prop} (nil : ∀ q, motive q [])
    (bar : ∀ cs, motive .bare cs → motive .bare ('|' :: cs))
    (step : ∀ q cs t, turn q cs = some t → (q = .bare → cs.head? ≠ some '|') →
      motive t.quoting (cs.drop t.count) → motive q cs)
    (q : Quoting) (cs : List Char) : motive q cs := by
  induction q, cs using Word.turnInduction with
  | nil q => exact nil q
  | step q cs t ht ih =>
    by_cases hb : q = .bare → cs.head? ≠ some '|'
    · exact step q cs t ht hb ih
    · push Not at hb
      obtain ⟨rfl, hhead⟩ := hb
      obtain ⟨cs, rfl⟩ := List.head?_eq_some_iff.1 hhead
      rw [Word.turn_of_plain (by simp [Word.Plain])] at ht
      obtain rfl := Option.some.inj ht
      exact bar cs ih

/-- What stands before the first dividing bar and what comes after it. -/
theorem eq_append_of_scan {q : Quoting} {cs : List Char} {ss : List (List Char)}
    (h : (scan q cs).2 = ss) (hss : ss ≠ []) :
    ∃ b, cs = (scan q cs).1 ++ '|' :: b ∧ segments b = ss := by
  induction q, cs using scanInduction with
  | nil q => exact absurd h.symm hss
  | bar cs _ => exact ⟨cs, rfl, h⟩
  | step q cs t ht hb ih =>
    rw [scan_of_turn ht hb] at h ⊢
    obtain ⟨b, hcs, hb⟩ := ih h
    refine ⟨b, ?_, hb⟩
    rw [List.append_assoc, ← hcs, List.take_append_drop]

/-- The positions, in a line, of the bars between the stages it is made of. -/
def cuts : List (List Char) → List Nat
  | s :: u :: us => s.length :: (cuts (u :: us)).map (s.length + 1 + ·)
  | _ => []

theorem cuts_append (p s : List Char) (ss : List (List Char)) :
    cuts ((p ++ s) :: ss) = (cuts (s :: ss)).map (p.length + ·) := by
  cases ss with
  | nil => rfl
  | cons u us =>
    simp only [cuts, List.length_append, List.map_cons, List.map_map]
    congr 2
    funext i
    simp only [Function.comp_apply]
    omega

/-- A bar that the reader meets outside quotes is the character at hand or is met after a turn. -/
theorem meets_bar_iff {q : Quoting} {cs : List Char} {t : Turn} (ht : turn q cs = some t)
    {i : Nat} : (cs[i]? = some '|' ∧ Meets q cs i) ↔
      (i = 0 ∧ q = .bare ∧ cs.head? = some '|') ∨
        ∃ j, ((cs.drop t.count)[j]? = some '|' ∧ Meets t.quoting (cs.drop t.count) j) ∧
          t.count + j = i := by
  rw [Word.meets_iff_of_turn ht]
  constructor
  · rintro ⟨hc, ⟨rfl, hq⟩ | ⟨j, rfl, hj⟩⟩
    · exact .inl ⟨rfl, hq, List.head?_eq_getElem? ▸ hc⟩
    · exact .inr ⟨j, ⟨List.getElem?_drop ▸ hc, hj⟩, rfl⟩
  · rintro (⟨rfl, hq, hc⟩ | ⟨j, ⟨hc, hj⟩, rfl⟩)
    · exact ⟨List.head?_eq_getElem? ▸ hc, .inl ⟨rfl, hq⟩⟩
    · exact ⟨List.getElem?_drop ▸ hc, .inr ⟨j, rfl, hj⟩⟩

/-- **The dividing bars are those that the reader of words meets outside quotes.** -/
theorem mem_cuts_scan {q : Quoting} {cs : List Char} {i : Nat} :
    i ∈ cuts ((scan q cs).1 :: (scan q cs).2) ↔ cs[i]? = some '|' ∧ Meets q cs i := by
  induction q, cs using scanInduction generalizing i with
  | nil q => simp [scan_nil, cuts]
  | bar cs ih =>
    have ht : turn .bare ('|' :: cs) = some ⟨.add ['|'], .bare, 1⟩ := rfl
    rw [scan_bar, segments_eq, cuts, List.mem_cons, List.mem_map, meets_bar_iff ht]
    simp [ih]
  | step q cs t ht hb ih =>
    have hlen : (cs.take t.count).length = t.count :=
      List.length_take_of_le (Word.turn_count ht).2
    have hno : ¬ (i = 0 ∧ q = .bare ∧ cs.head? = some '|') := fun ⟨_, hq, hc⟩ => hb hq hc
    rw [scan_of_turn ht hb, cuts_append, List.mem_map, hlen, meets_bar_iff ht, or_iff_right hno]
    simp only [ih]

/-- Where the first of several stages ends, the reader of words is outside quotes. -/
theorem meets_of_segments {line s u : List Char} {us : List (List Char)}
    (h : segments line = s :: u :: us) :
    ∃ b, line = s ++ '|' :: b ∧ segments b = u :: us ∧ Meets .bare (s ++ '|' :: b) s.length := by
  rw [segments_eq, List.cons.injEq] at h
  obtain ⟨rfl, hss⟩ := h
  obtain ⟨b, hline, hb⟩ := eq_append_of_scan hss (List.cons_ne_nil u us)
  refine ⟨b, hline, hb, ?_⟩
  rw [← hline]
  refine (mem_cuts_scan.1 ?_).2
  rw [hss, cuts]
  exact List.mem_cons_self ..

theorem intercalate_append_cons (sep p s : List Char) (ss : List (List Char)) :
    List.intercalate sep ((p ++ s) :: ss) = p ++ List.intercalate sep (s :: ss) := by
  cases ss with
  | nil => simp
  | cons u us => simp only [List.intercalate_cons_cons, List.append_assoc]

theorem intercalate_scan (q : Quoting) (cs : List Char) :
    List.intercalate ['|'] ((scan q cs).1 :: (scan q cs).2) = cs := by
  induction q, cs using scanInduction with
  | nil q => rfl
  | bar cs ih =>
    rw [scan_bar, segments_eq, List.intercalate_cons_cons, ih, List.nil_append,
      List.singleton_append]
  | step q cs t ht hb ih =>
    rw [scan_of_turn ht hb, intercalate_append_cons, ih, List.take_append_drop]

/-- **The stages joined by bars are the line.** -/
theorem intercalate_segments (line : List Char) :
    List.intercalate ['|'] (segments line) = line :=
  intercalate_scan .bare line

/-- **Reading the stages one by one** gives the words of the stages joined by spaces. -/
theorem flatMap_split_segments (line : List Char) :
    (segments line).flatMap Word.split = Word.split (List.intercalate [' '] (segments line)) := by
  generalize hL : segments line = L
  induction L generalizing line with
  | nil => rfl
  | cons s L ih =>
    cases L with
    | nil => simp
    | cons u us =>
      obtain ⟨b, rfl, hb, hm⟩ := meets_of_segments hL
      rw [List.flatMap_cons, ih b hb, List.intercalate_cons_cons, List.append_assoc,
        List.singleton_append, Word.split_append_space hm (List.cons_ne_nil _ _)]

/-- A line with the dividing bars turned into spaces. -/
def spaced (line : List Char) : List Char :=
  line.mapIdx fun i c => if i ∈ cuts (segments line) then ' ' else c

/-- Before its first bar a line is not changed by turning bars into spaces. -/
theorem mapIdx_eq_self {s : List Char} {is : List Nat} (h : ∀ i ∈ is, s.length ≤ i) :
    s.mapIdx (fun i c => if i ∈ is then ' ' else c) = s := by
  refine List.mapIdx_eq_iff.2 fun i => ?_
  cases hc : s[i]? with
  | none => rfl
  | some c =>
    obtain ⟨hi, -⟩ := List.getElem?_eq_some_iff.1 hc
    have hno : i ∉ is := fun hmem => absurd (h i hmem) (by omega)
    simp [hno]

/-- Turning the bars between texts into spaces joins the texts by spaces. -/
theorem mapIdx_intercalate (L : List (List Char)) :
    (List.intercalate ['|'] L).mapIdx (fun i c => if i ∈ cuts L then ' ' else c) =
      List.intercalate [' '] L := by
  induction L with
  | nil => rfl
  | cons s L ih =>
    cases L with
    | nil =>
      rw [List.intercalate_singleton, List.intercalate_singleton, cuts.eq_2 _ (by simp)]
      exact mapIdx_eq_self (List.forall_mem_nil _)
    | cons u us =>
      have hs : ∀ i ∈ cuts (s :: u :: us), s.length ≤ i := by
        simp only [cuts, List.mem_cons, List.mem_map]
        rintro i (rfl | ⟨j, -, rfl⟩) <;> omega
      have hrest : ∀ i, i + 1 + s.length ∈ cuts (s :: u :: us) ↔ i ∈ cuts (u :: us) := by
        intro i
        simp only [cuts, List.mem_cons, List.mem_map]
        constructor
        · rintro (h | ⟨j, hj, h⟩)
          · omega
          · rwa [show i = j by omega]
        · intro hi
          exact .inr ⟨i, hi, by omega⟩
      have hbar : 0 + s.length ∈ cuts (s :: u :: us) := by simp [cuts]
      rw [List.intercalate_cons_cons, List.intercalate_cons_cons, List.append_assoc,
        List.append_assoc, List.mapIdx_append, List.singleton_append, List.mapIdx_cons,
        mapIdx_eq_self hs, ← ih]
      simp only [hrest, hbar, ite_true, List.singleton_append]

/-- The line with its dividing bars turned into spaces is its stages joined by spaces. -/
theorem spaced_eq (line : List Char) :
    spaced line = List.intercalate [' '] (segments line) := by
  rw [← mapIdx_intercalate, intercalate_segments, spaced]

/-- **Stages and words agree on quotes.** The stages joined by bars are the line; the bars between
them are the bars that the reader of words, reading the whole line, meets outside quotes and not
escaped; and the words of the stages, one after the other, are the words of the line with those
bars turned into spaces. -/
theorem segments_agree_with_words (cs : List Char) :
    List.intercalate ['|'] (segments cs) = cs ∧
      (∀ i, i ∈ cuts (segments cs) ↔ cs[i]? = some '|' ∧ Meets .bare cs i) ∧
      (segments cs).flatMap Word.split = Word.split (spaced cs) := by
  refine ⟨intercalate_segments cs, fun i => mem_cuts_scan, ?_⟩
  rw [spaced_eq, flatMap_split_segments]

end Stage
end LineShell
