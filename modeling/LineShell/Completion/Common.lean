/-!
# What texts have in common

The longest text that several texts all start with is cut out of the first of them. The place is
found in bytes: each other text agrees with the first one up to some byte, character by character,
and the least of these bytes is where the first one is cut. A text can only be cut between two
characters, so that the place is always one of these is part of the definition (`isValid_cut`).
-/

namespace LineShell
namespace Completion

/-- The characters of a text, each with the byte at which it starts. -/
def indexed (start : Nat) : List Char → List (Nat × Char)
  | [] => []
  | c :: cs => (start, c) :: indexed (start + c.utf8Size) cs

/-- The byte up to which a text agrees with another, character by character; its own first character
starts at the given byte. -/
def agreement (start : Nat) (text other : List Char) : Nat :=
  match (((indexed start text).zip other).takeWhile fun p => p.1.2 == p.2).getLast? with
  | none => start
  | some ((i, c), _) => i + c.utf8Size

/-- The byte up to which a text agrees with each of the others. -/
def cut (first : String) (rest : List String) : Nat :=
  rest.foldl (fun cut word => min (agreement 0 first.toList word.toList) cut) first.utf8ByteSize

section Cut

theorem agreement_nil_right (start : Nat) (text : List Char) : agreement start text [] = start := by
  rw [agreement, List.zip_nil_right]
  rfl

/-- Two texts agree for one character more, or no further. -/
theorem agreement_cons (start : Nat) (a b : Char) (as bs : List Char) :
    agreement start (a :: as) (b :: bs) =
      if a = b then agreement (start + a.utf8Size) as bs else start := by
  rw [agreement, indexed, List.zip_cons_cons, List.takeWhile_cons]
  by_cases hab : a = b
  · rw [if_pos (beq_iff_eq.2 hab), if_pos hab, List.getLast?_cons, agreement]
    cases (((indexed (start + a.utf8Size) as).zip bs).takeWhile fun p => p.1.2 == p.2).getLast? <;>
      rfl
  · rw [if_neg (mt beq_iff_eq.1 hab), if_neg hab]
    rfl

/-- **Two texts agree up to the end of the greatest text that both start with.** -/
theorem exists_agreement (start : Nat) (text other : List Char) :
    ∃ q, (∀ p, p <+: q ↔ p <+: text ∧ p <+: other) ∧
      agreement start text other = start + (String.ofList q).utf8ByteSize := by
  induction text generalizing start other with
  | nil =>
    refine ⟨[], fun p => ?_, rfl⟩
    rw [List.prefix_nil]
    exact ⟨fun hp => ⟨hp, hp ▸ List.nil_prefix⟩, And.left⟩
  | cons a as ih =>
    cases other with
    | nil =>
      refine ⟨[], fun p => ?_, agreement_nil_right start _⟩
      rw [List.prefix_nil]
      exact ⟨fun hp => ⟨hp ▸ List.nil_prefix, hp⟩, And.right⟩
    | cons b bs =>
      rw [agreement_cons]
      by_cases hab : a = b
      · obtain ⟨q, hq, hagree⟩ := ih (start + a.utf8Size) bs
        refine ⟨a :: q, fun p => ?_, ?_⟩
        · cases p with
          | nil => simp
          | cons x p =>
            simp only [List.cons_prefix_cons, hq, ← hab]
            exact ⟨fun ⟨hx, has, hbs⟩ => ⟨⟨hx, has⟩, hx, hbs⟩,
              fun ⟨⟨hx, has⟩, _, hbs⟩ => ⟨hx, has, hbs⟩⟩
        · rw [if_pos hab, hagree, String.ofList_cons, String.utf8ByteSize_append,
            String.utf8ByteSize_singleton, Nat.add_assoc]
      · refine ⟨[], fun p => ?_, if_neg hab⟩
        cases p with
        | nil => simp
        | cons x p =>
          simp only [List.cons_prefix_cons, List.prefix_nil, reduceCtorEq, false_iff]
          rintro ⟨⟨rfl, -⟩, hx, -⟩
          exact hab hx

theorem utf8ByteSize_mono {p q : List Char} (h : p <+: q) :
    (String.ofList p).utf8ByteSize ≤ (String.ofList q).utf8ByteSize := by
  obtain ⟨t, rfl⟩ := h
  rw [String.ofList_append, String.utf8ByteSize_append]
  omega

/-- With one more text the cut stays at the end of a start of the first: of two starts of it, one is
a start of the other, and the least byte is the end of that one. -/
theorem exists_min_agreement {first q : List Char} (hq : q <+: first) (word : List Char) :
    ∃ q', (∀ p, p <+: q' ↔ p <+: q ∧ p <+: word) ∧
      min (agreement 0 first word) (String.ofList q).utf8ByteSize =
        (String.ofList q').utf8ByteSize := by
  obtain ⟨r, hr, hagree⟩ := exists_agreement 0 first word
  obtain ⟨hfirst, hword⟩ := (hr r).1 List.prefix_rfl
  rw [hagree, Nat.zero_add]
  rcases List.prefix_or_prefix_of_prefix hfirst hq with hrq | hqr
  · refine ⟨r, fun p => ⟨fun hp => ⟨hp.trans hrq, hp.trans hword⟩, fun ⟨hpq, hpw⟩ => ?_⟩,
      Nat.min_eq_left (utf8ByteSize_mono hrq)⟩
    exact (hr p).2 ⟨hpq.trans hq, hpw⟩
  · refine ⟨q, fun p => ⟨fun hp => ⟨hp, ?_⟩, And.left⟩,
      Nat.min_eq_right (utf8ByteSize_mono hqr)⟩
    exact (hp.trans hqr).trans hword

/-- However many texts there are, the cut stays at the end of a start of the first one. -/
theorem exists_foldl_agreement {first q : List Char} (hq : q <+: first) (rest : List String) :
    ∃ q', (∀ p, p <+: q' ↔ p <+: q ∧ ∀ w ∈ rest, p <+: w.toList) ∧
      rest.foldl (fun cut word => min (agreement 0 first word.toList) cut)
        (String.ofList q).utf8ByteSize = (String.ofList q').utf8ByteSize := by
  induction rest generalizing q with
  | nil => exact ⟨q, fun p => by simp, rfl⟩
  | cons word rest ih =>
    obtain ⟨r, hr, hmin⟩ := exists_min_agreement hq word.toList
    obtain ⟨q', hq', hfold⟩ := ih (((hr r).1 List.prefix_rfl).1.trans hq)
    refine ⟨q', fun p => ?_, ?_⟩
    · rw [hq', hr, List.forall_mem_cons, and_assoc]
    · rw [List.foldl_cons, hmin, hfold]

/-- **The cut is at the end of the greatest text that all texts start with.** -/
theorem exists_cut (first : String) (rest : List String) :
    ∃ q : String, (∀ p, p <+: q.toList ↔ ∀ w ∈ first :: rest, p <+: w.toList) ∧
      cut first rest = q.utf8ByteSize := by
  obtain ⟨q, hq, hfold⟩ := exists_foldl_agreement (List.prefix_refl first.toList) rest
  rw [String.ofList_toList] at hfold
  refine ⟨String.ofList q, fun p => ?_, hfold⟩
  rw [String.toList_ofList, hq, List.forall_mem_cons]

/-- The cut is between two characters of the first text. -/
theorem isValid_cut (first : String) (rest : List String) :
    String.Pos.Raw.IsValid first ⟨cut first rest⟩ := by
  obtain ⟨q, hq, hcut⟩ := exists_cut first rest
  obtain ⟨t, ht⟩ := (hq q.toList).1 List.prefix_rfl first List.mem_cons_self
  rw [String.Pos.Raw.isValid_iff_exists_append]
  refine ⟨q, String.ofList t, ?_, ?_⟩
  · rw [← String.toList_inj, String.toList_append, String.toList_ofList, ht]
  · rw [hcut]
    rfl

end Cut

/-- The longest text that all texts of a list start with; nothing for no texts. -/
def common : List String → String
  | [] => ""
  | first :: rest => (first.sliceTo (first.pos ⟨cut first rest⟩ (isValid_cut first rest))).copy

/-- What is cut out of the first text are the characters before the cut. -/
theorem common_splits (first : String) (rest : List String) :
    (first.pos ⟨cut first rest⟩ (isValid_cut first rest)).Splits (common (first :: rest))
      (first.sliceFrom (first.pos ⟨cut first rest⟩ (isValid_cut first rest))).copy :=
  String.Pos.splits _

end Completion
end LineShell
