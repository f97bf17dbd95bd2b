import LineShell.Text.Number
import Mathlib.Data.List.Induction
import Mathlib.Data.Nat.Digits.Defs

/-!
# The numbers that can be typed

A numeral is one or more ASCII digits, with a plus or minus sign in front of them or none. It stands
for the number that its digits spell in base ten, highest digit first. `signed?` reads numerals and
nothing else (`signed?_eq_some_iff`), and `status?` reads those whose value fits into 32 bits
(`status?_eq_some_iff`).
-/

namespace LineShell
namespace Text

/-- The number that digits spell in base ten. -/
def decimal (ds : List Char) : Nat :=
  Nat.ofDigits 10 (ds.reverse.map fun c => c.toNat - '0'.toNat)

/-- One or more ASCII digits. -/
structure IsDigits (ds : List Char) : Prop where
  /-- There is a digit. -/
  ne_nil : ds ≠ []
  /-- There is nothing else. -/
  digit : ∀ c ∈ ds, '0' ≤ c ∧ c ≤ '9'

/-- A numeral and the number that it stands for. -/
inductive Numeral : List Char → Int → Prop where
  /-- Digits alone. -/
  | plain {ds : List Char} (h : IsDigits ds) : Numeral ds (decimal ds)
  /-- Digits after a plus sign. -/
  | plus {ds : List Char} (h : IsDigits ds) : Numeral ('+' :: ds) (decimal ds)
  /-- Digits after a minus sign. -/
  | minus {ds : List Char} (h : IsDigits ds) : Numeral ('-' :: ds) (-decimal ds)

/-- One more digit makes ten times the number, and the digit. -/
theorem decimal_append_singleton (ds : List Char) (c : Char) :
    decimal (ds ++ [c]) = 10 * decimal ds + (c.toNat - '0'.toNat) := by
  rw [decimal, List.reverse_append, List.reverse_singleton, List.singleton_append, List.map_cons,
    Nat.ofDigits_cons]
  exact Nat.add_comm ..

theorem foldl_eq_decimal (ds : List Char) :
    ds.foldl (fun n c => 10 * n + (c.toNat - '0'.toNat)) 0 = decimal ds := by
  induction ds using List.reverseRecOn with
  | nil => rfl
  | append_singleton ds c ih =>
    rw [List.foldl_append, List.foldl_cons, List.foldl_nil, ih, decimal_append_singleton]

theorem isDigit_iff {c : Char} : c.isDigit ↔ '0' ≤ c ∧ c ≤ '9' := by
  simp [Char.isDigit, Char.le_def]

theorem digits?_eq_some_iff {cs : List Char} {n : Nat} :
    digits? cs = some n ↔ IsDigits cs ∧ n = decimal cs := by
  cases cs with
  | nil => simp [digits?, show ¬ IsDigits [] from fun h => h.ne_nil rfl]
  | cons c cs =>
    have hall : (c :: cs).all Char.isDigit ↔ IsDigits (c :: cs) := by
      rw [List.all_eq_true]
      exact ⟨fun h => ⟨List.cons_ne_nil c cs, fun d hd => isDigit_iff.1 (h d hd)⟩,
        fun h d hd => isDigit_iff.2 (h.digit d hd)⟩
    rw [digits?, foldl_eq_decimal]
    · by_cases h : IsDigits (c :: cs)
      · simp [hall.2 h, h, eq_comm]
      · simp [mt hall.1 h, h]
    · exact List.cons_ne_nil c cs

/-- No digit is a sign. -/
theorem IsDigits.head_ne {c d : Char} {ds : List Char} (h : IsDigits (c :: ds)) (hd : d < '0') :
    c ≠ d := by
  rintro rfl
  exact Char.not_le.2 hd (h.digit c List.mem_cons_self).1

/-- **The numbers that are read are the numerals.** -/
theorem signed?_eq_some_iff {cs : List Char} {v : Int} : signed? cs = some v ↔ Numeral cs v := by
  constructor
  · intro h
    unfold signed? at h
    split at h
    · obtain ⟨_, hn, rfl⟩ := Option.map_eq_some_iff.1 h
      obtain ⟨n, hn, hv⟩ := Option.bind_eq_some_iff.1 hn
      obtain ⟨hdigits, rfl⟩ := digits?_eq_some_iff.1 hn
      rw [← Option.some.inj hv]
      exact .minus hdigits
    · obtain ⟨n, hn, rfl⟩ := Option.map_eq_some_iff.1 h
      obtain ⟨hdigits, rfl⟩ := digits?_eq_some_iff.1 hn
      exact .plus hdigits
    · obtain ⟨n, hn, rfl⟩ := Option.map_eq_some_iff.1 h
      obtain ⟨hdigits, rfl⟩ := digits?_eq_some_iff.1 hn
      exact .plain hdigits
  · intro h
    cases h with
    | plus h | minus h => simp [signed?, digits?_eq_some_iff.2 ⟨h, rfl⟩]
    | plain h =>
      cases cs with
      | nil => exact absurd rfl h.ne_nil
      | cons c ds =>
        have hminus : c ≠ '-' := h.head_ne (by decide)
        have hplus : c ≠ '+' := h.head_ne (by decide)
        simp [signed?, hminus, hplus, digits?_eq_some_iff.2 ⟨h, rfl⟩]

/-- **The statuses that are read** are the numerals from -2^31 to 2^31 - 1. -/
theorem status?_eq_some_iff {s : String} {v : Int} :
    status? s = some v ↔ Numeral s.toList v ∧ -2 ^ 31 ≤ v ∧ v ≤ 2 ^ 31 - 1 := by
  rw [status?, Option.filter_eq_some_iff, signed?_eq_some_iff, decide_eq_true_iff]
  exact and_congr_right fun _ => by omega

end Text
end LineShell
