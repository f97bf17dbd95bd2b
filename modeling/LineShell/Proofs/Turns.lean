import LineShell.Word
import Mathlib.Data.List.Basic

/-!
# Reading words turn by turn

The reader of words goes through a line in turns. A turn starts at a character between known
quotes, takes one or two characters, adds to the word under way or ends it, and leaves the reader
between known quotes again. Two characters are taken only when a backslash escapes the second one:
always outside quotes, and for the escapable characters between double quotes.

`scan_of_turn` says that `scan` does what its turns do, so what is proved of every turn
(`turnInduction`) holds of every line. `Meets` is the place where the scanner of stages and the
reader of words are compared: the reader meets a character outside quotes and not escaped when a
turn outside quotes starts there. At such a place a line can be taken apart and read in two
(`scan_append_space`).
-/

namespace LineShell
namespace Word

/-- What is read from a position on: the rest of the word under way and the words after it. -/
abbrev Reading := List Char × List (List Char)

/-- What a turn does to the words. -/
inductive Effect where
  /-- The word under way ends. -/
  | cut
  /-- The word under way gets these characters. -/
  | add (cs : List Char)
  deriving DecidableEq, Repr

/-- The reading before a turn, from the reading after it. -/
def Effect.apply : Effect → Reading → Reading
  | .cut, r => ([], r.1 :: r.2)
  | .add cs, r => (cs ++ r.1, r.2)

/-- One turn of the reader. -/
structure Turn where
  /-- What it does to the words. -/
  effect : Effect
  /-- The quotes the reader is between afterwards. -/
  quoting : Quoting
  /-- How many characters it takes. -/
  count : Nat
  deriving DecidableEq, Repr

/-- The turn that starts at a position between the given quotes, unless the line is at its end. -/
def turn : Quoting → List Char → Option Turn
  | _, [] => none
  | .bare, ' ' :: _ => some ⟨.cut, .bare, 1⟩
  | .bare, '\'' :: _ => some ⟨.add [], .single, 1⟩
  | .bare, '"' :: _ => some ⟨.add [], .double, 1⟩
  | .bare, ['\\'] => some ⟨.add [], .bare, 1⟩
  | .bare, '\\' :: c :: _ => some ⟨.add [c], .bare, 2⟩
  | .single, '\'' :: _ => some ⟨.add [], .bare, 1⟩
  | .double, '"' :: _ => some ⟨.add [], .bare, 1⟩
  | .double, ['\\'] => some ⟨.add ['\\'], .double, 1⟩
  | .double, '\\' :: c :: _ =>
    if escapable c then some ⟨.add [c], .double, 2⟩ else some ⟨.add ['\\'], .double, 1⟩
  | q, c :: _ => some ⟨.add [c], q, 1⟩

/-- A character that stands for itself between the given quotes. -/
def Plain : Quoting → Char → Prop
  | .bare, c => c ∉ [' ', '\\', '\'', '"']
  | .single, c => c ≠ '\''
  | .double, c => c ≠ '"' ∧ c ≠ '\\'

theorem plain_double_of_not_escapable {c : Char} (h : ¬ escapable c) : Plain .double c := by
  constructor <;> rintro rfl <;> exact h (by decide)

theorem scan_of_plain {q : Quoting} {c : Char} (h : Plain q c) (cs : List Char) :
    scan q (c :: cs) = (Effect.add [c]).apply (scan q cs) := by
  cases q <;> rw [scan] <;> simp_all [Plain, Effect.apply]

theorem turn_of_plain {q : Quoting} {c : Char} (h : Plain q c) (cs : List Char) :
    turn q (c :: cs) = some ⟨.add [c], q, 1⟩ := by
  cases q <;> rw [turn] <;> simp_all [Plain]

/-- What stands where a turn starts, with the turn. -/
inductive Rule : Quoting → List Char → Turn → Prop
  | space (cs : List Char) : Rule .bare (' ' :: cs) ⟨.cut, .bare, 1⟩
  | openSingle (cs : List Char) : Rule .bare ('\'' :: cs) ⟨.add [], .single, 1⟩
  | openDouble (cs : List Char) : Rule .bare ('"' :: cs) ⟨.add [], .double, 1⟩
  | closeSingle (cs : List Char) : Rule .single ('\'' :: cs) ⟨.add [], .bare, 1⟩
  | closeDouble (cs : List Char) : Rule .double ('"' :: cs) ⟨.add [], .bare, 1⟩
  /-- Outside quotes a backslash escapes any character. -/
  | escape (c : Char) (cs : List Char) : Rule .bare ('\\' :: c :: cs) ⟨.add [c], .bare, 2⟩
  /-- Outside quotes a backslash at the end of the line is dropped. -/
  | dropLast : Rule .bare ['\\'] ⟨.add [], .bare, 1⟩
  /-- Between double quotes a backslash escapes the escapable characters only. -/
  | unescape (c : Char) (cs : List Char) (h : escapable c) :
      Rule .double ('\\' :: c :: cs) ⟨.add [c], .double, 2⟩
  /-- Before any other character it stands for itself. -/
  | keep (c : Char) (cs : List Char) (h : ¬ escapable c) :
      Rule .double ('\\' :: c :: cs) ⟨.add ['\\'], .double, 1⟩
  | keepLast : Rule .double ['\\'] ⟨.add ['\\'], .double, 1⟩
  | plain (q : Quoting) (c : Char) (cs : List Char) (h : Plain q c) :
      Rule q (c :: cs) ⟨.add [c], q, 1⟩

/-- **Every turn goes by a rule.** -/
theorem rule_of_turn {q : Quoting} {cs : List Char} {t : Turn} (h : turn q cs = some t) :
    Rule q cs t := by
  revert h
  fun_cases turn q cs with
  | case1 => simp
  | case12 q c cs =>
    -- no row of `turn` before the last one speaks of this character
    rintro ⟨⟩
    refine .plain q c cs ?_
    cases q <;> cases cs <;> simp_all [Plain]
  | _ => rintro ⟨⟩; constructor <;> assumption

/-- **`scan` does what its turns do.** -/
theorem scan_of_turn {q : Quoting} {cs : List Char} {t : Turn} (h : turn q cs = some t) :
    scan q cs = t.effect.apply (scan t.quoting (cs.drop t.count)) := by
  cases rule_of_turn h with
  | plain q c cs hc => exact scan_of_plain hc cs
  | keep c cs he =>
    -- `scan` takes this backslash together with the next character, which stands for itself
    simp [scan, scan_of_plain (plain_double_of_not_escapable he), Effect.apply, he]
  | unescape c cs he => simp [scan, Effect.apply, he]
  | _ => simp [scan, Effect.apply]

/-- A turn takes a character at least, and only characters that are there. -/
theorem turn_count {q : Quoting} {cs : List Char} {t : Turn} (h : turn q cs = some t) :
    0 < t.count ∧ t.count ≤ cs.length := by
  cases rule_of_turn h <;> simp

/-- There is a turn wherever there is a character. -/
theorem exists_turn (q : Quoting) {cs : List Char} (h : cs ≠ []) : ∃ t, turn q cs = some t := by
  fun_cases turn q cs with
  | case1 => exact absurd rfl h
  | _ => exact ⟨_, rfl⟩

/-- **A turn does not depend on what comes after the characters it looks at.** Only at a backslash
does it look further than the character it starts at. -/
theorem turn_append {q : Quoting} {cs : List Char} {t : Turn} (h : turn q cs = some t)
    (hcs : cs ≠ ['\\']) (r : List Char) : turn q (cs ++ r) = some t := by
  cases rule_of_turn h with
  | plain q c cs hc => exact turn_of_plain hc (cs ++ r)
  | dropLast => exact absurd rfl hcs
  | keepLast => exact absurd rfl hcs
  | unescape c cs he => simp [turn, he]
  | keep c cs he => simp [turn, he]
  | _ => rfl

/-- **What holds at the end of a line and is handed back by every turn holds everywhere.** -/
theorem turnInduction {motive : Quoting → List Char → Prop} (nil : ∀ q, motive q [])
    (step : ∀ q cs t, turn q cs = some t → motive t.quoting (cs.drop t.count) → motive q cs)
    (q : Quoting) (cs : List Char) : motive q cs := by
  by_cases hcs : cs = []
  · exact hcs ▸ nil q
  · obtain ⟨t, ht⟩ := exists_turn q hcs
    have hlt : cs.length - t.count < cs.length := by
      have := turn_count ht
      omega
    exact step q cs t ht (turnInduction nil step t.quoting (cs.drop t.count))
termination_by cs.length

/-- The reader, started between the given quotes, meets the character with this number outside
quotes and not escaped. -/
inductive Meets : Quoting → List Char → Nat → Prop
  /-- It starts there, outside quotes. -/
  | here (cs : List Char) : Meets .bare cs 0
  /-- It gets there after a turn. -/
  | later {q : Quoting} {cs : List Char} {t : Turn} {i : Nat} (ht : turn q cs = some t)
      (hi : Meets t.quoting (cs.drop t.count) i) : Meets q cs (t.count + i)

theorem meets_zero_iff {q : Quoting} {cs : List Char} : Meets q cs 0 ↔ q = .bare := by
  constructor
  · intro h
    generalize hi : 0 = i at h
    cases h with
    | here => rfl
    | later ht _ =>
      have := turn_count ht
      omega
  · rintro rfl
    exact .here cs

/-- Past the first turn, what the reader meets is what it meets after that turn. -/
theorem meets_iff_of_turn {q : Quoting} {cs : List Char} {t : Turn} (ht : turn q cs = some t)
    {i : Nat} : Meets q cs i ↔
      (i = 0 ∧ q = .bare) ∨ ∃ j, i = t.count + j ∧ Meets t.quoting (cs.drop t.count) j := by
  constructor
  · intro h
    cases h with
    | here => exact .inl ⟨rfl, rfl⟩
    | @later _ _ u j hu hj =>
      obtain rfl : u = t := Option.some.inj (hu.symm.trans ht)
      exact .inr ⟨j, rfl, hj⟩
  · rintro (⟨rfl, rfl⟩ | ⟨j, rfl, hj⟩)
    · exact .here cs
    · exact .later ht hj

/-- What the reader meets from a place outside quotes on, it meets in the whole line. -/
theorem Meets.trans {q : Quoting} {cs : List Char} {i j : Nat} (hi : Meets q cs i)
    (hj : Meets .bare (cs.drop i) j) : Meets q cs (i + j) := by
  induction hi with
  | here cs => rwa [Nat.zero_add]
  | later ht _ ih =>
    rw [Nat.add_assoc]
    exact .later ht (ih (by rwa [List.drop_drop]))

/-- Right after a backslash nothing is met outside quotes and not escaped. -/
theorem not_meets_after_backslash (q : Quoting) (d : Char) (r : List Char) :
    ¬ Meets q ('\\' :: d :: r) 1 := by
  intro h
  obtain ⟨t, ht⟩ := exists_turn q (List.cons_ne_nil '\\' (d :: r))
  obtain ⟨h0, -⟩ | ⟨j, hj, hm⟩ := (meets_iff_of_turn ht).1 h
  · omega
  have hcount := turn_count ht
  obtain rfl : j = 0 := by omega
  have hbare : t.quoting = .bare := meets_zero_iff.1 hm
  cases rule_of_turn ht with
  | escape => simp at hj
  | plain _ _ _ hp =>
    obtain rfl : q = .bare := hbare
    simp [Plain] at hp
  | unescape => cases hbare
  | keep => cases hbare

/-- Before the end of a text, a turn moves the reader in the text alone. -/
theorem meets_append_iff {q : Quoting} {s : List Char} {t : Turn} (ht : turn q s = some t)
    (hs : s ≠ ['\\']) (r : List Char) :
    Meets q (s ++ r) s.length ↔
      Meets t.quoting (s.drop t.count ++ r) (s.drop t.count).length := by
  obtain ⟨hpos, hle⟩ := turn_count ht
  rw [meets_iff_of_turn (turn_append ht hs r), List.drop_append_of_le_length hle,
    List.length_drop]
  constructor
  · rintro (⟨h, -⟩ | ⟨j, hj, hm⟩)
    · omega
    · rwa [show s.length - t.count = j by omega]
  · intro hm
    exact .inr ⟨s.length - t.count, by omega, hm⟩

/-- **A line is read in two where the reader meets a character outside quotes.** A space in the
place of that character separates the words before it from those after it. -/
theorem scan_append_space {q : Quoting} {s r : List Char} (h : Meets q (s ++ r) s.length)
    (hr : r ≠ []) (b : List Char) :
    scan q (s ++ ' ' :: b) =
      ((scan q s).1, (scan q s).2 ++ (scan .bare b).1 :: (scan .bare b).2) := by
  induction q, s using turnInduction with
  | nil q =>
    obtain rfl := meets_zero_iff.1 h
    simp [scan]
  | step q s t ht ih =>
    by_cases hs : s = ['\\']
    · obtain ⟨d, r, rfl⟩ := List.exists_cons_of_ne_nil hr
      subst hs
      exact absurd h (not_meets_after_backslash q d r)
    · rw [scan_of_turn (turn_append ht hs _), scan_of_turn ht,
        List.drop_append_of_le_length (turn_count ht).2, ih ((meets_append_iff ht hs r).1 h)]
      cases t.effect <;> rfl

/-- **At a space outside quotes the words before it end.** -/
theorem split_append_space {s r : List Char} (h : Meets .bare (s ++ r) s.length) (hr : r ≠ [])
    (b : List Char) : split (s ++ ' ' :: b) = split s ++ split b := by
  simp only [split, scan_append_space h hr b]
  rw [← List.cons_append, List.filter_append]

/-- Spaces at the start of a line separate nothing. -/
theorem split_spaces_append (n : Nat) (b : List Char) :
    split (List.replicate n ' ' ++ b) = split b := by
  induction n with
  | zero => rfl
  | succ n ih =>
    rw [List.replicate_succ, List.cons_append, ← ih]
    simp [split, scan]

/-- Wherever the text starts outside quotes, it adds this much to the word under way and leaves the
reader outside quotes. -/
def Spells (x w : List Char) : Prop :=
  ∀ rest, scan .bare (x ++ rest) = (Effect.add w).apply (scan .bare rest)

theorem spells_nil : Spells [] [] := fun _ => rfl

theorem Spells.append {x y v w : List Char} (hx : Spells x v) (hy : Spells y w) :
    Spells (x ++ y) (v ++ w) := by
  intro rest
  rw [List.append_assoc, hx, hy]
  simp [Effect.apply]

theorem spells_of_plain {x : List Char} (h : ∀ c ∈ x, Plain .bare c) : Spells x x := by
  intro rest
  induction x with
  | nil => rfl
  | cons c x ih =>
    rw [List.forall_mem_cons] at h
    rw [List.cons_append, scan_of_plain h.1, ih h.2]
    rfl

/-- A text that spells a word, before a space: the word comes first, unless it is empty. -/
theorem Spells.split_space {x w : List Char} (h : Spells x w) (b : List Char) :
    split (x ++ ' ' :: b) = [w].filter (· ≠ []) ++ split b := by
  rw [split, h, split, ← List.filter_append]
  simp [scan, Effect.apply]

/-- A text that spells a word, before a text that only ends it. -/
theorem Spells.split_last {x y w u : List Char} (h : Spells x w) (hy : scan .bare y = (u, [])) :
    split (x ++ y) = [w ++ u].filter (· ≠ []) := by
  rw [split, h, hy]
  rfl

end Word
end LineShell
