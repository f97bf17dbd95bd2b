/-!
# Blank characters

A character is *blank* when it has the Unicode property White_Space. Stages and startup lines are
trimmed of blanks at both ends, and a text is blank when it holds nothing else.

| code points   | characters                               |
|---------------|------------------------------------------|
| 0009 to 000D  | tab, line feed, vertical tab, form feed, carriage return |
| 0020          | space                                    |
| 0085, 00A0    | next line, no-break space                |
| 1680          | Ogham space mark                         |
| 2000 to 200A  | the typographic spaces                   |
| 2028, 2029    | line separator, paragraph separator      |
| 202F, 205F    | narrow no-break and mathematical space   |
| 3000          | ideographic space                        |

`trim_eq_nil_iff` says that trimming leaves nothing exactly when a text is blank.
-/

namespace LineShell
namespace Text

/-- The ranges of code points with the property White_Space, both ends included. -/
def blankRanges : List (Nat × Nat) :=
  [(0x09, 0x0D), (0x20, 0x20), (0x85, 0x85), (0xA0, 0xA0), (0x1680, 0x1680), (0x2000, 0x200A),
    (0x2028, 0x2029), (0x202F, 0x202F), (0x205F, 0x205F), (0x3000, 0x3000)]

/-- Whether a character has the property White_Space. -/
def isBlank (c : Char) : Bool :=
  blankRanges.any fun r => decide (r.1 ≤ c.toNat) && decide (c.toNat ≤ r.2)

/-- The text without its leading blanks. -/
def trimStart (cs : List Char) : List Char :=
  cs.dropWhile isBlank

/-- The text without its trailing blanks. -/
def trimEnd : List Char → List Char
  | [] => []
  | c :: cs =>
    match trimEnd cs with
    | [] => if isBlank c then [] else [c]
    | r :: rs => c :: r :: rs

/-- The text without the blanks at its two ends. -/
def trim (cs : List Char) : List Char :=
  trimEnd (trimStart cs)

/-- Whether a string holds nothing but blanks. -/
def blank (s : String) : Bool :=
  s.toList.all isBlank

/-- Trailing blanks are all there is exactly in a blank text. -/
theorem trimEnd_eq_nil_iff {cs : List Char} : trimEnd cs = [] ↔ ∀ c ∈ cs, isBlank c := by
  induction cs with
  | nil => simp [trimEnd]
  | cons c cs ih =>
    rw [trimEnd]
    split
    next h => simpa using fun _ => ih.1 h
    next r rs h =>
      have : ¬ ∀ c ∈ cs, isBlank c = true := fun hb => by simp [ih.2 hb] at h
      simp [this]

/-- **Trimming leaves nothing exactly of a blank text.** -/
theorem trim_eq_nil_iff {cs : List Char} : trim cs = [] ↔ ∀ c ∈ cs, isBlank c := by
  rw [trim, trimEnd_eq_nil_iff, trimStart]
  induction cs with
  | nil => simp
  | cons c cs ih => by_cases h : isBlank c <;> simp [h, ih]

end Text
end LineShell
