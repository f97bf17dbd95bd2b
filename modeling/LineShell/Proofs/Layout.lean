import LineShell.Proofs.Turns

/-!
# The grammar of a line

A line is made of runs of pieces, with spaces between them. A piece is one of these:

| piece                         | stands for                           |
|-------------------------------|--------------------------------------|
| a character that is no space, backslash or quote | itself            |
| a backslash and a character   | the character                        |
| text between single quotes    | the text, which holds no single quote |
| items between double quotes   | what the items stand for             |

Between double quotes an item is a character that is no double quote and no backslash, a backslash
and an escapable character, which stand for the character, or a backslash and any other character,
which stand for both. At the very end of the line a piece may be unfinished: quotes may lack their
end, with a backslash alone as the last thing between double quotes, and outside quotes a backslash
may stand alone, for nothing.

`Layout` is this grammar as data: how a line is made of pieces (`spelling`) and which words it has
(`words`). Every line has a layout (`Layout.exists_spelling_eq`), and the reader of words gives the
words of the layout, whichever it is (`Layout.split_spelling`). Together they are
`ofLine_eq_iff_layout`: the words of a line are the words of its layouts, and nothing else.
-/

namespace LineShell
namespace Word

/-- The characters that a backslash escapes between double quotes. -/
def escapes : List Char := ['"', '\\', '$', '\x60', '\n']

theorem escapable_iff {c : Char} : escapable c = true ↔ c ∈ escapes := by
  simp [escapable, escapes, or_assoc]

/-- A part of what stands between double quotes. -/
inductive Item where
  /-- A character that stands for itself. -/
  | plain (c : Char) (h : c ∉ ['"', '\\'])
  /-- An escaped character. -/
  | escaped (c : Char) (h : c ∈ escapes)
  /-- A backslash that escapes nothing, and the character after it. -/
  | kept (c : Char) (h : c ∉ escapes)

namespace Item

/-- The item as it is typed. -/
def spelling : Item → List Char
  | .plain c _ => [c]
  | .escaped c _ => ['\\', c]
  | .kept c _ => ['\\', c]

/-- What the item stands for. -/
def value : Item → List Char
  | .plain c _ => [c]
  | .escaped c _ => [c]
  | .kept c _ => ['\\', c]

end Item

/-- A part of a word. -/
inductive Piece where
  /-- A character that stands for itself. -/
  | plain (c : Char) (h : c ∉ [' ', '\\', '\'', '"'])
  /-- A backslash and the character after it. -/
  | escaped (c : Char)
  /-- Text between single quotes. -/
  | single (text : List Char) (h : '\'' ∉ text)
  /-- Items between double quotes. -/
  | double (items : List Item)

namespace Piece

/-- The piece as it is typed. -/
def spelling : Piece → List Char
  | .plain c _ => [c]
  | .escaped c => ['\\', c]
  | .single text _ => '\'' :: (text ++ ['\''])
  | .double items => '"' :: (items.flatMap Item.spelling ++ ['"'])

/-- What the piece stands for. -/
def value : Piece → List Char
  | .plain c _ => [c]
  | .escaped c => [c]
  | .single text _ => text
  | .double items => items.flatMap Item.value

end Piece

/-- A piece that the end of the line cuts off. -/
inductive Unfinished where
  /-- Single quotes without their end. -/
  | single (text : List Char) (h : '\'' ∉ text)
  /-- Double quotes without their end, and whether the last thing in them is a backslash alone. -/
  | double (items : List Item) (backslash : Bool)
  /-- A backslash alone outside quotes. -/
  | backslash

namespace Unfinished

/-- The unfinished piece as it is typed. -/
def spelling : Unfinished → List Char
  | .single text _ => '\'' :: text
  | .double items b => '"' :: (items.flatMap Item.spelling ++ if b then ['\\'] else [])
  | .backslash => ['\\']

/-- What the unfinished piece stands for. -/
def value : Unfinished → List Char
  | .single text _ => text
  | .double items b => items.flatMap Item.value ++ if b then ['\\'] else []
  | .backslash => []

end Unfinished

/-- A run of pieces and the spaces after it. -/
structure SpacedRun where
  /-- The pieces. -/
  pieces : List Piece
  /-- There is at least one. -/
  pieces_ne_nil : pieces ≠ []
  /-- The number of spaces. -/
  gap : Nat
  /-- There is at least one. -/
  gap_pos : 0 < gap

namespace SpacedRun

/-- The run and its spaces as they are typed. -/
def spelling (r : SpacedRun) : List Char :=
  r.pieces.flatMap Piece.spelling ++ List.replicate r.gap ' '

/-- What the run stands for. -/
def value (r : SpacedRun) : List Char :=
  r.pieces.flatMap Piece.value

end SpacedRun

/-- How a line is made: spaces, runs with spaces after them, and a run up to the end of the line.
There is no such last run when `last` is empty and nothing is unfinished. -/
structure Layout where
  /-- The number of spaces at the start. -/
  indent : Nat
  /-- The runs with spaces after them. -/
  runs : List SpacedRun
  /-- The finished pieces of the last run. -/
  last : List Piece
  /-- The unfinished piece at the end of the last run. -/
  unfinished : Option Unfinished

namespace Layout

/-- The line. -/
def spelling (d : Layout) : List Char :=
  List.replicate d.indent ' ' ++ (d.runs.flatMap SpacedRun.spelling ++
    (d.last.flatMap Piece.spelling ++ d.unfinished.elim [] Unfinished.spelling))

/-- What the runs stand for, as far as it is not empty. -/
def words (d : Layout) : List (List Char) :=
  (d.runs.map SpacedRun.value ++
    [d.last.flatMap Piece.value ++ d.unfinished.elim [] Unfinished.value]).filter (· ≠ [])

end Layout

/-! ### Reading what is spelled -/

/-- Items are read between double quotes one by one, whatever comes after them. -/
theorem scan_items (items : List Item) (rest : List Char) :
    scan .double (items.flatMap Item.spelling ++ rest) =
      (Effect.add (items.flatMap Item.value)).apply (scan .double rest) := by
  induction items with
  | nil => rfl
  | cons item items ih =>
    rw [List.flatMap_cons, List.flatMap_cons, List.append_assoc]
    cases item with
    | plain c h =>
      have hplain : Plain .double c := by simpa [Plain] using h
      rw [Item.spelling, List.singleton_append, scan_of_plain hplain, ih]
      rfl
    | escaped c h =>
      have he := escapable_iff.2 h
      simp [Item.spelling, Item.value, scan, ih, he, Effect.apply]
    | kept c h =>
      have he : escapable c = false := by simpa using mt escapable_iff.1 h
      simp [Item.spelling, Item.value, scan, ih, he, Effect.apply]

/-- Between single quotes text is read as it is up to the next quote. -/
theorem scan_text {text : List Char} (h : '\'' ∉ text) (rest : List Char) :
    scan .single (text ++ rest) = (Effect.add text).apply (scan .single rest) := by
  induction text with
  | nil => rfl
  | cons c text ih =>
    rw [List.mem_cons, not_or] at h
    have hplain : Plain .single c := fun hc => h.1 hc.symm
    rw [List.cons_append, scan_of_plain hplain, ih h.2]
    rfl

theorem Piece.spells (p : Piece) : Spells p.spelling p.value := by
  intro rest
  cases p with
  | plain c h => exact scan_of_plain (show Plain .bare c from h) rest
  | escaped c => simp [spelling, value, scan, Effect.apply]
  | single text h =>
    rw [spelling, List.cons_append, List.append_assoc, List.singleton_append, scan, scan_text h,
      scan]
    rfl
  | double items =>
    rw [spelling, List.cons_append, List.append_assoc, List.singleton_append, scan, scan_items,
      scan]
    rfl

theorem spells_pieces (ps : List Piece) :
    Spells (ps.flatMap Piece.spelling) (ps.flatMap Piece.value) := by
  induction ps with
  | nil => exact spells_nil
  | cons p ps ih => exact p.spells.append ih

theorem Unfinished.scan_spelling (u : Unfinished) : scan .bare u.spelling = (u.value, []) := by
  cases u with
  | single text h =>
    have htext := scan_text h []
    rw [List.append_nil] at htext
    rw [spelling, scan, htext]
    simp [Effect.apply, scan, value]
  | double items b =>
    rw [spelling, scan, scan_items]
    cases b <;> rfl
  | backslash => rfl

theorem SpacedRun.split_spelling (r : SpacedRun) (b : List Char) :
    split (r.spelling ++ b) = [r.value].filter (· ≠ []) ++ split b := by
  obtain ⟨n, hn⟩ := Nat.exists_eq_add_of_lt r.gap_pos
  rw [spelling, hn, Nat.zero_add, List.replicate_succ, List.append_assoc, List.cons_append,
    (spells_pieces r.pieces).split_space, split_spaces_append]
  rfl

/-- **The reader of words gives the words of every layout.** -/
theorem Layout.split_spelling (d : Layout) : split d.spelling = d.words := by
  have hend : scan .bare (d.unfinished.elim [] Unfinished.spelling) =
      (d.unfinished.elim [] Unfinished.value, []) := by
    cases d.unfinished with
    | none => rfl
    | some u => exact u.scan_spelling
  rw [spelling, words, split_spaces_append, List.filter_append,
    ← (spells_pieces d.last).split_last hend]
  induction d.runs with
  | nil => rfl
  | cons r rs ih =>
    rw [List.flatMap_cons, List.append_assoc, r.split_spelling, ih, ← List.append_assoc,
      ← List.filter_append]
    rfl

/-! ### Every line is spelled -/

/-- What stands after a double quote is items up to the next quote or up to the end. -/
theorem exists_items (cs : List Char) :
    ∃ (items : List Item) (rest : List Char), cs = items.flatMap Item.spelling ++ rest ∧
      (rest = [] ∨ rest = ['\\'] ∨ ∃ r, rest = '"' :: r) := by
  induction hn : cs.length using Nat.strongRecOn generalizing cs with
  | ind n ih =>
    subst hn
    rcases cs with _ | ⟨c, cs⟩
    · exact ⟨[], [], rfl, .inl rfl⟩
    by_cases hq : c = '"'
    · exact ⟨[], c :: cs, rfl, .inr (.inr ⟨cs, by rw [hq]⟩)⟩
    by_cases hb : c = '\\'
    · subst hb
      rcases cs with _ | ⟨d, cs⟩
      · exact ⟨[], ['\\'], rfl, .inr (.inl rfl)⟩
      have hlt : cs.length < ('\\' :: d :: cs).length := by
        rw [List.length_cons, List.length_cons]
        omega
      obtain ⟨items, rest, hcs, hrest⟩ := ih cs.length hlt cs rfl
      by_cases hd : d ∈ escapes
      · exact ⟨.escaped d hd :: items, rest, by simp [hcs, Item.spelling], hrest⟩
      · exact ⟨.kept d hd :: items, rest, by simp [hcs, Item.spelling], hrest⟩
    · obtain ⟨items, rest, hcs, hrest⟩ := ih cs.length (by simp) cs rfl
      exact ⟨.plain c (by simp [hq, hb]) :: items, rest, by simp [hcs, Item.spelling], hrest⟩

namespace Layout

/-- The layout of nothing but an unfinished piece. -/
def ofUnfinished (u : Option Unfinished) : Layout := ⟨0, [], [], u⟩

/-- The layout with one more piece at its start. -/
def cons (p : Piece) : Layout → Layout
  | ⟨0, [], last, u⟩ => ⟨0, [], p :: last, u⟩
  | ⟨0, r :: rs, last, u⟩ =>
    ⟨0, { r with pieces := p :: r.pieces, pieces_ne_nil := List.cons_ne_nil _ _ } :: rs, last, u⟩
  | ⟨n + 1, rs, last, u⟩ => ⟨0, ⟨[p], List.cons_ne_nil _ _, n + 1, n.succ_pos⟩ :: rs, last, u⟩

theorem spelling_cons (p : Piece) (d : Layout) :
    (cons p d).spelling = p.spelling ++ d.spelling := by
  rcases d with ⟨_ | n, _ | ⟨r, rs⟩, last, u⟩ <;> simp [cons, spelling, SpacedRun.spelling]

/-- **Every line has a layout.** The induction is on the length of the line, because a quoted piece
takes many characters at once. -/
theorem exists_spelling_eq (cs : List Char) : ∃ d : Layout, d.spelling = cs := by
  induction hn : cs.length using Nat.strongRecOn generalizing cs with
  | ind n ih =>
    subst hn
    rcases cs with _ | ⟨c, cs⟩
    · exact ⟨ofUnfinished none, rfl⟩
    have hpiece : ∀ (p : Piece) (rest : List Char), c :: cs = p.spelling ++ rest →
        rest.length < (c :: cs).length → ∃ d : Layout, d.spelling = c :: cs := by
      intro p rest h hlt
      obtain ⟨d, hd⟩ := ih rest.length hlt rest rfl
      exact ⟨cons p d, by rw [spelling_cons, hd, h]⟩
    by_cases hplain : c ∉ [' ', '\\', '\'', '"']
    · exact hpiece (.plain c hplain) cs rfl (by simp)
    simp only [List.mem_cons, List.not_mem_nil, or_false, not_not] at hplain
    rcases hplain with rfl | rfl | rfl | rfl
    · obtain ⟨d, hd⟩ := ih cs.length (by simp) cs rfl
      exact ⟨{ d with indent := d.indent + 1 }, by
        rw [← hd, spelling, List.replicate_succ, List.cons_append]; rfl⟩
    · rcases cs with _ | ⟨c, cs⟩
      · exact ⟨ofUnfinished (some .backslash), rfl⟩
      · exact hpiece (.escaped c) cs rfl (by rw [List.length_cons, List.length_cons]; omega)
    · by_cases hq : '\'' ∈ cs
      · obtain ⟨text, rest, rfl, htext⟩ := List.eq_append_cons_of_mem hq
        exact hpiece (.single text htext) rest (by simp [Piece.spelling]) (by simp; omega)
      · exact ⟨ofUnfinished (some (.single cs hq)), rfl⟩
    · obtain ⟨items, rest, rfl, rfl | rfl | ⟨r, rfl⟩⟩ := exists_items cs
      · exact ⟨ofUnfinished (some (.double items false)), rfl⟩
      · exact ⟨ofUnfinished (some (.double items true)), rfl⟩
      · exact hpiece (.double items) r (by simp [Piece.spelling]) (by simp; omega)

end Layout

/-- **The words of a line are those its grammar gives it.** Every line is made of runs of pieces
with spaces between them, and its words are, in order, what the runs stand for, the empty ones left
out; no other way to divide the line into pieces gives other words. -/
theorem ofLine_eq_iff_layout (line : String) (ws : List String) :
    ofLine line = ws ↔
      ∃ d : Layout, d.spelling = line.toList ∧ d.words.map String.ofList = ws := by
  constructor
  · rintro rfl
    obtain ⟨d, hd⟩ := Layout.exists_spelling_eq line.toList
    exact ⟨d, hd, by rw [ofLine, ← hd, d.split_spelling]⟩
  · rintro ⟨d, hd, rfl⟩
    rw [ofLine, ← hd, d.split_spelling]

end Word
end LineShell
