import LineShell.Line
import LineShell.Proofs.Blanks
import LineShell.Proofs.Segments

/-!
# When trimming a stage changes its words

A stage is trimmed before it is cut into words, and trimming does not look at quotes. Spaces at the
start of a stage are always separators, so nothing is lost there. The spaces at its end are
separators only as far as the reader of words meets them outside quotes and not escaped
(`EndsInSeparators`). A space after a backslash, or behind a quote that is never closed, belongs to
a word, and trimming takes it away: `echo a\ ` runs with the word `a` in place of `a` and a space
(`words_changed_by_trimming`).

`words_of_stages_iff` says that this is the only way in which trimming changes words: in a line
whose only blanks are spaces, a stage keeps its words exactly when it ends in separators. The
difference is seen by counting characters: a space that belongs to a word makes the words of the
whole stage longer than those of the trimmed one (`length_letters_lt`).
-/

namespace LineShell
namespace Word

/-- All spaces that a text ends in separate words: the reader meets each of them outside quotes and
not escaped. -/
def EndsInSeparators (s : List Char) : Prop :=
  ∀ i < s.length, (∀ c ∈ s.drop i, c = ' ') → Meets .bare s i

/-- All characters of a reading, words put together. -/
def letters (r : Reading) : List Char :=
  r.1 ++ r.2.flatten

theorem flatten_split (s : List Char) : (split s).flatten = letters (scan .bare s) := by
  rw [split, List.flatten_filter_ne_nil]
  rfl

/-- A turn adds as many characters to any two readings. -/
theorem length_letters_apply_lt (e : Effect) {r r' : Reading}
    (h : (letters r).length < (letters r').length) :
    (letters (e.apply r)).length < (letters (e.apply r')).length := by
  cases e with
  | cut => simpa [Effect.apply, letters] using h
  | add cs => simpa [Effect.apply, letters, Nat.add_assoc] using h

/-- Between quotes spaces stand for themselves. -/
theorem scan_spaces_of_ne_bare {q : Quoting} (hq : q ≠ .bare) (n : Nat) :
    scan q (List.replicate n ' ') = (List.replicate n ' ', []) := by
  induction n with
  | zero => cases q <;> rfl
  | succ n ih =>
    have hplain : Plain q ' ' := by cases q <;> simp_all [Plain]
    rw [List.replicate_succ, scan_of_plain hplain, ih]
    rfl

/-- **A space at the end that separates nothing makes the words longer.** -/
theorem length_letters_lt {q : Quoting} {t : List Char} {n : Nat}
    (h : ¬ Meets q (t ++ List.replicate (n + 1) ' ') t.length) :
    (letters (scan q t)).length < (letters (scan q (t ++ List.replicate (n + 1) ' '))).length := by
  induction q, t using turnInduction with
  | nil q =>
    have hq : q ≠ .bare := fun hq => h (meets_zero_iff.2 hq)
    rw [List.nil_append, scan_spaces_of_ne_bare hq]
    cases q <;> simp [scan, letters]
  | step q t u hu ih =>
    by_cases ht : t = ['\\']
    · -- the first of the spaces is escaped, or all of them stand behind a quote
      subst ht
      cases q with
      | bare => simp [scan, letters, List.replicate_succ]
      | single =>
        rw [List.singleton_append, scan_of_plain (by simp [Plain]), scan_of_plain (by simp [Plain]),
          scan_spaces_of_ne_bare (by simp)]
        simp [scan, letters, Effect.apply]
      | double =>
        have he : escapable ' ' = false := by decide
        simp [scan, letters, List.replicate_succ, he]
    · rw [scan_of_turn (turn_append hu ht _), scan_of_turn hu,
        List.drop_append_of_le_length (turn_count hu).2]
      exact length_letters_apply_lt u.effect (ih fun hm => h ((meets_append_iff hu ht _).2 hm))

/-- **Spaces at the end of a text change its words unless they are separators.** -/
theorem split_append_spaces_iff {t : List Char} {n : Nat} :
    split (t ++ List.replicate (n + 1) ' ') = split t ↔
      Meets .bare (t ++ List.replicate (n + 1) ' ') t.length := by
  constructor
  · intro h
    by_contra hm
    have hlt := length_letters_lt hm
    rw [← flatten_split, ← flatten_split, h] at hlt
    omega
  · intro hm
    have hnil : split (List.replicate n ' ') = [] := by
      rw [← List.append_nil (List.replicate n ' '), split_spaces_append]
      rfl
    rw [List.replicate_succ] at hm ⊢
    rw [split_append_space hm (List.cons_ne_nil _ _), hnil, List.append_nil]

theorem meets_spaces {n j : Nat} (h : j ≤ n) : Meets .bare (List.replicate n ' ') j := by
  induction j generalizing n with
  | zero => exact .here _
  | succ j ih =>
    obtain ⟨n, rfl⟩ := Nat.exists_eq_add_of_le' (Nat.le_trans (Nat.le_add_left 1 j) h)
    rw [Nat.add_comm j, List.replicate_succ]
    exact .later (t := ⟨.cut, .bare, 1⟩) rfl (ih (by omega))

/-- The spaces at the end of a text start after its last other character. -/
theorem length_le_of_spaces {t r : List Char} {i : Nat} (ht : t.getLast? ≠ some ' ')
    (h : ∀ c ∈ (t ++ r).drop i, c = ' ') : t.length ≤ i := by
  rcases List.eq_nil_or_concat t with rfl | ⟨a, d, rfl⟩
  · exact Nat.zero_le i
  · rw [List.concat_eq_append] at *
    by_contra hi
    rw [List.length_append, List.length_singleton] at hi
    have hd : d ∈ (a ++ [d] ++ r).drop i := by
      rw [List.append_assoc, List.drop_append_of_le_length (by omega)]
      simp
    exact ht (by rw [List.getLast?_concat, h d hd])

/-- It is enough that the first of the spaces at the end is a separator. -/
theorem endsInSeparators_iff {t : List Char} {n : Nat} (ht : t.getLast? ≠ some ' ') :
    EndsInSeparators (t ++ List.replicate n ' ') ↔
      n = 0 ∨ Meets .bare (t ++ List.replicate n ' ') t.length := by
  constructor
  · intro h
    rcases Nat.eq_zero_or_pos n with hn | hn
    · exact .inl hn
    · exact .inr (h t.length (by simpa using hn) (by simp))
  · intro h i hi hspaces
    have hle := length_le_of_spaces ht hspaces
    rw [List.length_append, List.length_replicate] at hi
    obtain ⟨j, rfl⟩ := Nat.exists_eq_add_of_le hle
    have hm : Meets .bare (t ++ List.replicate n ' ') t.length := h.resolve_left (by omega)
    refine hm.trans ?_
    rw [List.drop_left]
    exact meets_spaces (by omega)

theorem eq_replicate_of_blank {b : List Char} (h : ∀ c ∈ b, Text.isBlank c → c = ' ')
    (hb : ∀ c ∈ b, Text.isBlank c) : b = List.replicate b.length ' ' :=
  List.eq_replicate_iff.2 ⟨rfl, fun c hc => h c hc (hb c hc)⟩

/-- The spaces at the start of a text are separators, so taking them away changes no words. -/
theorem split_trim {s : List Char} (hs : ∀ c ∈ s, Text.isBlank c → c = ' ') :
    split (Text.trim s) = split (Text.trimEnd s) := by
  obtain ⟨a, hsa, ha⟩ := Text.exists_trimStart s
  have hrep : a = List.replicate a.length ' ' :=
    eq_replicate_of_blank (fun c hc => hs c (by rw [hsa]; exact List.mem_append_left _ hc)) ha
  rw [Text.trim]
  by_cases h : Text.trimEnd (Text.trimStart s) = []
  · have hend : Text.trimEnd s = [] := by
      rw [hsa, Text.trimEnd_append_of_blank a (Text.trimEnd_eq_nil_iff.1 h)]
      exact Text.trimEnd_eq_nil_iff.2 ha
    rw [h, hend]
  · have hend : Text.trimEnd s = a ++ Text.trimEnd (Text.trimStart s) := by
      conv => lhs; rw [hsa, Text.trimEnd_append a h]
    rw [hend, hrep, split_spaces_append]

/-- **Trimming keeps the words of a text exactly when the text ends in separators.** -/
theorem split_trim_eq_iff {s : List Char} (hs : ∀ c ∈ s, Text.isBlank c → c = ' ') :
    split (Text.trim s) = split s ↔ EndsInSeparators s := by
  obtain ⟨b, hsb, hb⟩ := Text.exists_trimEnd s
  have hrep : b = List.replicate b.length ' ' :=
    eq_replicate_of_blank (fun c hc => hs c (by rw [hsb]; exact List.mem_append_right _ hc)) hb
  have hlast : (Text.trimEnd s).getLast? ≠ some ' ' := by
    intro h
    obtain ⟨a, ha⟩ := List.getLast?_eq_some_iff.1 h
    exact Text.not_isBlank_of_trimEnd ha (by decide)
  rw [split_trim hs]
  generalize Text.trimEnd s = t at *
  rw [hrep] at hsb
  rw [hsb, endsInSeparators_iff hlast, eq_comm]
  cases b.length with
  | zero => simp
  | succ n => rw [split_append_spaces_iff, or_iff_right (Nat.succ_ne_zero n)]

theorem ofLine_eq_ofLine_iff {a b : String} :
    ofLine a = ofLine b ↔ split a.toList = split b.toList :=
  (List.map_injective_iff.2 fun _ _ => String.ofList_inj.1).eq_iff

end Word

namespace Stage

theorem mem_intercalate {sep s : List Char} {L : List (List Char)} {c : Char} (hs : s ∈ L)
    (hc : c ∈ s) : c ∈ List.intercalate sep L := by
  induction L with
  | nil => exact absurd hs List.not_mem_nil
  | cons u us ih =>
    cases us with
    | nil =>
      obtain rfl := List.mem_singleton.1 hs
      rwa [List.intercalate_singleton]
    | cons v vs =>
      rw [List.intercalate_cons_cons, List.mem_append, List.mem_append]
      rcases List.mem_cons.1 hs with rfl | hs
      · exact .inl (.inl hc)
      · exact .inr (ih hs)

/-- The characters of a stage are characters of the line. -/
theorem mem_of_mem_segments {line s : List Char} {c : Char} (hs : s ∈ segments line)
    (hc : c ∈ s) : c ∈ line :=
  intercalate_segments line ▸ mem_intercalate hs hc

/-- A line without a dividing bar is its only stage. -/
theorem segments_eq_singleton {cs : List Char}
    (h : ∀ i, cs[i]? = some '|' → ¬ Word.Meets .bare cs i) : segments cs = [cs] := by
  cases hL : segments cs with
  | nil => simp [segments_eq] at hL
  | cons s us =>
    cases us with
    | nil => rw [← intercalate_segments cs, hL, List.intercalate_singleton]
    | cons u us =>
      obtain ⟨b, rfl, -, hm⟩ := meets_of_segments hL
      exact absurd hm (h s.length (by simp))

end Stage

namespace Line

/-- Runs the command that a list of words spells. No words do nothing. -/
def runWords {σ : Type} [Host σ] (ws : List String) (st : State) (s : σ) : Flow × State × σ :=
  match Invocation.ofWords? ws with
  | none => (.proceed, st, s)
  | some inv => inv.run st s

theorem run_eq_runWords {σ : Type} [Host σ] {line stage : String} (h : Stage.ofLine line = [stage])
    (st : State) (s : σ) : run line st s = runWords (Word.ofLine stage) st s := by
  rw [run, h]
  rfl

/-- **Trimming keeps the words of a stage exactly when the stage ends in separators.** In a line
whose only blanks are spaces this holds for every stage. In particular, a line without a dividing
bar runs with its own words exactly when it ends in separators. -/
theorem words_of_stages_iff (line : String)
    (hline : ∀ c ∈ line.toList, Text.isBlank c → c = ' ') :
    (∀ (k : Nat) (s : List Char), (Stage.segments line.toList)[k]? = some s →
      ∃ stage, (Stage.ofLine line)[k]? = some stage ∧
        (Word.ofLine stage = Word.ofLine (String.ofList s) ↔ Word.EndsInSeparators s)) ∧
    ((∀ i : Nat, line.toList[i]? = some '|' → ¬ Word.Meets .bare line.toList i) →
      ∃ stage, Stage.ofLine line = [stage] ∧
        (∀ {σ : Type} [Host σ] (st : State) (s : σ),
          run line st s = runWords (Word.ofLine stage) st s) ∧
        (Word.ofLine stage = Word.ofLine line ↔ Word.EndsInSeparators line.toList)) := by
  constructor
  · intro k s hk
    have hs : ∀ c ∈ s, Text.isBlank c → c = ' ' := fun c hc =>
      hline c (Stage.mem_of_mem_segments (List.mem_of_getElem? hk) hc)
    refine ⟨String.ofList (Text.trim s), by rw [Stage.ofLine, List.getElem?_map, hk]; rfl, ?_⟩
    rw [Word.ofLine_eq_ofLine_iff, String.toList_ofList, String.toList_ofList,
      Word.split_trim_eq_iff hs]
  · intro hno
    have hone : Stage.ofLine line = [String.ofList (Text.trim line.toList)] := by
      rw [Stage.ofLine, Stage.segments_eq_singleton hno, List.map_singleton]
    refine ⟨_, hone, fun st s => run_eq_runWords hone st s, ?_⟩
    rw [Word.ofLine_eq_ofLine_iff, String.toList_ofList, Word.split_trim_eq_iff hline]

/-- A quote that is closed before the spaces at the end lets them be separators. -/
theorem words_of_closed_quote :
    (∀ c ∈ "echo 'a ' ".toList, Text.isBlank c → c = ' ') ∧
      (∀ i : Nat, "echo 'a ' ".toList[i]? = some '|' →
        ¬ Word.Meets .bare "echo 'a ' ".toList i) ∧
      Word.EndsInSeparators "echo 'a ' ".toList := by
  have hblank : ∀ c ∈ "echo 'a ' ".toList, Text.isBlank c → c = ' ' := by
    simp [Text.isBlank, Text.blankRanges]
  have hbar : ∀ i : Nat, "echo 'a ' ".toList[i]? = some '|' →
      ¬ Word.Meets .bare "echo 'a ' ".toList i := fun i hi =>
    absurd (List.mem_of_getElem? hi) (by decide)
  obtain ⟨stage, hstage, -, hiff⟩ := (words_of_stages_iff _ hblank).2 hbar
  obtain rfl : "echo 'a '" = stage := by
    have : Stage.ofLine "echo 'a ' " = ["echo 'a '"] := by decide
    exact List.head_eq_of_cons_eq (this.symm.trans hstage)
  exact ⟨hblank, hbar, hiff.1 (by decide)⟩

/-- **Trimming changes the words of a line that ends in an escaped space.** The words of the line
are `echo` and `a` with a space, and the words that are run are `echo` and `a`. -/
theorem words_changed_by_trimming :
    (∀ c ∈ "echo a\\ ".toList, Text.isBlank c → c = ' ') ∧
      Stage.segments "echo a\\ ".toList = ["echo a\\ ".toList] ∧
      Word.ofLine "echo a\\ " = ["echo", "a "] ∧
      Stage.ofLine "echo a\\ " = ["echo a\\"] ∧ Word.ofLine "echo a\\" = ["echo", "a"] := by
  refine ⟨?_, by decide, by decide, by decide, by decide⟩
  simp [Text.isBlank, Text.blankRanges]

end Line
end LineShell
