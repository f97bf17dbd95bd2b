import LineShell.Proofs.Rendering

/-!
# Dividing a line again

The stages of a line, joined by bars with spaces around them, are divided into the same stages again.
This is not quite obvious, because stages are trimmed without regard to quotes. A stage may lose a
blank that was escaped and end in the backslash before it, and the last one may lose blanks behind a
quote that is never closed. The scanner has never seen such texts when it read the line.

What it finds at the end of a stage is restricted, however. Before a dividing bar it is outside
quotes, and blanks open and close none. So at the end of the trimmed stage it is outside quotes too,
or just behind a backslash, and then the space that is put there is escaped in the place of the blank
that was lost (`solid_trim_append_space`). In the last stage there is no dividing bar, and there is
none in a part of it (`scan_of_append`).
-/

namespace LineShell
namespace Stage

open Word (turn Turn turnInduction)

/-- No blank opens or closes quotes. -/
theorem quote_not_mem_of_blank {b : List Char} (hb : ∀ c ∈ b, Text.isBlank c) :
    '\'' ∉ b ∧ '"' ∉ b := by
  constructor
  · intro hmem
    exact absurd (hb _ hmem) (by decide)
  · intro hmem
    exact absurd (hb _ hmem) (by decide)

/-- A blank outside quotes is passed over. -/
theorem solid_of_blank {b : List Char} (hb : ∀ c ∈ b, Text.isBlank c) : Solid b := by
  induction b with
  | nil => exact solid_nil
  | cons c b ih =>
    rw [List.forall_mem_cons] at hb
    have hc : Solid [c] := by
      by_cases hspace : c = ' '
      · exact hspace ▸ solid_space
      · refine solid_of_plain (List.forall_mem_singleton.2 ⟨?_, ?_⟩)
        · simp only [Word.Plain, List.mem_cons, List.not_mem_nil, or_false, not_or]
          refine ⟨hspace, ?_, ?_, ?_⟩ <;> rintro rfl <;> exact absurd hb.1 (by decide)
        · rintro rfl
          exact absurd hb.1 (by decide)
    exact hc.append (ih hb.2)

/-- Before the end of a text, a turn moves the scanner in the text alone. -/
theorem scan_append_of_turn {q : Quoting} {x : List Char} {t : Turn} (ht : turn q x = some t)
    (hlast : x ≠ ['\\']) (hbar : q = .bare → x.head? ≠ some '|') (y : List Char) :
    scan q (x ++ y) = (x.take t.count ++ (scan t.quoting (x.drop t.count ++ y)).1,
      (scan t.quoting (x.drop t.count ++ y)).2) := by
  have hcount := Word.turn_count ht
  have hhead : (x ++ y).head? = x.head? := by
    obtain ⟨c, cs, rfl⟩ := List.exists_cons_of_length_pos (show 0 < x.length by omega)
    rfl
  rw [scan_of_turn (Word.turn_append ht hlast y) (hhead ▸ hbar),
    List.take_append_of_le_length hcount.2, List.drop_append_of_le_length hcount.2]

/-- Between quotes the scanner stays there as long as it meets no quote, and takes bars along. -/
theorem exists_scan_of_no_quote {q : Quoting} (hq : q ≠ .bare) {y : List Char}
    (hy : '\'' ∉ y ∧ '"' ∉ y) (r : List Char) :
    ∃ z, (scan q (y ++ '|' :: r)).1 = y ++ '|' :: z := by
  induction q, y using turnInduction with
  | nil q =>
    have hplain : Word.Plain q '|' := by cases q <;> simp [Word.Plain]
    refine ⟨(scan q r).1, ?_⟩
    rw [List.nil_append, scan_of_plain hplain fun h => absurd h hq, List.nil_append]
  | step q y t ht ih =>
    by_cases hlast : y = ['\\']
    · subst hlast
      cases q with
      | bare => exact absurd rfl hq
      | single => exact ⟨_, rfl⟩
      | double => exact ⟨_, rfl⟩
    · have hrest : '\'' ∉ y.drop t.count ∧ '"' ∉ y.drop t.count :=
        ⟨fun h => hy.1 (List.mem_of_mem_drop h), fun h => hy.2 (List.mem_of_mem_drop h)⟩
      have hquoting : t.quoting = q := by
        cases Word.rule_of_turn ht with
        | closeSingle => simp at hy
        | closeDouble => simp at hy
        | plain | unescape | keep | keepLast => rfl
        | _ => exact absurd rfl hq
      rw [hquoting] at ih
      obtain ⟨z, hz⟩ := ih hq hrest
      refine ⟨z, ?_⟩
      rw [scan_append_of_turn ht hlast fun h => absurd h hq, hquoting, hz, ← List.append_assoc,
        List.take_append_drop]

/-- Where only blanks or a backslash come before a dividing bar, there are no quotes around them. -/
theorem eq_bare_of_scan {q : Quoting} {y r : List Char} {ss : List (List Char)}
    (hy : '\'' ∉ y ∧ '"' ∉ y) (h : scan q (y ++ '|' :: r) = (y, ss)) : q = .bare := by
  by_contra hq
  obtain ⟨z, hz⟩ := exists_scan_of_no_quote hq hy r
  rw [h] at hz
  simp at hz

/-- A turn in a text without a dividing bar leaves a text without one. -/
theorem scan_drop_of_turn {q : Quoting} {x y z : List Char} {t : Turn} {ss : List (List Char)}
    (ht : turn q x = some t) (hlast : x ≠ ['\\']) (h : scan q (x ++ y) = (x ++ z, ss)) :
    (q = .bare → x.head? ≠ some '|') ∧
      scan t.quoting (x.drop t.count ++ y) = (x.drop t.count ++ z, ss) := by
  have hbar : q = .bare → x.head? ≠ some '|' := by
    rintro rfl hhead
    obtain ⟨x, rfl⟩ := List.head?_eq_some_iff.1 hhead
    rw [List.cons_append, scan_bar] at h
    cases h
  refine ⟨hbar, ?_⟩
  rw [scan_append_of_turn ht hlast hbar] at h
  obtain ⟨hfirst, hrest⟩ := Prod.mk.inj h
  refine Prod.ext ?_ hrest
  rw [← List.append_cancel_left_eq (x.take t.count), hfirst, ← List.append_assoc,
    List.take_append_drop]

/-- **A text without a dividing bar has none in a part of it.** -/
theorem scan_of_append {q : Quoting} {x y : List Char} (h : scan q (x ++ y) = (x ++ y, [])) :
    scan q x = (x, []) := by
  induction q, x using turnInduction with
  | nil q => exact scan_nil q
  | step q x t ht ih =>
    by_cases hlast : x = ['\\']
    · subst hlast
      cases q <;> rfl
    · obtain ⟨hbar, hdrop⟩ := scan_drop_of_turn ht hlast h
      rw [scan_of_turn ht hbar, ih hdrop, List.take_append_drop]

/-- The blanks before a dividing bar can be replaced by a space. -/
theorem scan_append_space {q : Quoting} {x b r : List Char} {ss : List (List Char)}
    (hb : ∀ c ∈ b, Text.isBlank c) (h : scan q (x ++ (b ++ '|' :: r)) = (x ++ b, ss))
    (rest : List Char) :
    scan q (x ++ ' ' :: rest) = (x ++ ' ' :: (scan .bare rest).1, (scan .bare rest).2) := by
  induction q, x using turnInduction with
  | nil q =>
    obtain rfl := eq_bare_of_scan (quote_not_mem_of_blank hb) h
    rfl
  | step q x t ht ih =>
    by_cases hlast : x = ['\\']
    · -- the space is escaped now, as a blank was before
      subst hlast
      have hy : '\'' ∉ '\\' :: b ∧ '"' ∉ '\\' :: b := by
        simpa using quote_not_mem_of_blank hb
      obtain rfl := eq_bare_of_scan hy h
      rfl
    · obtain ⟨hbar, hdrop⟩ := scan_drop_of_turn ht hlast h
      rw [scan_append_of_turn ht hlast hbar, ih hdrop, ← List.append_assoc, List.take_append_drop]

/-- A solid text can be left out before what is scanned. -/
theorem Solid.scan_of_append {a y z : List Char} {ss : List (List Char)} (ha : Solid a)
    (h : scan .bare (a ++ y) = (a ++ z, ss)) : scan .bare y = (z, ss) := by
  rw [ha] at h
  obtain ⟨hfirst, hrest⟩ := Prod.mk.inj h
  exact Prod.ext (List.append_cancel_left hfirst) hrest

/-- **After a trimmed stage and a space the scanner is outside quotes**, if it has been before the
bar behind the stage. -/
theorem solid_trim_append_space {s r : List Char} {ss : List (List Char)}
    (h : scan .bare (s ++ '|' :: r) = (s, ss)) : Solid (Text.trim s ++ [' ']) := by
  obtain ⟨a, b, hs, ha, hb⟩ := Text.exists_trim s
  generalize Text.trim s = x at hs ⊢
  subst hs
  rw [List.append_assoc, List.append_assoc, List.append_assoc] at h
  have hscan := (solid_of_blank ha).scan_of_append h
  intro rest
  rw [List.append_assoc, List.singleton_append, scan_append_space hb hscan, List.append_assoc,
    List.singleton_append]

/-- Trimming a stage brings no dividing bar into it. -/
theorem scan_trim {s : List Char} (h : scan .bare s = (s, [])) :
    scan .bare (Text.trim s) = (Text.trim s, []) := by
  obtain ⟨a, b, hs, ha, -⟩ := Text.exists_trim s
  generalize Text.trim s = x at hs ⊢
  subst hs
  rw [List.append_assoc] at h
  exact scan_of_append ((solid_of_blank ha).scan_of_append h)

/-- **The trimmed stages of a line can be joined and divided again.** -/
theorem joinable_segments (line : List Char) : Joinable ((segments line).map Text.trim) := by
  generalize hL : segments line = L
  induction L generalizing line with
  | nil => simp [segments_eq] at hL
  | cons s L ih =>
    cases L with
    | nil =>
      have hline : line = s := by
        rw [← intercalate_segments line, hL, List.intercalate_singleton]
      rw [segments_eq, List.cons.injEq] at hL
      exact .last (Text.trim_trim s) (scan_trim (Prod.ext (hline ▸ hL.1) (hline ▸ hL.2)))
    | cons u us =>
      obtain ⟨r, rfl, hr, -⟩ := meets_of_segments hL
      rw [segments_eq, List.cons.injEq] at hL
      exact .cons (Text.trim_trim s) (solid_trim_append_space (Prod.ext hL.1 rfl)) (ih r hr)

/-- Each of the texts is its only stage. -/
theorem Joinable.of_mem {xs : List (List Char)} (h : Joinable xs) {x : List Char} (hx : x ∈ xs) :
    Text.trim x = x ∧ scan .bare x = (x, []) := by
  induction h with
  | last htrim hscan =>
    obtain rfl := List.mem_singleton.1 hx
    exact ⟨htrim, hscan⟩
  | cons htrim hsolid _ ih =>
    rcases List.mem_cons.1 hx with rfl | hx
    · refine ⟨htrim, scan_of_append (y := [' ']) ?_⟩
      have hscan := hsolid []
      rwa [List.append_nil, scan_nil, List.append_nil] at hscan
    · exact ih hx

/-- **Stages stay as they are.** A line has at least one stage. A stage neither starts nor ends blank
and is its own only stage. The stages joined by bars, with a space on either side, are divided into
these stages again. -/
theorem stages_stay (line : String) :
    ofLine line ≠ [] ∧
      (∀ s ∈ ofLine line, (∀ c ∈ s.toList.head?, ¬ Text.isBlank c) ∧
        (∀ c ∈ s.toList.getLast?, ¬ Text.isBlank c) ∧ ofLine s = [s]) ∧
      ofLine (" | ".intercalate (ofLine line)) = ofLine line := by
  have hjoinable : Joinable ((ofLine line).map String.toList) := by
    have hmap : (ofLine line).map String.toList = (segments line.toList).map Text.trim := by
      simp [ofLine]
    rw [hmap]
    exact joinable_segments line.toList
  refine ⟨ofLine_ne_nil line, fun s hs => ?_, ofLine_intercalate hjoinable⟩
  obtain ⟨htrim, hscan⟩ := hjoinable.of_mem (List.mem_map_of_mem hs)
  refine ⟨fun c hc => ?_, fun c hc => ?_, ?_⟩
  · exact Text.not_isBlank_of_head?_trim (htrim.symm ▸ hc)
  · exact Text.not_isBlank_of_getLast?_trim (htrim.symm ▸ hc)
  · rw [ofLine, segments_eq, hscan, List.map_singleton, htrim, String.ofList_toList]

/-- A stage that loses its escaped blank, an empty one, and a quote that is never closed. -/
example : ofLine "a\\ || 'b| " = ["a\\", "", "'b|"] ∧
    ofLine "a\\ |  | 'b|" = ["a\\", "", "'b|"] := by decide

end Stage
end LineShell
