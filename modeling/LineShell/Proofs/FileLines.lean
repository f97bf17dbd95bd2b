import LineShell.HistoryFile
import Mathlib.Data.List.Infix

/-!
# The lines of a file and the entries they hold

A line feed is never a part of another character, so a file is text exactly if each of its lines is
(`isSome_text?_iff`), and a history file can be read exactly if it is text (`isSome_ofBytes?`).

What is appended to a file joins the lines of the file in one of two ways. If the file is empty or
ends in a line feed (`Finished`), its lines stay as they are and the new ones come after them.
Otherwise the first new line continues the last line of the file. So a file to which entries are
appended holds the entries it held and the new ones exactly if it was finished or there are no new
ones (`ofBytes?_append_toBytes`).
-/

namespace LineShell
namespace Bytes

/-- The encoding of a text is that of its characters, one after the other. -/
theorem ofText_eq_flatMap (s : String) : ofText s = s.toList.flatMap String.utf8EncodeChar := by
  have h : s.toUTF8 = s.toList.utf8Encode := String.utf8Encode_toList.symm
  rw [ofText, h, List.utf8Encode, List.data_toByteArray]

/-- Bytes are the text whose encoding they are. -/
theorem text?_eq_some_iff {b : Bytes} {s : String} : text? b = some s ↔ b = ofText s := by
  refine ⟨fun h => ?_, fun h => h ▸ text?_ofText s⟩
  rw [text?, String.fromUTF8?] at h
  split_ifs at h with hv
  obtain rfl := Option.some.inj h
  rfl

theorem isSome_text?_iff_exists {b : Bytes} : (text? b).isSome ↔ ∃ s, b = ofText s := by
  simp only [Option.isSome_iff_exists, text?_eq_some_iff]

/-- **A byte below 128 is a character of its own.** -/
theorem eq_of_mem_utf8EncodeChar {c : Char} {x : UInt8} (h : x ∈ String.utf8EncodeChar c)
    (hx : x.toNat < 128) : String.utf8EncodeChar c = [x] ∧ c.toNat = x.toNat := by
  have hc : c.toNat = c.val.toNat := rfl
  by_cases hsmall : c.val.toNat ≤ 127
  · have henc : String.utf8EncodeChar c = [UInt8.ofNat c.val.toNat] := by
      rw [String.utf8EncodeChar, if_pos hsmall]
    rw [henc] at h
    obtain rfl := List.mem_singleton.1 h
    refine ⟨henc, ?_⟩
    rw [UInt8.toNat_ofNat']
    omega
  · have hlarge : ∀ y ∈ String.utf8EncodeChar c, 128 ≤ y.toNat := by
      simp only [String.utf8EncodeChar, hsmall, if_false]
      split_ifs <;> simp <;> omega
    have := hlarge x h
    omega

section Ascii

variable {a : Char} {x : UInt8} (ha : String.utf8EncodeChar a = [x]) (hx : x.toNat < 128)

include ha hx

/-- A byte below 128 is in the encoding of a text exactly if its character is in the text. -/
theorem mem_ofText_iff {s : String} : x ∈ ofText s ↔ a ∈ s.toList := by
  have hmem : x ∈ String.utf8EncodeChar a := by simp [ha]
  rw [ofText_eq_flatMap, List.mem_flatMap]
  refine ⟨fun ⟨c, hc, hxc⟩ => ?_, fun h => ⟨a, h, hmem⟩⟩
  have hca : c.toNat = a.toNat :=
    (eq_of_mem_utf8EncodeChar hxc hx).2.trans (eq_of_mem_utf8EncodeChar hmem hx).2.symm
  rwa [← Char.ofNat_toNat a, ← hca, Char.ofNat_toNat]

/-- Bytes before a byte below 128 are text exactly if they are with it. -/
theorem isSome_text?_concat {b : Bytes} : (text? (b ++ [x])).isSome ↔ (text? b).isSome := by
  rw [isSome_text?_iff_exists, isSome_text?_iff_exists]
  constructor
  · rintro ⟨s, hs⟩
    rw [ofText_eq_flatMap] at hs
    -- the last character of the text is the one that the byte encodes
    rcases List.eq_nil_or_concat s.toList with hnil | ⟨cs, c, hcs⟩
    · simp [hnil] at hs
    · rw [hcs, List.concat_eq_append, List.flatMap_append, List.flatMap_singleton] at hs
      have hlast : x ∈ String.utf8EncodeChar c := by
        have hne : String.utf8EncodeChar c ≠ [] := String.utf8EncodeChar_ne_nil
        have hget := congrArg List.getLast? hs
        rw [List.getLast?_concat, List.getLast?_append_of_ne_nil _ hne] at hget
        exact List.mem_of_getLast? hget.symm
      rw [(eq_of_mem_utf8EncodeChar hlast hx).1] at hs
      refine ⟨String.ofList cs, ?_⟩
      rw [ofText_eq_flatMap, String.toList_ofList]
      exact List.append_cancel_right hs
  · rintro ⟨s, rfl⟩
    refine ⟨s ++ String.singleton a, ?_⟩
    rw [ofText_append, ofText_eq_flatMap (String.singleton a)]
    simp [ha]

end Ascii

/-- The encoding of a text holds a line feed exactly if the text does. -/
theorem lineFeed_mem_ofText {s : String} : lineFeed ∈ ofText s ↔ '\n' ∈ s.toList :=
  mem_ofText_iff (by decide) (by decide)

/-- The encoding of a text holds a carriage return exactly if the text does. -/
theorem carriageReturn_mem_ofText {s : String} : carriageReturn ∈ ofText s ↔ '\r' ∈ s.toList :=
  mem_ofText_iff (by decide) (by decide)

/-- A line is text exactly if it is without its ending. -/
theorem isSome_text?_chomp (l : Bytes) : (text? l.chomp).isSome ↔ (text? l).isSome := by
  have hfeed {a : Bytes} : (text? (a ++ [lineFeed])).isSome ↔ (text? a).isSome :=
    isSome_text?_concat (a := '\n') (by decide) (by decide)
  have hreturn {a : Bytes} : (text? (a ++ [carriageReturn])).isSome ↔ (text? a).isSome :=
    isSome_text?_concat (a := '\r') (by decide) (by decide)
  rw [chomp]
  split_ifs with hf hr
  · obtain ⟨a, rfl⟩ := List.getLast?_eq_some_iff.1 hf
    rw [List.dropLast_concat] at hr ⊢
    obtain ⟨a, rfl⟩ := List.getLast?_eq_some_iff.1 hr
    rw [List.dropLast_concat, hfeed, hreturn]
  · obtain ⟨a, rfl⟩ := List.getLast?_eq_some_iff.1 hf
    rw [List.dropLast_concat, hfeed]
  · rfl

theorem chomp_of_not_mem {l : Bytes} (h : lineFeed ∉ l) : chomp l = l := by
  rw [chomp, if_neg]
  exact fun hl => h (List.mem_of_getLast? hl)

theorem chomp_concat {l : Bytes} (h : l.getLast? ≠ some carriageReturn) :
    chomp (l ++ [lineFeed]) = l := by
  rw [chomp, if_pos (List.getLast?_concat ..), List.dropLast_concat, if_neg h]

theorem mem_of_mem_chomp {l : Bytes} {x : UInt8} (h : x ∈ l.chomp) : x ∈ l := by
  rw [chomp] at h
  split_ifs at h
  · exact List.mem_of_mem_dropLast (List.mem_of_mem_dropLast h)
  · exact List.mem_of_mem_dropLast h
  · exact h

/-- A line without its ending has no line feed if it has none but at its end. -/
theorem lineFeed_not_mem_chomp {l : Bytes} (h : lineFeed ∉ l.dropLast) : lineFeed ∉ l.chomp := by
  rw [chomp]
  split_ifs with hf hr
  · exact fun hmem => h (List.mem_of_mem_dropLast hmem)
  · exact h
  · intro hmem
    rcases List.eq_nil_or_concat l with rfl | ⟨a, x, rfl⟩
    · cases hmem
    · rw [List.concat_eq_append] at h hf hmem
      rw [List.dropLast_concat] at h
      rw [List.getLast?_concat, Option.some.injEq] at hf
      rcases List.mem_append.1 hmem with hmem | hmem
      · exact h hmem
      · exact hf (List.mem_singleton.1 hmem).symm

theorem lines_cons (x : UInt8) (b : Bytes) :
    lines (x :: b) = if x = lineFeed then [x] :: lines b else
      match lines b with
      | [] => [[x]]
      | l :: ls => (x :: l) :: ls :=
  rfl

theorem lines_eq_nil_iff {b : Bytes} : lines b = [] ↔ b = [] := by
  cases b with
  | nil => simp [lines]
  | cons x b =>
    rw [lines_cons]
    split_ifs
    · simp
    · split <;> simp

/-- What holds no line feed comes in front of the first line after it. -/
theorem lines_append_of_not_mem {a : Bytes} (h : lineFeed ∉ a) (hne : a ≠ []) (b : Bytes) :
    lines (a ++ b) = match lines b with
      | [] => [a]
      | l :: ls => (a ++ l) :: ls := by
  induction a with
  | nil => exact absurd rfl hne
  | cons x a ih =>
    rw [List.mem_cons, not_or] at h
    rw [List.cons_append, lines_cons, if_neg (Ne.symm h.1)]
    cases a with
    | nil => rfl
    | cons y a =>
      rw [ih h.2 (List.cons_ne_nil y a)]
      cases lines b <;> rfl

theorem lines_of_not_mem {a : Bytes} (h : lineFeed ∉ a) (hne : a ≠ []) : lines a = [a] := by
  have hlines := lines_append_of_not_mem h hne []
  rwa [List.append_nil] at hlines

/-- A line that ends in a line feed is one line. -/
theorem lines_concat {a : Bytes} (h : lineFeed ∉ a) :
    lines (a ++ [lineFeed]) = [a ++ [lineFeed]] := by
  by_cases ha : a = []
  · subst ha
    rfl
  · rw [lines_append_of_not_mem h ha]
    rfl

/-- Whether bytes end where a new line starts. -/
def Finished (b : Bytes) : Prop :=
  b = [] ∨ b.getLast? = some lineFeed

instance (b : Bytes) : Decidable b.Finished :=
  inferInstanceAs (Decidable (_ ∨ _))

theorem finished_concat (b : Bytes) : Finished (b ++ [lineFeed]) :=
  .inr (List.getLast?_concat ..)

theorem Finished.tail {x y : UInt8} {b : Bytes} (h : Finished (x :: y :: b)) :
    Finished (y :: b) := by
  rcases h with h | h
  · cases h
  · exact .inr (by rwa [List.getLast?_cons_cons] at h)

/-- **After finished bytes the lines stay as they are.** -/
theorem lines_append {a : Bytes} (h : Finished a) (b : Bytes) :
    lines (a ++ b) = lines a ++ lines b := by
  induction a with
  | nil => rfl
  | cons x a ih =>
    cases a with
    | nil =>
      have hx : x = lineFeed := by simpa [Finished] using h
      simp [lines, hx]
    | cons y a =>
      rw [List.cons_append, lines_cons x, lines_cons x (y :: a), ih h.tail]
      split_ifs
      · rfl
      · cases hl : lines (y :: a) with
        | nil => simp [lines_eq_nil_iff] at hl
        | cons l ls => rfl

/-- Bytes are finished up to some place, and hold no line feed after it. -/
theorem exists_finished (b : Bytes) : ∃ a tail, b = a ++ tail ∧ Finished a ∧ lineFeed ∉ tail := by
  induction b with
  | nil => exact ⟨[], [], rfl, .inl rfl, List.not_mem_nil⟩
  | cons x b ih =>
    obtain ⟨a, tail, rfl, ha, ht⟩ := ih
    cases a with
    | nil =>
      by_cases hx : x = lineFeed
      · exact ⟨[x], tail, rfl, .inr (by rw [hx]; rfl), ht⟩
      · refine ⟨[], x :: tail, rfl, .inl rfl, ?_⟩
        rw [List.mem_cons, not_or]
        exact ⟨Ne.symm hx, ht⟩
    | cons y a =>
      refine ⟨x :: y :: a, tail, rfl, .inr ?_, ht⟩
      rw [List.getLast?_cons_cons]
      exact ha.resolve_left (List.cons_ne_nil y a)

/-- Only what is after the last line feed decides whether bytes are finished. -/
theorem finished_append_iff {a tail : Bytes} (ha : Finished a) (ht : lineFeed ∉ tail) :
    Finished (a ++ tail) ↔ tail = [] := by
  constructor
  · intro h
    by_contra hne
    rcases h with h | h
    · exact hne (List.append_eq_nil_iff.1 h).2
    · rw [List.getLast?_append_of_ne_nil _ hne] at h
      exact ht (List.mem_of_getLast? h)
  · rintro rfl
    rwa [List.append_nil]

/-- The lines of characters are text. -/
theorem isSome_text?_of_mem_lines (cs : List Char) {l : Bytes}
    (h : l ∈ lines (cs.flatMap String.utf8EncodeChar)) : (text? l).isSome := by
  have hchar (c : Char) : String.utf8EncodeChar c = ofText (String.singleton c) := by
    simp [ofText_eq_flatMap]
  induction cs generalizing l with
  | nil => simp [lines] at h
  | cons c cs ih =>
    rw [List.flatMap_cons] at h
    by_cases hc : lineFeed ∈ String.utf8EncodeChar c
    · -- the character is a line feed and stands by itself
      rw [(eq_of_mem_utf8EncodeChar hc (by decide)).1, lines_append (.inr rfl)] at h
      rcases List.mem_append.1 h with h | h
      · obtain rfl : l = [lineFeed] := by simpa [lines] using h
        exact isSome_text?_iff_exists.2 ⟨"\n", by decide⟩
      · exact ih h
    · -- the character goes in front of the first line
      rw [lines_append_of_not_mem hc String.utf8EncodeChar_ne_nil] at h
      split at h
      · obtain rfl := List.mem_singleton.1 h
        exact isSome_text?_iff_exists.2 ⟨_, hchar c⟩
      next first rest hl =>
        rw [hl] at ih
        rcases List.mem_cons.1 h with rfl | h
        · obtain ⟨s, hs⟩ := isSome_text?_iff_exists.1 (ih List.mem_cons_self)
          rw [isSome_text?_iff_exists, hs, hchar]
          exact ⟨String.singleton c ++ s, (ofText_append ..).symm⟩
        · exact ih (List.mem_cons_of_mem _ h)

/-- Lines that are text are text together. -/
theorem isSome_text?_flatten {ls : List Bytes} (h : ∀ l ∈ ls, (text? l).isSome) :
    (text? ls.flatten).isSome := by
  induction ls with
  | nil => exact isSome_text?_iff_exists.2 ⟨"", by decide⟩
  | cons l ls ih =>
    rw [List.forall_mem_cons] at h
    obtain ⟨s, hs⟩ := isSome_text?_iff_exists.1 h.1
    obtain ⟨t, ht⟩ := isSome_text?_iff_exists.1 (ih h.2)
    refine isSome_text?_iff_exists.2 ⟨s ++ t, ?_⟩
    rw [List.flatten_cons, hs, ht, ofText_append]

/-- **Bytes are text exactly if each of their lines is.** -/
theorem isSome_text?_iff (b : Bytes) : (text? b).isSome ↔ ∀ l ∈ lines b, (text? l).isSome := by
  constructor
  · intro h l hl
    obtain ⟨s, rfl⟩ := isSome_text?_iff_exists.1 h
    rw [ofText_eq_flatMap] at hl
    exact isSome_text?_of_mem_lines s.toList hl
  · intro h
    have hflat := isSome_text?_flatten h
    rwa [flatten_lines] at hflat

/-- The bytes are lines that, without their endings, are these texts. -/
def Spells (b : Bytes) (ts : List String) : Prop :=
  b.lines.map (fun l => text? l.chomp) = ts.map some

/-- Bytes are text exactly if their lines are texts without their endings. -/
theorem exists_spells_iff {b : Bytes} : (∃ ts, Spells b ts) ↔ (text? b).isSome := by
  rw [isSome_text?_iff]
  simp only [Spells]
  induction b.lines with
  | nil => simp
  | cons l ls ih =>
    rw [List.forall_mem_cons, ← ih, ← isSome_text?_chomp, Option.isSome_iff_exists]
    constructor
    · rintro ⟨ts, hts⟩
      cases ts with
      | nil => simp at hts
      | cons t ts =>
        simp only [List.map_cons, List.cons.injEq] at hts
        exact ⟨⟨t, hts.1⟩, ts, hts.2⟩
    · rintro ⟨⟨t, ht⟩, ts, hts⟩
      exact ⟨t :: ts, by simp [ht, hts]⟩

theorem ofText_eq_nil_iff {s : String} : ofText s = [] ↔ s = "" := by
  refine ⟨fun h => Option.some.inj ?_, fun h => h ▸ rfl⟩
  rw [← text?_ofText s, h, ← text?_ofText ""]
  rfl

namespace Spells

variable {a b : Bytes} {t : String} {ts us : List String}

theorem append (ha : Finished a) (hts : Spells a ts) (hus : Spells b us) :
    Spells (a ++ b) (ts ++ us) := by
  rw [Spells, lines_append ha, List.map_append, List.map_append, hts, hus]

/-- The texts are those of the finished lines and those of what follows. -/
theorem exists_of_append (ha : Finished a) (h : Spells (a ++ b) ts) :
    ∃ us vs, ts = us ++ vs ∧ Spells a us ∧ Spells b vs := by
  rw [Spells, lines_append ha, List.map_append] at h
  obtain ⟨us, vs, rfl, hus, hvs⟩ := List.map_eq_append_iff.1 h.symm
  exact ⟨us, vs, rfl, hus.symm, hvs.symm⟩

theorem unique (hts : Spells b ts) (hus : Spells b us) : ts = us :=
  List.map_injective_iff.2 (fun _ _ => Option.some.inj) (hts.symm.trans hus)

/-- A text without a line feed spells itself. -/
theorem ofText (hne : t ≠ "") (hfeed : '\n' ∉ t.toList) : Spells (ofText t) [t] := by
  have hmem : lineFeed ∉ Bytes.ofText t := lineFeed_mem_ofText.not.2 hfeed
  rw [Spells, lines_of_not_mem hmem (ofText_eq_nil_iff.not.2 hne)]
  simp [chomp_of_not_mem hmem]

/-- A text on a line spells itself, unless it would lose a carriage return. -/
theorem ofLine (hfeed : '\n' ∉ t.toList)
    (hreturn : (Bytes.ofText t).getLast? ≠ some carriageReturn) : Spells (ofLine t) [t] := by
  rw [Spells, Bytes.ofLine, lines_concat (lineFeed_mem_ofText.not.2 hfeed)]
  simp [chomp_concat hreturn]

end Spells

end Bytes

namespace History

open Bytes

theorem mapM_eq_some_iff {α β : Type} {f : α → Option β} {l : List α} {l' : List β} :
    l.mapM f = some l' ↔ l.map f = l'.map some := by
  induction l generalizing l' with
  | nil => cases l' <;> simp
  | cons x l ih =>
    rw [List.mapM_cons]
    cases l' with
    | nil => cases f x <;> cases l.mapM f <;> simp
    | cons y l' =>
      rw [List.map_cons, List.map_cons, List.cons.injEq, ← ih]
      cases f x <;> cases l.mapM f <;> simp

/-- The entries in a file are the texts of its lines that are not blank. -/
theorem ofBytes?_eq_some_iff {b : Bytes} {es : List String} :
    ofBytes? b = some es ↔ ∃ ts, Spells b ts ∧ es = ts.filter fun t => !Text.blank t := by
  rw [ofBytes?, Option.map_eq_some_iff]
  simp only [mapM_eq_some_iff, Spells, eq_comm (a := es)]

/-- **A history file can be read exactly if it is text.** -/
theorem isSome_ofBytes? (b : Bytes) : (ofBytes? b).isSome ↔ (text? b).isSome := by
  rw [← exists_spells_iff, Option.isSome_iff_exists]
  simp only [ofBytes?_eq_some_iff]
  exact ⟨fun ⟨_, ts, hts, _⟩ => ⟨ts, hts⟩, fun ⟨ts, hts⟩ => ⟨_, ts, hts, rfl⟩⟩

/-- Whether a line can be an entry that a file gives back as it was written: it is not blank and
holds neither a line feed nor a carriage return. -/
structure Storable (e : String) : Prop where
  /-- The line is not blank. -/
  blank : Text.blank e = false
  /-- No line feed would end it early. -/
  lineFeed : '\n' ∉ e.toList
  /-- No carriage return could be taken for a part of its ending. -/
  carriageReturn : '\r' ∉ e.toList

theorem Storable.ne_empty {e : String} (h : Storable e) : e ≠ "" := by
  rintro rfl
  exact Bool.noConfusion h.blank

/-- What comes in front of an entry does not make it lose its end. -/
theorem Storable.getLast?_ne {e : String} (h : Storable e) (t : String) :
    (ofText (t ++ e)).getLast? ≠ some Bytes.carriageReturn := by
  rw [ofText_append, List.getLast?_append_of_ne_nil _ (ofText_eq_nil_iff.not.2 h.ne_empty)]
  exact fun hl => h.carriageReturn (carriageReturn_mem_ofText.1 (List.mem_of_getLast? hl))

theorem toBytes_cons (e : String) (es : List String) : toBytes (e :: es) = ofLine e ++ toBytes es :=
  rfl

/-- What is written for entries spells them. -/
theorem spells_toBytes {es : List String} (h : ∀ e ∈ es, Storable e) : Spells (toBytes es) es := by
  induction es with
  | nil => rfl
  | cons e es ih =>
    rw [List.forall_mem_cons] at h
    have hlast := h.1.getLast?_ne ""
    rw [String.empty_append] at hlast
    exact (Spells.ofLine h.1.lineFeed hlast).append (finished_concat _) (ih h.2)

theorem filter_storable {es : List String} (h : ∀ e ∈ es, Storable e) :
    es.filter (fun t => !Text.blank t) = es :=
  List.filter_eq_self.2 fun e he => by rw [(h e he).blank]; rfl

/-- **After a finished file, entries are read back as they were written.** -/
theorem ofBytes?_append {b : Bytes} {old new : List String} (hb : ofBytes? b = some old)
    (hnew : ∀ e ∈ new, Storable e) (hfin : Finished b) :
    ofBytes? (b ++ toBytes new) = some (old ++ new) := by
  obtain ⟨ts, hts, rfl⟩ := ofBytes?_eq_some_iff.1 hb
  refine ofBytes?_eq_some_iff.2 ⟨ts ++ new, hts.append hfin (spells_toBytes hnew), ?_⟩
  rw [List.filter_append, filter_storable hnew]

/-- **After any other file, the first entry is merged with the last line of the file.** So at least
one of the entries, or what stood on that line, is not read back. -/
theorem ofBytes?_append_of_not_finished {b : Bytes} {old new : List String} {e : String}
    (hb : ofBytes? b = some old) (hnew : ∀ x ∈ e :: new, Storable x) (hfin : ¬ Finished b) :
    ∃ before t, t ≠ "" ∧ old = before ++ [t].filter (fun t => !Text.blank t) ∧
      ofBytes? (b ++ toBytes (e :: new)) = some (before ++ (t ++ e) :: new) := by
  obtain ⟨a, tail, rfl, ha, htail⟩ := exists_finished b
  have hne : tail ≠ [] := (finished_append_iff ha htail).not.1 hfin
  obtain ⟨ts, hts, rfl⟩ := ofBytes?_eq_some_iff.1 hb
  obtain ⟨us, vs, rfl, hus, hvs⟩ := hts.exists_of_append ha
  -- the last line is one text
  obtain ⟨t, rfl⟩ := isSome_text?_iff_exists.1 (exists_spells_iff.1 ⟨vs, hvs⟩)
  have ht : t ≠ "" := ofText_eq_nil_iff.not.1 hne
  have hfeed : '\n' ∉ t.toList := lineFeed_mem_ofText.not.1 htail
  obtain rfl := hvs.unique (Spells.ofText ht hfeed)
  rw [List.forall_mem_cons] at hnew
  obtain ⟨he, hnew⟩ := hnew
  -- that line goes on with the first entry
  have hjoined : ofText t ++ toBytes (e :: new) = ofLine (t ++ e) ++ toBytes new := by
    rw [toBytes_cons, ofLine, ofLine, ofText_append]
    simp only [List.append_assoc]
  have hline : Spells (ofLine (t ++ e)) [t ++ e] := by
    refine Spells.ofLine ?_ (he.getLast?_ne t)
    rw [String.toList_append, List.mem_append, not_or]
    exact ⟨hfeed, he.lineFeed⟩
  have hblank : Text.blank (t ++ e) = false := by
    have := he.blank
    simp_all [Text.blank]
  refine ⟨us.filter fun t => !Text.blank t, t, ht, List.filter_append .., ?_⟩
  refine ofBytes?_eq_some_iff.2 ⟨us ++ ([t ++ e] ++ new), ?_, ?_⟩
  · rw [List.append_assoc, hjoined]
    exact hus.append ha (hline.append (finished_concat _) (spells_toBytes hnew))
  · simp [List.filter_append, filter_storable hnew, hblank]

/-- **When a file gives back what was appended to it.** A file to which entries are appended can
still be read. It holds what it held before and the new entries, exactly if it was finished or
there are no new entries. -/
theorem ofBytes?_append_toBytes {b : Bytes} {old new : List String} (hb : ofBytes? b = some old)
    (hnew : ∀ e ∈ new, Storable e) :
    ∃ es, ofBytes? (b ++ toBytes new) = some es ∧
      (es = old ++ new ↔ Finished b ∨ new = []) := by
  by_cases hfin : Finished b
  · exact ⟨_, ofBytes?_append hb hnew hfin, by simp [hfin]⟩
  cases new with
  | nil => exact ⟨old, by simpa [toBytes] using hb, by simp⟩
  | cons e new =>
    obtain ⟨before, t, ht, rfl, hread⟩ := ofBytes?_append_of_not_finished hb hnew hfin
    refine ⟨_, hread, iff_of_false (fun heq => ?_) (by simp [hfin])⟩
    by_cases htb : Text.blank t = true
    · simp [htb, ht] at heq
    · simpa [htb] using congrArg List.length heq

end History
end LineShell
