import LineShell.Proofs.CommandPlace
import LineShell.Proofs.PathNames
import LineShell.Proofs.Trimming

/-!
# What is inserted is read back

What a word is completed to is put into the line as it is, and the line is cut into words later. A
path comes back from there as one word exactly if each of its characters stands for itself
(`split_eq_singleton_iff`): a space would cut it, and a quote or a backslash would be taken away.

The second half needs a count. The words of a text never hold more than its characters in their
order (`sublist_letters`), and once something quotes, one less (`sublist_letters_of_quotes`). Only
the space that is put after the path could make up for that, if the quotes are still open at the
end. But then it would have to be the very character that is missing, and a space does not quote
(`letters_ne_of_quotes`).
-/

namespace LineShell

namespace Word

/-- The characters that quote others outside quotes. -/
def Quotes (c : Char) : Prop :=
  c ∈ ['\\', '\'', '"']

theorem plain_bare_iff {c : Char} : Plain .bare c ↔ c ≠ ' ' ∧ ¬ Quotes c := by
  rw [Plain, List.mem_cons, not_or, Quotes]

section Unquoted

variable {p : List Char} (hp : ∀ c ∈ p, ¬ Quotes c)
include hp

/-- After a text in which nothing quotes, the reader is outside quotes. -/
theorem meets_of_unquoted (r : List Char) : Meets .bare (p ++ r) p.length := by
  induction p with
  | nil => exact .here r
  | cons c p ih =>
    rw [List.forall_mem_cons] at hp
    rw [List.cons_append, List.length_cons, Nat.add_comm]
    by_cases hc : c = ' '
    · subst hc
      exact .later (t := ⟨.cut, .bare, 1⟩) rfl (ih hp.2)
    · exact .later (turn_of_plain (plain_bare_iff.2 ⟨hc, hp.1⟩) _) (ih hp.2)

/-- Words can be put after a text that ends in a space or is empty, if nothing quotes in it. -/
theorem split_append (hends : p = [] ∨ p.getLast? = some ' ') (b : List Char) :
    split (p ++ b) = split p ++ split b := by
  rcases hends with rfl | hlast
  · rfl
  · obtain ⟨a, rfl⟩ := List.getLast?_eq_some_iff.1 hlast
    have hmeets := meets_of_unquoted (fun c hc => hp c (List.mem_append_left _ hc)) [' ']
    have hspace := split_append_space hmeets (List.cons_ne_nil _ _)
    rw [List.append_assoc, List.singleton_append, hspace, hspace, List.append_assoc]
    rfl

theorem not_mem_of_mem_scan {w : List Char} (hw : w ∈ (scan .bare p).1 :: (scan .bare p).2) :
    ' ' ∉ w := by
  induction p generalizing w with
  | nil => simp_all [scan]
  | cons c p ih =>
    rw [List.forall_mem_cons] at hp
    by_cases hc : c = ' '
    · subst hc
      rcases List.mem_cons.1 hw with rfl | hw
      · exact List.not_mem_nil
      · exact ih hp.2 hw
    · rw [scan_of_plain (plain_bare_iff.2 ⟨hc, hp.1⟩)] at hw
      rcases List.mem_cons.1 hw with rfl | hw
      · exact List.not_mem_cons_of_ne_of_not_mem (Ne.symm hc) (ih hp.2 (List.mem_cons_self ..))
      · exact ih hp.2 (List.mem_cons_of_mem _ hw)

/-- Without quotes no word holds a space. -/
theorem not_mem_of_mem_split {w : List Char} (hw : w ∈ split p) : ' ' ∉ w :=
  not_mem_of_mem_scan hp (List.mem_filter.1 hw).1

end Unquoted

/-- **The words of a text hold characters of it, in their order.** -/
theorem sublist_letters (q : Quoting) (cs : List Char) : (letters (scan q cs)).Sublist cs := by
  induction q, cs using turnInduction with
  | nil q => cases q <;> exact List.Sublist.refl _
  | step q cs t ht ih =>
    rw [scan_of_turn ht]
    cases rule_of_turn ht with
    | escape c cs => exact (ih.cons_cons c).cons '\\'
    | unescape c cs h => exact (ih.cons_cons c).cons '\\'
    | plain q c cs h => exact ih.cons_cons c
    | keep c cs h => exact ih.cons_cons '\\'
    | keepLast => exact ih.cons_cons '\\'
    | _ => exact ih.cons _

/-- What quotes is left out of the words. -/
theorem sublist_letters_of_quotes {c : Char} (hc : Quotes c) (r : List Char) :
    (letters (scan .bare (c :: r))).Sublist r := by
  simp only [Quotes, List.mem_cons, List.not_mem_nil, or_false] at hc
  rcases hc with rfl | rfl | rfl
  · cases r with
    | nil => exact List.Sublist.refl _
    | cons d r => exact (sublist_letters .bare r).cons_cons d
  · exact sublist_letters .single r
  · exact sublist_letters .double r

/-- In a text in which something quotes, the first such character is left out of the words. -/
theorem exists_sublist_letters {x : List Char} {c : Char} (hc : c ∈ x) (hquotes : Quotes c) :
    ∃ p d r, x = p ++ d :: r ∧ Quotes d ∧
      ∀ y, (letters (scan .bare (x ++ y))).Sublist (p ++ r ++ y) := by
  induction x with
  | nil => exact absurd hc List.not_mem_nil
  | cons e x ih =>
    by_cases he : Quotes e
    · exact ⟨[], e, x, rfl, he, fun y => sublist_letters_of_quotes he (x ++ y)⟩
    · obtain rfl | hc := List.mem_cons.1 hc
      · exact absurd hquotes he
      obtain ⟨p, d, r, rfl, hd, hsub⟩ := ih hc
      refine ⟨e :: p, d, r, rfl, hd, fun y => ?_⟩
      by_cases hspace : e = ' '
      · subst hspace
        exact (hsub y).cons ' '
      · rw [List.cons_append, scan_of_plain (plain_bare_iff.2 ⟨hspace, he⟩)]
        exact (hsub y).cons_cons e

/-- A space after a text does not make up for what quotes in it. -/
theorem letters_ne_of_quotes {x y : List Char} (hy : y = [] ∨ y = [' ']) {c : Char} (hc : c ∈ x)
    (hquotes : Quotes c) : letters (scan .bare (x ++ y)) ≠ x := by
  intro heq
  obtain ⟨p, d, r, rfl, hd, hsub⟩ := exists_sublist_letters hc hquotes
  have hsub := hsub y
  rw [heq] at hsub
  rcases hy with rfl | rfl
  · have hle := hsub.length_le
    simp at hle
  · -- nothing else is left out, so the space would be the character that quotes
    have hsame := hsub.eq_of_length (by simp)
    have hcount := congrArg (List.count d) hsame
    simp only [List.count_append, List.count_cons_self] at hcount
    have hmem : d ∈ [' '] := List.count_pos_iff.1 (by omega)
    obtain rfl := List.mem_singleton.1 hmem
    simp [Quotes] at hd

/-- **A text comes back as one word exactly if each character of it stands for itself**, also with a
space after it. -/
theorem split_eq_singleton_iff {x y : List Char} (hx : x ≠ []) (hy : y = [] ∨ y = [' ']) :
    split (x ++ y) = [x] ↔ ∀ c ∈ x, Plain .bare c := by
  constructor
  · intro h c hc
    have hletters : letters (scan .bare (x ++ y)) = x := by
      rw [← flatten_split, h, List.flatten_singleton]
    have hunquoted : ∀ d ∈ x, ¬ Quotes d := fun d hd hquotes =>
      letters_ne_of_quotes hy hd hquotes hletters
    have hboth : ∀ d ∈ x ++ y, ¬ Quotes d := by
      rw [List.forall_mem_append]
      refine ⟨hunquoted, ?_⟩
      rcases hy with rfl | rfl <;> simp [Quotes]
    refine plain_bare_iff.2 ⟨?_, hunquoted c hc⟩
    rintro rfl
    exact not_mem_of_mem_split hboth (h ▸ List.mem_singleton_self x) hc
  · intro h
    have hspells := spells_of_plain h
    rcases hy with rfl | rfl
    · rw [hspells.split_last (u := []) rfl]
      simp [hx]
    · rw [hspells.split_space]
      simp [hx, split, scan]

theorem ofLine_append {p : String} (hp : ∀ c ∈ p.toList, ¬ Quotes c)
    (hends : p = "" ∨ p.toList.getLast? = some ' ') (b : String) :
    ofLine (p ++ b) = ofLine p ++ ofLine b := by
  rw [ofLine, String.toList_append, split_append hp (hends.imp_left (by simp [·])), List.map_append]
  rfl

theorem ofLine_eq_singleton_iff {x y : String} (hx : x ≠ "") (hy : y = "" ∨ y = " ") :
    ofLine (x ++ y) = [x] ↔ ∀ c ∈ x.toList, Plain .bare c := by
  have hy' : y.toList = [] ∨ y.toList = [' '] := by rcases hy with rfl | rfl <;> simp
  rw [← split_eq_singleton_iff (mt String.toList_eq_nil_iff.1 hx) hy', ofLine, String.toList_append,
    ← (List.map_injective_iff.2 fun _ _ => String.ofList_inj.1).eq_iff]
  simp

end Word

namespace Completion

theorem not_endsInHiddenBar {head : List Char} (h : ∀ c ∈ head, ¬ Word.Quotes c) :
    ¬ EndsInHiddenBar head := by
  rintro ⟨before, ⟨blanks, rfl, -⟩, hmeets⟩
  exact hmeets (Word.meets_of_unquoted (fun c hc => h c (List.mem_append_left _ hc)) _)

theorem close_eq (hit : String) : ∃ y, (y = "" ∨ y = " ") ∧ close hit = hit ++ y := by
  rw [close]
  split_ifs
  · exact ⟨"", .inl rfl, String.append_empty.symm⟩
  · exact ⟨" ", .inr rfl, rfl⟩

section Entry

variable {σ : Type} [Host σ] {s : σ} {cwd word dir typed name : String}

theorem matching_pathNames (hdir : CutAt '/' word dir typed)
    (hone : ∀ n, Visible s (searched cwd dir) typed n ↔ n = name) :
    matching word (pathNames cwd word s) = {spelling s (searched cwd dir) dir name} := by
  ext p
  constructor
  · rintro ⟨hp, -⟩
    obtain ⟨n, hn, rfl⟩ := (mem_pathNames hdir).1 hp
    rw [(hone n).1 hn, Set.mem_singleton_iff]
  · rintro rfl
    have hp := (mem_pathNames hdir).2 ⟨name, (hone name).2 rfl, rfl⟩
    exact ⟨hp, prefix_of_mem_pathNames hp⟩

/-- Only the name of an entry may bring characters that do not stand for themselves. -/
theorem plain_spelling_iff (s : σ) (place : String) (hdir : ∀ c ∈ dir.toList, Word.Plain .bare c) :
    (∀ c ∈ (spelling s place dir name).toList, Word.Plain .bare c) ↔
      ∀ c ∈ name.toList, Word.Plain .bare c := by
  have hname : (∀ c ∈ (dir ++ name).toList, Word.Plain .bare c) ↔
      ∀ c ∈ name.toList, Word.Plain .bare c := by
    rw [String.toList_append, List.forall_mem_append, and_iff_right hdir]
  rw [spelling]
  split_ifs
  · rw [String.toList_append, List.forall_mem_append, hname, and_iff_left (by simp [Word.Plain])]
  · exact hname

theorem spelling_ne_empty (s : σ) (place dir : String) (hname : name ≠ "") :
    spelling s place dir name ≠ "" := by
  rw [spelling]
  split_ifs <;> simp [hname]

/-- **A completed entry is read back as one word exactly if its name needs no quotes.** Nothing
quotes in the text, the word at the cursor comes after the first one of its stage, and one entry is
visible of the directory that it leads to. Then the word is replaced. The words of the line that
comes of it are those before the cursor and the path of the entry as it is spelled, if the name of
the entry holds no space, no quote and no backslash, and for no other name. -/
theorem completed_entry_is_word_iff (c : Completer) {text head : String} (hname : name ≠ "")
    (htext : ∀ ch ∈ text.toList, ¬ Word.Quotes ch) (hcut : CutAt ' ' text head word)
    (hlast : Stage.last head ≠ "") (hdir : CutAt '/' word dir typed)
    (hone : ∀ n, Visible s (searched c.cwd dir) typed n ↔ n = name) :
    ∃ t, (c.resolve text s).1.suggestion = .replace t ∧
      (Word.ofLine (head ++ t) = Word.ofLine head ++ [spelling s (searched c.cwd dir) dir name] ↔
        ∀ ch ∈ name.toList, Word.Plain .bare ch) := by
  rw [← hcut.joined, ← hdir.joined, String.toList_append, List.forall_mem_append,
    String.toList_append, List.forall_mem_append] at htext
  obtain ⟨hhead, hquotes, -⟩ := htext
  refine ⟨close (spelling s (searched c.cwd dir) dir name), ?_, ?_⟩
  · have hpath : ¬ commandFollows head.toList :=
      mt commandFollows_iff.1 (not_or.2 ⟨hlast, not_endsInHiddenBar hhead⟩)
    rw [c.resolve_eq s hcut, Completer.candidates, if_neg hpath]
    exact suggest_of_singleton (matching_pathNames hdir hone)
  · have hplain : ∀ ch ∈ dir.toList, Word.Plain .bare ch := by
      intro ch hch
      refine Word.plain_bare_iff.2 ⟨?_, hquotes ch hch⟩
      rintro rfl
      exact hcut.free (by simp [← hdir.joined, hch])
    obtain ⟨y, hy, hclose⟩ := close_eq (spelling s (searched c.cwd dir) dir name)
    rw [hclose, Word.ofLine_append hhead hcut.ends, List.append_right_inj,
      Word.ofLine_eq_singleton_iff (spelling_ne_empty s _ dir hname) hy,
      plain_spelling_iff s _ hplain]

end Entry

/-- A machine with a directory of two files. The name of one of them holds a tab, a bar and a letter
of two bytes, none of which the reader of words cares for. The name of the other one holds a
space. -/
def besideOddNames : Machine :=
  { disk := { nodes := [(["a"], .directory), (["a", "b\t|é"], .file [] {}),
      (["a", "c d"], .file [] {})] } }

/-- Behind a bar the first of them is completed, and the line is read as it should be. -/
theorem completed_tabbed_entry_is_word :
    ∃ t, ((Completer.inDirectory "/").resolve "pwd | cat a/b" besideOddNames).1.suggestion =
        .replace t ∧
      Word.ofLine ("pwd | cat " ++ t) = Word.ofLine "pwd | cat " ++ ["a/b\t|é"] := by
  have hread : Host.entries? besideOddNames "/a/" = some ["b\t|é", "c d"] := by decide +kernel
  have hone : ∀ n, Visible besideOddNames "/a/" "b" n ↔ n = "b\t|é" := by
    intro n
    have hfits : ["b\t|é", "c d"].filter (offered "b") = ["b\t|é"] := by decide +kernel
    rw [visible_iff hread, hfits, List.mem_singleton]
  have hcut : CutAt ' ' "pwd | cat a/b" "pwd | cat " "a/b" := ⟨by decide, by decide, by decide⟩
  have hdir : CutAt '/' "a/b" "a/" "b" := ⟨by decide, by decide, by decide⟩
  obtain ⟨t, hreplace, hwords⟩ := completed_entry_is_word_iff (Completer.inDirectory "/")
    (by decide) (by simp [Word.Quotes]) hcut (by decide +kernel) hdir hone
  have hspelling : spelling besideOddNames "/a/" "a/" "b\t|é" = "a/b\t|é" := by decide +kernel
  exact ⟨t, hreplace, hspelling ▸ hwords.2 (by simp [Word.Plain])⟩

/-- **A name with a space is completed to two words.** Nothing quotes in the text, and the second of
the files is the only path that is offered, but the line names two others. -/
theorem spaced_entry_is_two_words :
    pathNames "/" "a/c" besideOddNames = ["a/c d"] ∧
      ((Completer.inDirectory "/").resolve "cat a/c" besideOddNames).1 =
        ⟨4, .replace "a/c d "⟩ ∧
      Word.ofLine ("cat " ++ "a/c d ") = ["cat", "a/c", "d"] :=
  ⟨by decide +kernel, by decide +kernel, by decide +kernel⟩

end Completion
end LineShell
