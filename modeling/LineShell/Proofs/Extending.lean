import LineShell.Proofs.PathNames

/-!
# Completion only adds to what was typed

What replaces a word starts with it, so that nothing that was typed is lost. It is longer as well,
unless the word is a candidate that ends in a slash: this is the one hit that nothing is put after
(`length_lt_of_replace`). There is no such word. A command name does not end in a slash
(`getLast?_of_mem_commandNames`), and a path that does names an entry between the typed directory and
the slash, while a word that goes on after the directory has no further slash
(`ne_of_mem_pathNames`). Both come from what names are in a directory: never empty, and without a
slash.
-/

namespace LineShell
namespace Completion

section Progress

variable {word : String} {candidates : List String} {presses : Nat}

/-- A word is replaced by a longer one, unless it is itself a candidate that is left open. -/
theorem length_lt_of_replace (hopen : ∀ c ∈ candidates, c.toList.getLast? = some '/' → c ≠ word)
    {text : String} (h : suggest word candidates presses = .replace text) :
    word.toList.length < text.toList.length := by
  have hstart := word_prefix_of_replace h
  have hlt (hne : text ≠ word) : word.toList.length < text.toList.length := by
    by_contra hge
    exact hne (String.toList_inj.1 (hstart.eq_of_length_le (by omega))).symm
  have ha := answers_suggest word candidates presses
  rw [h] at ha
  cases ha with
  | directory hone hslash =>
    have hmem : text ∈ matching word candidates := hone ▸ rfl
    exact hlt (hopen text hmem.1 hslash)
  | @single hit hone _ =>
    have hmem : hit ∈ matching word candidates := hone ▸ rfl
    rw [String.toList_append, List.length_append]
    exact Nat.lt_of_le_of_lt hmem.2.length_le (Nat.lt_add_one _)
  | extend _ _ hne => exact hlt hne

end Progress

section Candidates

variable {σ : Type} [Host σ] {s : σ}

/-- What the search path lists are names in directories. -/
theorem isName_of_mem_listAll (hs : Host.HoldsNames s) {sp : SearchPath} {e : String × String}
    (he : e ∈ sp.listAll s) : Path.IsName e.1 := by
  obtain ⟨dir, -, hdir⟩ := List.mem_flatMap.1 (Names.mem_of_mem_sortedBy he)
  rw [SearchPath.executables] at hdir
  split at hdir
  next => exact absurd hdir List.not_mem_nil
  next names hentries =>
    obtain ⟨name, hname, rfl⟩ := List.mem_map.1 (List.mem_filter.1 hdir).1
    exact hs dir names hentries name hname

/-- No command name ends in a slash. -/
theorem getLast?_of_mem_commandNames (hs : Host.HoldsNames s) {sp : SearchPath} {name : String}
    (h : name ∈ commandNames sp s) : name.toList.getLast? ≠ some '/' := by
  rw [commandNames, Names.mem_sorted, List.mem_append] at h
  rcases h with h | h
  · have hbuiltin : ∀ n ∈ Builtin.all.map Builtin.name, n.toList.getLast? ≠ some '/' := by
      decide +kernel
    exact hbuiltin name h
  · obtain ⟨e, he, rfl⟩ := List.mem_map.1 h
    exact (isName_of_mem_listAll hs he).getLast?_ne

/-- A path that is offered with a slash at its end is not what was typed. -/
theorem ne_of_mem_pathNames (hs : Host.HoldsNames s) {cwd word path : String}
    (h : path ∈ pathNames cwd word s) (hslash : path.toList.getLast? = some '/') : path ≠ word := by
  obtain ⟨dir, typed, hcut⟩ := exists_cutAt '/' word
  obtain ⟨name, ⟨names, hentries, hmem, -⟩, rfl⟩ := (mem_pathNames hcut).1 h
  have hname := hs _ _ hentries name hmem
  rw [spelling] at hslash ⊢
  split_ifs at hslash ⊢ with hdir
  · rintro hword
    -- the typed part of the name would have to be the name with a slash
    rw [← hcut.joined, String.append_assoc, String.append_right_inj] at hword
    exact hcut.free (hword ▸ by simp)
  · rw [String.toList_append, List.getLast?_append_of_ne_nil _ (by simp [hname.ne_empty])] at hslash
    exact absurd hslash hname.getLast?_ne

theorem ne_of_mem_candidates (hs : Host.HoldsNames s) {c : Completer} {head : List Char}
    {word path : String} (h : path ∈ c.candidates head word s)
    (hslash : path.toList.getLast? = some '/') : path ≠ word := by
  rw [Completer.candidates] at h
  split_ifs at h
  · exact absurd hslash (getLast?_of_mem_commandNames hs h)
  · exact ne_of_mem_pathNames hs h hslash

/-- **Completion only adds to what was typed.** For every completer with all its requests so far,
every machine and every text before the cursor: the answer starts at the end of a character of the
text, and the word is what follows there and has no space. If the word is replaced, the line up to
the cursor becomes one that starts with all of what was typed. It is a longer one, as long as
directories hold nothing but proper names. -/
theorem completion_extends (c : Completer) (s : σ) (text : String) :
    ∃ head word, CutAt ' ' text head word ∧
      (c.resolve text s).1.start = head.utf8ByteSize ∧
      String.Pos.Raw.IsValid text ⟨(c.resolve text s).1.start⟩ ∧
      (c.resolve text s).1.suggestion =
        suggest word (c.candidates head.toList word s) (c.presses.press text).count ∧
      ∀ t, (c.resolve text s).1.suggestion = .replace t →
        text.toList <+: (head ++ t).toList ∧
          (Host.HoldsNames s → text.toList.length < (head ++ t).toList.length) := by
  obtain ⟨head, word, hcut⟩ := exists_cutAt ' ' text
  refine ⟨head, word, hcut, ?_⟩
  rw [c.resolve_eq s hcut]
  refine ⟨rfl, String.Pos.Raw.isValid_iff_exists_append.2 ⟨head, word, hcut.joined.symm, rfl⟩, rfl,
    fun t ht => ?_⟩
  rw [← hcut.joined, String.toList_append, String.toList_append]
  refine ⟨(List.prefix_append_right_inj _).2 (word_prefix_of_replace ht), fun hs => ?_⟩
  have hlt := length_lt_of_replace (fun path => ne_of_mem_candidates hs) ht
  rw [List.length_append, List.length_append]
  exact Nat.add_lt_add_left hlt _

end Candidates

/-- The start of a file's name is completed in its directory, after a character of two bytes. -/
theorem completion_extends_main :
    Host.HoldsNames besideSource ∧
      ((Completer.inDirectory "/r").resolve "é src/m" besideSource).1 =
        ⟨3, .replace "src/main "⟩ ∧
      String.Pos.Raw.IsValid "é src/m" ⟨3⟩ ∧ "é src/m".toList <+: "é src/main ".toList ∧
      "é src/m".toList.length < "é src/main ".toList.length := by
  have hs : Host.HoldsNames besideSource := Machine.holdsNames (by decide +kernel)
  have hcut : CutAt ' ' "é src/m" "é " "src/m" := ⟨by decide, by decide, by decide⟩
  have hanswer : ((Completer.inDirectory "/r").resolve "é src/m" besideSource).1 =
      ⟨3, .replace "src/main "⟩ := by
    decide +kernel
  obtain ⟨head, word, hcut', -, hvalid, -, hextends⟩ :=
    completion_extends (Completer.inDirectory "/r") besideSource "é src/m"
  rw [hanswer] at hvalid hextends
  rw [(hcut.unique hcut').1] at hextends
  obtain ⟨hstart, hlonger⟩ := hextends _ rfl
  exact ⟨hs, hanswer, hvalid, hstart, hlonger hs⟩

end Completion
end LineShell
