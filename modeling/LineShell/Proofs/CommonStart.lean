import LineShell.Completion.Common
import Mathlib.Data.List.Perm.Basic

/-!
# The greatest common start

What texts have in common is cut out of the first of them at a byte. That this is the right text is
one equivalence: a text is a start of it exactly if it is a start of every text
(`prefix_common_iff`). Two texts with the same starts are equal (`eq_of_prefix_iff`), so it hangs on
the set of texts and not on which of them is the first.
-/

namespace LineShell
namespace Completion

/-- A text is known by what it starts with. -/
theorem eq_of_prefix_iff {s t : String} (h : ∀ p, p <+: s.toList ↔ p <+: t.toList) : s = t := by
  have hst : s.toList <+: t.toList := (h s.toList).1 List.prefix_rfl
  have hts : t.toList <+: s.toList := (h t.toList).2 List.prefix_rfl
  exact String.toList_inj.1 (hst.eq_of_length_le hts.length_le)

/-- **A text is a start of what texts have in common exactly if it is a start of each.** -/
theorem prefix_common_iff {p : List Char} {first : String} {rest : List String} :
    p <+: (common (first :: rest)).toList ↔ ∀ w ∈ first :: rest, p <+: w.toList := by
  obtain ⟨q, hq, hcut⟩ := exists_cut first rest
  obtain ⟨t, ht⟩ := (hq q.toList).1 List.prefix_rfl first List.mem_cons_self
  -- the greatest start ends where the first text is cut, so it is what is cut out
  have hsplits : (first.pos ⟨cut first rest⟩ (isValid_cut first rest)).Splits q
      (String.ofList t) := by
    refine ⟨?_, ?_⟩
    · rw [← String.toList_inj, String.toList_append, String.toList_ofList, ht]
    · rw [String.offset_pos, hcut]
      rfl
  rw [(common_splits first rest).eq_left hsplits, hq]

/-- What texts have in common hangs on which texts there are. -/
theorem common_congr {words others : List String} (h : ∀ w, w ∈ others ↔ w ∈ words) :
    common others = common words := by
  cases words with
  | nil =>
    cases others with
    | nil => rfl
    | cons w others => exact absurd ((h w).1 List.mem_cons_self) List.not_mem_nil
  | cons first rest =>
    cases others with
    | nil => exact absurd ((h first).2 List.mem_cons_self) List.not_mem_nil
    | cons first' rest' =>
      refine eq_of_prefix_iff fun p => ?_
      rw [prefix_common_iff, prefix_common_iff]
      exact forall_congr' fun w => by rw [h]

/-- **What texts have in common is their greatest common start.** It is nothing if there are no
texts. Otherwise it is what the first text holds before the byte at which it is cut, and that byte
is between two characters of it. Every text starts with it, and whatever all texts start with is a
start of it. In any order the texts have the same in common. -/
theorem common_is_greatest (words : List String) :
    common [] = "" ∧
    (∀ first rest, words = first :: rest →
      String.Pos.Raw.IsValid first ⟨cut first rest⟩ ∧
      (common words).utf8ByteSize = cut first rest ∧ ∃ after, first = common words ++ after) ∧
    (words ≠ [] → ∀ w ∈ words, (common words).toList <+: w.toList) ∧
    (words ≠ [] → ∀ p : String, (∀ w ∈ words, p.toList <+: w.toList) →
      p.toList <+: (common words).toList) ∧
    ∀ others, others.Perm words → common others = common words := by
  refine ⟨rfl, ?_, ?_, ?_, fun others h => common_congr fun w => h.mem_iff⟩
  · rintro first rest rfl
    have hsplits := common_splits first rest
    refine ⟨isValid_cut first rest, ?_, _, hsplits.eq_append⟩
    have hoffset := hsplits.offset_eq_rawEndPos
    rw [String.offset_pos] at hoffset
    exact (congrArg String.Pos.Raw.byteIdx hoffset).symm
  · intro hne
    obtain ⟨first, rest, rfl⟩ := List.exists_cons_of_ne_nil hne
    exact prefix_common_iff.1 List.prefix_rfl
  · intro hne p hp
    obtain ⟨first, rest, rfl⟩ := List.exists_cons_of_ne_nil hne
    exact prefix_common_iff.2 hp

/-- The letters `é` and `è` differ in their second byte only, and a text that begins with one of
them is cut before it. -/
theorem common_of_shared_byte :
    cut "élan" ["été", "ère"] = 0 ∧ common ["élan", "été", "ère"] = "" ∧
      common ["élan", "été"] = "é" ∧ common ["été", "élan"] = common ["élan", "été"] := by
  obtain ⟨-, -, -, -, hperm⟩ := common_is_greatest ["élan", "été"]
  exact ⟨by decide +kernel, by decide +kernel, by decide +kernel,
    hperm ["été", "élan"] (List.Perm.swap "élan" "été" [])⟩

end Completion
end LineShell
