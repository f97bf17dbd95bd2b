import LineShell.Completion.Match
import LineShell.Proofs.CommonStart
import LineShell.Proofs.SortedNames
import Mathlib.Data.List.Infix
import Mathlib.Data.Set.Subsingleton

/-!
# What a word is completed to

The candidates that start with a word make up a set, `matching`, and what the word is completed to
is told by that set: `Answers` gives the rules, one for each row of the table of suggestions.
`suggest` follows them (`suggest_follows_rules`). It does so by lists: it filters the candidates,
sorts the rest and takes what they have in common.

Two facts carry this over. Sorting gives the one increasing list of the set (`hits_eq_iff`), so that
the lists of no, one and several hits are the sets of as many names. And a text is a start of what
all names have in common exactly if it is a start of each of them (`prefix_common_iff`), so that
this is the longest such text, and the word is a start of it. That comparing lengths is as good as
comparing texts comes from the latter, and so does that bytes may be counted in place of characters
(`utf8ByteSize_lt_iff`).
-/

namespace LineShell
namespace Completion

/-- The names among candidates that start with a word. -/
def matching (word : String) (candidates : List String) : Set String :=
  {c | c ∈ candidates ∧ word.toList <+: c.toList}

/-- The longest text that all names of a set start with. -/
structure LongestStart (H : Set String) (p : String) : Prop where
  /-- Every name starts with it. -/
  shared : ∀ h ∈ H, p.toList <+: h.toList
  /-- No text that every name starts with is longer. -/
  longest : ∀ q : String, (∀ h ∈ H, q.toList <+: h.toList) → q.toList.length ≤ p.toList.length

/-- What a word leads to when these names start with it, at a number of requests in a row. -/
inductive Answers (word : String) (H : Set String) (presses : Nat) : Suggestion → Prop where
  /-- No name starts with the word. -/
  | nothing (h : H = ∅) : Answers word H presses .bell
  /-- One does, and it is a directory. -/
  | directory {hit : String} (h : H = {hit}) (hslash : hit.toList.getLast? = some '/') :
    Answers word H presses (.replace hit)
  /-- One does, and it is something else. -/
  | single {hit : String} (h : H = {hit}) (hslash : hit.toList.getLast? ≠ some '/') :
    Answers word H presses (.replace (hit ++ " "))
  /-- Several do, and they have more in common than the word. -/
  | extend {p : String} (h : H.Nontrivial) (hp : LongestStart H p) (hne : p ≠ word) :
    Answers word H presses (.replace p)
  /-- Several do that have no more in common, and the request is a repeated one. -/
  | list {hits : List String} (h : H.Nontrivial) (hp : LongestStart H word) (htwo : 2 ≤ presses)
      (hsorted : hits.Pairwise (· < ·)) (hmem : ∀ c, c ∈ hits ↔ c ∈ H) :
    Answers word H presses (.list hits)
  /-- Several do that have no more in common, and the request is the first one. -/
  | ring (h : H.Nontrivial) (hp : LongestStart H word) (hone : presses < 2) :
    Answers word H presses .bell

section Matching

variable {word : String} {candidates : List String}

/-- Only the set of candidates matters for which of them match. -/
theorem matching_congr (word : String) {others : List String}
    (h : ∀ c, c ∈ others ↔ c ∈ candidates) : matching word others = matching word candidates :=
  Set.ext fun c => and_congr_left fun _ => h c

theorem mem_hits {c : String} : c ∈ hits word candidates ↔ c ∈ matching word candidates := by
  rw [hits, Names.mem_sorted, List.mem_filter, Names.startsWith, List.isPrefixOf_iff_prefix]
  rfl

/-- **The hits are the matching names in increasing order.** -/
theorem hits_eq_iff {hs : List String} :
    hits word candidates = hs ↔
      hs.Pairwise (· < ·) ∧ ∀ c, c ∈ hs ↔ c ∈ matching word candidates := by
  rw [hits, Names.sorted_eq_iff]
  refine and_congr_right fun _ => forall_congr' fun c => ?_
  rw [← mem_hits, hits, Names.mem_sorted]

theorem LongestStart.word_isPrefix {p : String} (hp : LongestStart (matching word candidates) p)
    (h : (matching word candidates).Nonempty) : word.toList <+: p.toList := by
  obtain ⟨c, hc⟩ := h
  exact List.prefix_of_prefix_length_le hc.2 (hp.shared c hc) (hp.longest word fun d hd => hd.2)

end Matching

/-- There is one longest start at most, if there is a name at all. -/
theorem LongestStart.unique {H : Set String} {p q : String} (h : H.Nonempty)
    (hp : LongestStart H p) (hq : LongestStart H q) : p = q := by
  obtain ⟨c, hc⟩ := h
  have hstart : p.toList <+: q.toList :=
    List.prefix_of_prefix_length_le (hp.shared c hc) (hq.shared c hc) (hq.longest p hp.shared)
  exact String.toList_inj.1 (hstart.eq_of_length_le (hp.longest q hq.shared))

/-- What the names of a list have in common is their longest start. -/
theorem longestStart_common {H : Set String} {hs : List String} (hne : hs ≠ [])
    (hmem : ∀ c, c ∈ hs ↔ c ∈ H) : LongestStart H (common hs) := by
  obtain ⟨h, hs, rfl⟩ := List.exists_cons_of_ne_nil hne
  have hiff (q : List Char) : q <+: (common (h :: hs)).toList ↔ ∀ c ∈ H, q <+: c.toList := by
    rw [prefix_common_iff]
    exact forall_congr' fun c => by rw [hmem]
  refine ⟨fun c hc => (hiff _).1 List.prefix_rfl c hc, fun q hq => ?_⟩
  exact ((hiff q.toList).2 hq).length_le

/-- Where one text starts with another, having fewer bytes is having fewer characters. -/
theorem utf8ByteSize_lt_iff {s t : String} (h : s.toList <+: t.toList) :
    s.utf8ByteSize < t.utf8ByteSize ↔ s.toList.length < t.toList.length := by
  obtain ⟨rest, hrest⟩ := h
  obtain rfl : s ++ String.ofList rest = t := by
    rw [← String.toList_inj, String.toList_append, String.toList_ofList, hrest]
  rw [String.utf8ByteSize_append, String.toList_append, List.length_append,
    Nat.lt_add_right_iff_pos, Nat.lt_add_right_iff_pos, String.toList_ofList, List.length_pos_iff,
    Nat.pos_iff_ne_zero, ne_eq, String.utf8ByteSize_eq_zero_iff]
  simp

section Suggest

variable {word : String} {candidates : List String} {presses : Nat}

theorem suggest_of_empty (h : matching word candidates = ∅) :
    suggest word candidates presses = .bell := by
  have hhits : hits word candidates = [] :=
    hits_eq_iff.2 ⟨.nil, fun c => by simp [h]⟩
  rw [suggest, hhits]

theorem suggest_of_singleton {hit : String} (h : matching word candidates = {hit}) :
    suggest word candidates presses = .replace (close hit) := by
  have hhits : hits word candidates = [hit] :=
    hits_eq_iff.2 ⟨List.pairwise_singleton _ hit, fun c => by simp [h]⟩
  rw [suggest, hhits]

/-- With several matching names their longest start decides. -/
theorem suggest_of_nontrivial (h : (matching word candidates).Nontrivial) {p : String}
    (hp : LongestStart (matching word candidates) p) :
    suggest word candidates presses =
      if p ≠ word then .replace p
      else if 2 ≤ presses then .list (hits word candidates)
      else .bell := by
  obtain ⟨c, hc, d, hd, hcd⟩ := h
  have hword : word.toList <+: p.toList := hp.word_isPrefix ⟨c, hc⟩
  -- two names are in the list, so it is neither empty nor a single one
  have hc' : c ∈ hits word candidates := mem_hits.2 hc
  have hd' : d ∈ hits word candidates := mem_hits.2 hd
  have hshared : common (hits word candidates) = p := by
    have hlongest := longestStart_common (List.ne_nil_of_mem hc') (fun x => mem_hits (c := x))
    exact LongestStart.unique ⟨c, hc⟩ hlongest hp
  -- the word is a start of what they share, so it is shorter exactly if it is another text
  have hlt : word.toList.length < p.toList.length ↔ p ≠ word := by
    constructor
    · rintro hlt rfl
      omega
    · intro hne
      have hle := hword.length_le
      by_contra hge
      exact hne (String.toList_inj.1 (hword.eq_of_length_le (by omega))).symm
  rw [suggest]
  split
  next hnil => simp [hnil] at hc'
  next hit hone =>
    rw [hone, List.mem_singleton] at hc' hd'
    exact absurd (hc'.trans hd'.symm) hcd
  next =>
    simp only [hshared, utf8ByteSize_lt_iff hword, hlt]

/-- What is suggested is what the rules say. -/
theorem answers_suggest (word : String) (candidates : List String) (presses : Nat) :
    Answers word (matching word candidates) presses (suggest word candidates presses) := by
  rcases (matching word candidates).eq_empty_or_nonempty with hempty | hne
  · rw [suggest_of_empty hempty]
    exact .nothing hempty
  rcases hne.exists_eq_singleton_or_nontrivial with ⟨hit, hone⟩ | hmany
  · rw [suggest_of_singleton hone, close]
    split_ifs with hslash
    · exact .directory hone hslash
    · exact .single hone hslash
  · obtain ⟨c, hc⟩ := hne
    have hp := longestStart_common (List.ne_nil_of_mem (mem_hits.2 hc)) (fun x => mem_hits (c := x))
    rw [suggest_of_nontrivial hmany hp]
    split_ifs with hne htwo
    · exact .extend hmany hp hne
    · rw [not_not.1 hne] at hp
      obtain ⟨hsorted, hmem⟩ := hits_eq_iff.1 (Eq.refl (hits word candidates))
      exact .list hmany hp htwo hsorted hmem
    · rw [not_not.1 hne] at hp
      exact .ring hmany hp (by omega)

/-- The rules leave no choice. -/
theorem suggest_of_answers {a : Suggestion}
    (h : Answers word (matching word candidates) presses a) :
    suggest word candidates presses = a := by
  cases h with
  | nothing h => exact suggest_of_empty h
  | directory h hslash => rw [suggest_of_singleton h, close, if_pos hslash]
  | single h hslash => rw [suggest_of_singleton h, close, if_neg hslash]
  | extend h hp hne => rw [suggest_of_nontrivial h hp, if_pos hne]
  | list h hp htwo hsorted hmem =>
    rw [suggest_of_nontrivial h hp, if_neg (not_not.2 rfl), if_pos htwo,
      hits_eq_iff.2 ⟨hsorted, hmem⟩]
  | ring h hp hone =>
    rw [suggest_of_nontrivial h hp, if_neg (not_not.2 rfl), if_neg (by omega)]

/-- What is suggested hangs on which candidates there are. -/
theorem suggest_congr {others : List String} (h : ∀ c, c ∈ others ↔ c ∈ candidates) :
    suggest word others presses = suggest word candidates presses := by
  refine suggest_of_answers ?_
  rw [matching_congr word h]
  exact answers_suggest word candidates presses

/-- What a word is replaced by starts with it. -/
theorem word_prefix_of_replace {text : String}
    (h : suggest word candidates presses = .replace text) : word.toList <+: text.toList := by
  have ha := answers_suggest word candidates presses
  rw [h] at ha
  cases ha with
  | directory hone _ =>
    have hmem : text ∈ matching word candidates := hone ▸ rfl
    exact hmem.2
  | @single hit hone _ =>
    have hmem : hit ∈ matching word candidates := hone ▸ rfl
    rw [String.toList_append]
    exact hmem.2.trans (List.prefix_append ..)
  | extend hmany hp _ => exact hp.word_isPrefix hmany.nonempty

end Suggest

/-- **Completion follows its rules.** For every word, all candidates in whatever order and however
often, and every number of requests, what is suggested is what the rules say about the set of
candidates that start with the word, and nothing else is. If these are several there is one longest
text that all of them start with, and it starts with the word. So what is suggested hangs on the set
of candidates alone, and what replaces the word always starts with it. -/
theorem suggest_follows_rules (word : String) (candidates : List String) (presses : Nat) :
    (∀ a, suggest word candidates presses = a ↔
      Answers word (matching word candidates) presses a) ∧
    ((matching word candidates).Nontrivial →
      ∃ p, LongestStart (matching word candidates) p ∧ word.toList <+: p.toList ∧
        ∀ q, LongestStart (matching word candidates) q → q = p) ∧
    (∀ others : List String, (∀ c, c ∈ others ↔ c ∈ candidates) →
      suggest word others presses = suggest word candidates presses) ∧
    ∀ text, suggest word candidates presses = .replace text → word.toList <+: text.toList := by
  refine ⟨fun a => ⟨?_, suggest_of_answers⟩, fun hmany => ?_, fun others => suggest_congr,
    fun text => word_prefix_of_replace⟩
  · rintro rfl
    exact answers_suggest word candidates presses
  · obtain ⟨c, hc⟩ := hmany.nonempty
    have hp := longestStart_common (List.ne_nil_of_mem (mem_hits.2 hc)) (fun x => mem_hits (c := x))
    exact ⟨_, hp, hp.word_isPrefix hmany.nonempty, fun q hq => hq.unique hmany.nonempty hp⟩

/-- A character of several bytes counts as one, and so does a candidate that comes twice. -/
example : suggest "h" ["hélp", "héllo", "hélp"] 1 = .replace "hél" := by decide +kernel

end Completion
end LineShell
