import LineShell.Proofs.Suggestions
import Mathlib.Data.List.Infix
import Mathlib.Order.Bounds.Defs

/-!
# The bell first, then the list

Requests come one after the other, and now and then all of them are forgotten. The count of a
request is the length of the longest run of requests for the same text that ends with it
(`isGreatest_streak`). `streak_apply` says what one request makes of such a run, whatever the text:
it goes on, or it starts over. That nothing has been asked for yet and that the empty text was asked
for are both kept as an empty text, but they differ in the count.

From this come the two halves of the protocol. A list is shown only at a repeated request
(`exists_getLast?_of_list`). And a word that several names start with is first completed to what
they have in common. This keeps the set of names (`matching_of_longestStart`) and cannot be
completed further, so that the next request rings the bell and the one after it lists the names
(`rings_then_lists`).
-/

namespace LineShell
namespace Completion

/-- What can be asked of the count of requests. -/
inductive Request where
  /-- A request for a text is counted. -/
  | register (text : String)
  /-- A request for a text is counted and answered. -/
  | complete (text word : String) (candidates : List String)
  /-- The requests are forgotten. -/
  | reset
  deriving DecidableEq, Repr

namespace Request

/-- The text that a request is for, if it is for one. -/
def text? : Request → Option String
  | register text => some text
  | complete text _ _ => some text
  | reset => none

/-- What a request makes of the count. -/
def apply : Request → Presses → Presses
  | register text, p => p.press text
  | complete text word candidates, p => (p.complete text word candidates).2
  | reset, p => p.reset

end Request

namespace Presses

/-- The count after requests, the first one at the front. -/
def after (rs : List Request) : Presses :=
  rs.foldl (fun p r => r.apply p) {}

theorem after_concat (rs : List Request) (r : Request) : after (rs ++ [r]) = r.apply (after rs) := by
  simp [after]

/-- How many of the requests in a row are for a text. -/
def streak (p : Presses) (text : String) : Nat :=
  if p.text = text then p.count else 0

theorem text_press (p : Presses) (text : String) : (p.press text).text = text := by
  rw [press]
  split_ifs with h
  · exact h.2
  · rfl

/-- One more request for a text is one more in a row. -/
theorem count_press (p : Presses) (text : String) : (p.press text).count = p.streak text + 1 := by
  rw [press, streak]
  by_cases htext : p.text = text
  · by_cases hpos : 0 < p.count
    · rw [if_pos ⟨hpos, htext⟩, if_pos htext]
    · have hzero : p.count = 0 := by omega
      rw [if_neg fun h => hpos h.1, if_pos htext, hzero]
  · rw [if_neg fun h => htext h.2, if_neg htext]

theorem apply_of_text? {r : Request} {text : String} (h : r.text? = some text) (p : Presses) :
    r.apply p = p.press text := by
  cases r with
  | register => rw [Option.some.inj h.symm]; rfl
  | complete => rw [Option.some.inj h.symm]; rfl
  | reset => cases h

/-- **What a request makes of a run.** -/
theorem streak_apply (r : Request) (p : Presses) (text : String) :
    (r.apply p).streak text = if r.text? = some text then p.streak text + 1 else 0 := by
  cases hr : r.text? with
  | none =>
    cases r with
    | reset => simp [Request.apply, reset, streak]
    | register => cases hr
    | complete => cases hr
  | some other =>
    rw [apply_of_text? hr, streak, text_press, count_press]
    by_cases hother : other = text
    · rw [if_pos hother, if_pos (congrArg some hother), hother]
    · have hne : some other ≠ some text := fun h => hother (Option.some.inj h)
      rw [if_neg hother, if_neg hne]

/-- The lengths of the runs of requests for a text at the end of requests. -/
def runs (rs : List Request) (text : String) : Set Nat :=
  {n | ∃ block, block <:+ rs ∧ block.length = n ∧ ∀ r ∈ block, r.text? = some text}

theorem zero_mem_runs (rs : List Request) (text : String) : 0 ∈ runs rs text :=
  ⟨[], List.nil_suffix, rfl, List.forall_mem_nil _⟩

/-- A run at the end of one more request is empty, or it is one longer and the request is for the
text. -/
theorem succ_mem_runs_concat {rs : List Request} {r : Request} {text : String} {n : Nat} :
    n + 1 ∈ runs (rs ++ [r]) text ↔ r.text? = some text ∧ n ∈ runs rs text := by
  constructor
  · rintro ⟨block, hsuffix, hlen, hblock⟩
    rcases List.suffix_concat_iff.1 hsuffix with rfl | ⟨front, rfl, hfront⟩
    · cases hlen
    · rw [List.forall_mem_append, List.forall_mem_singleton] at hblock
      rw [List.length_append, List.length_singleton] at hlen
      exact ⟨hblock.2, front, hfront, by omega, hblock.1⟩
  · rintro ⟨hr, block, hsuffix, rfl, hblock⟩
    refine ⟨block ++ [r], List.suffix_concat_iff.2 (.inr ⟨block, rfl, hsuffix⟩), ?_, ?_⟩
    · rw [List.length_append, List.length_singleton]
    · rw [List.forall_mem_append, List.forall_mem_singleton]
      exact ⟨hblock, hr⟩

/-- **The longest run for a text at the end of requests.** -/
theorem isGreatest_streak (rs : List Request) (text : String) :
    IsGreatest (runs rs text) ((after rs).streak text) := by
  induction rs using List.reverseRecOn with
  | nil =>
    have hzero : (after []).streak text = 0 := by
      simp [after, streak]
    rw [hzero]
    refine ⟨zero_mem_runs [] text, ?_⟩
    rintro n ⟨block, hsuffix, rfl, -⟩
    exact hsuffix.length_le
  | append_singleton rs r ih =>
    rw [after_concat, streak_apply]
    split_ifs with hr
    · refine ⟨succ_mem_runs_concat.2 ⟨hr, ih.1⟩, fun n hn => ?_⟩
      cases n with
      | zero => exact Nat.zero_le _
      | succ n => exact Nat.succ_le_succ (ih.2 (succ_mem_runs_concat.1 hn).2)
    · refine ⟨zero_mem_runs _ text, fun n hn => ?_⟩
      cases n with
      | zero => exact Nat.le_refl 0
      | succ n => exact absurd (succ_mem_runs_concat.1 hn).1 hr

/-- The count of a request is the length of the longest run that ends with it. -/
theorem isGreatest_count (rs : List Request) {r : Request} {text : String}
    (hr : r.text? = some text) :
    IsGreatest (runs (rs ++ [r]) text) ((after rs).press text).count := by
  have hrun := isGreatest_streak (rs ++ [r]) text
  rwa [after_concat, streak_apply, if_pos hr, ← count_press] at hrun

end Presses

open Presses

/-- Names are listed only at a repeated request. -/
theorem two_le_of_list {word : String} {candidates hits : List String} {presses : Nat}
    (h : suggest word candidates presses = .list hits) : 2 ≤ presses := by
  have ha := answers_suggest word candidates presses
  rw [h] at ha
  cases ha with
  | list _ _ htwo _ _ => exact htwo

/-- Names are listed only if the request right before was for the same text. -/
theorem exists_getLast?_of_list {rs : List Request} {text word : String}
    {candidates hits : List String}
    (h : ((after rs).complete text word candidates).1 = .list hits) :
    ∃ r, rs.getLast? = some r ∧ r.text? = some text := by
  have htwo : 2 ≤ ((after rs).press text).count := two_le_of_list h
  rw [count_press] at htwo
  obtain ⟨block, hsuffix, hlen, hblock⟩ := (isGreatest_streak rs text).1
  -- the run before the request is not empty, and it ends where the requests end
  rcases List.eq_nil_or_concat block with rfl | ⟨front, r, rfl⟩
  · rw [List.length_nil] at hlen
    omega
  · obtain ⟨older, rfl⟩ := hsuffix
    rw [List.concat_eq_append] at hblock ⊢
    refine ⟨r, ?_, hblock r (by simp)⟩
    rw [← List.append_assoc, List.getLast?_concat]

/-- Completing a word to what the matching names have in common keeps these names. -/
theorem matching_of_longestStart {word text : String} {candidates : List String}
    (h : (matching word candidates).Nonempty)
    (hp : LongestStart (matching word candidates) text) :
    matching text candidates = matching word candidates := by
  ext c
  constructor
  · rintro ⟨hc, htext⟩
    exact ⟨hc, (hp.word_isPrefix h).trans htext⟩
  · intro hc
    exact ⟨hc.1, hp.shared c hc⟩

/-- A word that several names start with is replaced by what they have in common, if by
anything. -/
theorem longestStart_of_replace {word text : String} {candidates : List String} {presses : Nat}
    (hmany : (matching word candidates).Nontrivial)
    (h : suggest word candidates presses = .replace text) :
    LongestStart (matching word candidates) text ∧ text ≠ word := by
  have ha := answers_suggest word candidates presses
  rw [h] at ha
  cases ha with
  | directory hone _ => exact absurd hmany (hone ▸ Set.not_nontrivial_singleton)
  | single hone _ => exact absurd hmany (hone ▸ Set.not_nontrivial_singleton)
  | extend _ hp hne => exact ⟨hp, hne⟩

/-- **After an expansion the bell rings, and then the names are listed.** -/
theorem rings_then_lists {p p₁ : Presses} {head word text : String}
    {candidates second third : List String} (hmany : (matching word candidates).Nontrivial)
    (hsecond : ∀ c, c ∈ second ↔ c ∈ candidates) (hthird : ∀ c, c ∈ third ↔ c ∈ candidates)
    (h : p.complete (head ++ word) word candidates = (.replace text, p₁)) :
    ∃ p₂ p₃, p₁.complete (head ++ text) text second = (.bell, p₂) ∧
      p₂.complete (head ++ text) text third = (.list (hits word candidates), p₃) := by
  obtain ⟨hreplace, rfl⟩ := Prod.mk.inj h
  obtain ⟨hp, hne⟩ := longestStart_of_replace hmany hreplace
  have hkeeps : matching text candidates = matching word candidates :=
    matching_of_longestStart hmany.nonempty hp
  have hhits : hits text candidates = hits word candidates := by
    rw [hits_eq_iff, hkeeps]
    exact hits_eq_iff.1 rfl
  rw [← hkeeps] at hmany hp
  have hsuggest (n : Nat) : suggest text candidates n =
      if 2 ≤ n then .list (hits word candidates) else .bell := by
    rw [suggest_of_nontrivial hmany hp, if_neg (not_not.2 rfl), hhits]
  -- the text before the cursor has changed, so that the count starts over
  have hchanged : head ++ word ≠ head ++ text := by
    intro heq
    have htext := congrArg String.toList heq
    rw [String.toList_append, String.toList_append] at htext
    exact hne (String.toList_inj.1 (List.append_cancel_left htext)).symm
  have hfirst : ((p.press (head ++ word)).press (head ++ text)).count = 1 := by
    rw [count_press, streak, text_press, if_neg hchanged]
  have hagain :
      (((p.press (head ++ word)).press (head ++ text)).press (head ++ text)).count = 2 := by
    rw [count_press, streak, text_press, if_pos rfl, hfirst]
  refine ⟨_, _, Prod.ext ?_ rfl, Prod.ext ?_ rfl⟩
  · change suggest text second ((p.press (head ++ word)).press (head ++ text)).count = .bell
    rw [suggest_congr hsecond, hsuggest, hfirst]
    rfl
  · change suggest text third
      (((p.press (head ++ word)).press (head ++ text)).press (head ++ text)).count = _
    rw [suggest_congr hthird, hsuggest, hagain]
    rfl

/-- **The bell first, then the list.** Take any requests on a new count, some of which may forget
those before. The count of the next one, also for the empty text and right after all have been
forgotten, is the length of the longest run of requests for the same text that ends with it, and the
answer is what is suggested at that count. Names are listed only if the request right before was for
the same text. And when a word is completed to what several names have in common, the next request
for what stands then before the cursor rings the bell, and the one after it lists just the names
that start with the word, in increasing order. In these requests the candidates may come in any
order, and repeated. -/
theorem bell_then_list :
    (∀ (rs : List Request) (r : Request) (text : String), r.text? = some text →
      r.apply (after rs) = (after rs).press text ∧
      IsGreatest {n | ∃ block, block <:+ rs ++ [r] ∧ block.length = n ∧
        ∀ q ∈ block, q.text? = some text} ((after rs).press text).count) ∧
    (∀ (rs : List Request) (text word : String) (candidates : List String),
      (after rs).complete text word candidates =
        (suggest word candidates ((after rs).press text).count, (after rs).press text)) ∧
    (∀ (rs : List Request) (text word : String) (candidates hits : List String),
      ((after rs).complete text word candidates).1 = .list hits →
      ∃ r, rs.getLast? = some r ∧ r.text? = some text) ∧
    ∀ (rs : List Request) (head word text : String) (candidates second third : List String)
      (p₁ : Presses), (matching word candidates).Nontrivial →
      (∀ c, c ∈ second ↔ c ∈ candidates) → (∀ c, c ∈ third ↔ c ∈ candidates) →
      (after rs).complete (head ++ word) word candidates = (.replace text, p₁) →
      ∃ p₂ p₃ hits, p₁.complete (head ++ text) text second = (.bell, p₂) ∧
        p₂.complete (head ++ text) text third = (.list hits, p₃) ∧
        hits.Pairwise (· < ·) ∧ ∀ c, c ∈ hits ↔ c ∈ candidates ∧ word.toList <+: c.toList := by
  refine ⟨fun rs r text hr => ⟨apply_of_text? hr _, isGreatest_count rs hr⟩,
    fun rs text word candidates => rfl, fun rs text word candidates hits => exists_getLast?_of_list,
    ?_⟩
  intro rs head word text candidates second third p₁ hmany hsecond hthird h
  obtain ⟨p₂, p₃, hbell, hlist⟩ := rings_then_lists hmany hsecond hthird h
  obtain ⟨hsorted, hmem⟩ := hits_eq_iff.1 (Eq.refl (hits word candidates))
  exact ⟨p₂, p₃, _, hbell, hlist, hsorted, hmem⟩

/-- After a request for the empty text that was forgotten, `cat xyz` becomes `cat xyz_ba`, the bell
rings and two names are listed, one of which was found twice. -/
theorem bell_then_list_twice :
    let names := ["xyz_baz", "other", "xyz_bar", "xyz_baz"]
    ∃ p₁ p₂ p₃ hits,
      (after [.register "", .reset]).complete ("cat " ++ "xyz") "xyz" names =
        (.replace "xyz_ba", p₁) ∧
      p₁.complete ("cat " ++ "xyz_ba") "xyz_ba" names = (.bell, p₂) ∧
      p₂.complete ("cat " ++ "xyz_ba") "xyz_ba" names = (.list hits, p₃) ∧
      hits.Pairwise (· < ·) ∧ ∀ c, c ∈ hits ↔ c ∈ names ∧ "xyz".toList <+: c.toList := by
  intro names
  have hmany : (matching "xyz" names).Nontrivial :=
    ⟨"xyz_baz", ⟨by decide, by decide⟩, "xyz_bar", ⟨by decide, by decide⟩, by decide⟩
  have hreplace : (after [.register "", .reset]).complete ("cat " ++ "xyz") "xyz" names =
      (.replace "xyz_ba", ⟨"cat xyz", 1⟩) := by decide +kernel
  obtain ⟨p₂, p₃, hits, hsteps⟩ := bell_then_list.2.2.2 [.register "", .reset] "cat " "xyz" "xyz_ba"
    names names names _ hmany (fun _ => Iff.rfl) (fun _ => Iff.rfl) hreplace
  exact ⟨_, p₂, p₃, hits, hreplace, hsteps⟩

end Completion
end LineShell
