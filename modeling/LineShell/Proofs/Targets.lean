import LineShell.Proofs.Calls

/-!
# Targets that can be opened and targets that cannot

Of the two targets of a redirection that of standard output is opened first, and that of standard
error on the machine that this leaves. `Redirection.Openable` says that this goes well for each
target there is, `Redirection.Blocked` how it comes to an end otherwise, and one of the two is
always the case (`not_openable_iff`). The calls that have been made by then, in either case, are
told by `Redirection.Trial`.
-/

namespace LineShell

variable {σ : Type} [Host σ]

namespace Target

theorem openIn?_ok_iff {cwd : String} {t : Option Target} {s : σ} :
    (∃ file, (openIn? cwd t s).1 = .ok file) ↔
      ∀ t' ∈ t, ∃ file, (t'.openIn cwd s).1 = .ok file := by
  cases t with
  | none => simp [openIn?_none]
  | some t =>
    simp only [openIn?_some, Option.mem_some_iff, forall_eq']
    rcases t.openIn cwd s with ⟨e | file, s'⟩ <;> simp

theorem openIn?_eq_error_iff {cwd : String} {t : Option Target} {s s' : σ} {e : ProcessError} :
    openIn? cwd t s = (.error e, s') ↔ ∃ t', t = some t' ∧ t'.openIn cwd s = (.error e, s') := by
  cases t with
  | none => simp [openIn?_none]
  | some t =>
    rcases h : t.openIn cwd s with ⟨e' | file, s''⟩ <;> simp [openIn?_some, h]

end Target

namespace Redirection

/-- Each target of a redirection can be opened from a directory when its turn comes. -/
structure Openable (cwd : String) (r : Redirection) (s : σ) : Prop where
  /-- The target of standard output can be opened. -/
  stdout : ∀ t ∈ r.stdout, ∃ file, (t.openIn cwd s).1 = .ok file
  /-- Then the target of standard error can be opened. -/
  stderr : ∀ t ∈ r.stderr, ∃ file, (t.openIn cwd (Target.openIn? cwd r.stdout s).2).1 = .ok file

/-- A target of a redirection cannot be opened from a directory: why not, and the machine that the
attempt leaves. -/
inductive Blocked (cwd : String) (r : Redirection) (s : σ) : ProcessError → σ → Prop where
  /-- The target of standard output cannot be opened. -/
  | stdout {t : Target} {e : ProcessError} {s' : σ} (ht : r.stdout = some t)
      (h : t.openIn cwd s = (.error e, s')) : Blocked cwd r s e s'
  /-- The target of standard output can be opened, if there is one, and then that of standard error
  cannot. -/
  | stderr {out : Option Handle} {t : Target} {e : ProcessError} {s₁ s' : σ}
      (hout : Target.openIn? cwd r.stdout s = (.ok out, s₁)) (ht : r.stderr = some t)
      (h : t.openIn cwd s₁ = (.error e, s')) : Blocked cwd r s e s'

theorem openable_iff {cwd : String} {r : Redirection} {s : σ} :
    r.Openable cwd s ↔ ∃ files s', Target.openBoth cwd r s = (.ok files, s') := by
  have hsplit : r.Openable cwd s ↔ (∃ out, (Target.openIn? cwd r.stdout s).1 = .ok out) ∧
      ∃ err, (Target.openIn? cwd r.stderr (Target.openIn? cwd r.stdout s).2).1 = .ok err := by
    rw [Target.openIn?_ok_iff, Target.openIn?_ok_iff]
    exact ⟨fun h => ⟨h.stdout, h.stderr⟩, fun h => ⟨h.1, h.2⟩⟩
  rw [hsplit, Target.openBoth]
  rcases Target.openIn? cwd r.stdout s with ⟨e | out, s₁⟩
  · simp
  · rcases he : Target.openIn? cwd r.stderr s₁ with ⟨e | err, s₂⟩ <;> simp [he]

theorem blocked_iff {cwd : String} {r : Redirection} {s s' : σ} {e : ProcessError} :
    r.Blocked cwd s e s' ↔ Target.openBoth cwd r s = (.error e, s') := by
  rw [Target.openBoth]
  constructor
  · intro h
    cases h with
    | stdout ht h => rw [Target.openIn?_eq_error_iff.2 ⟨_, ht, h⟩]
    | stderr hout ht h => simp only [hout, Target.openIn?_eq_error_iff.2 ⟨_, ht, h⟩]
  · intro h
    rcases ho : Target.openIn? cwd r.stdout s with ⟨e' | out, s₁⟩
    · obtain ⟨rfl, rfl⟩ : e' = e ∧ s₁ = s' := by simpa [ho] using h
      obtain ⟨t, ht, hopen⟩ := Target.openIn?_eq_error_iff.1 ho
      exact .stdout ht hopen
    · rcases he : Target.openIn? cwd r.stderr s₁ with ⟨e' | err, s₂⟩
      · obtain ⟨rfl, rfl⟩ : e' = e ∧ s₂ = s' := by simpa [ho, he] using h
        obtain ⟨t, ht, hopen⟩ := Target.openIn?_eq_error_iff.1 he
        exact .stderr ho ht hopen
      · simp [ho, he] at h

/-- Either all targets can be opened or one of them blocks. -/
theorem not_openable_iff {cwd : String} {r : Redirection} {s : σ} :
    ¬ r.Openable cwd s ↔ ∃ e s', r.Blocked cwd s e s' := by
  simp only [openable_iff, blocked_iff]
  rcases Target.openBoth cwd r s with ⟨e | files, s'⟩ <;> simp

/-- The calls by which the targets of a redirection are tried from a directory, that of standard
output first, and what comes of it. -/
inductive Trial (cwd : String) (r : Redirection) :
    Except ProcessError (Option Handle × Option Handle) → List Call → Prop where
  /-- Both are opened, as far as there are any. -/
  | opened {out err : Option Handle} {outCalls errCalls : List Call}
      (hout : Target.Opening cwd r.stdout out outCalls)
      (herr : Target.Opening cwd r.stderr err errCalls) :
    Trial cwd r (.ok (out, err)) (outCalls ++ errCalls)
  /-- The target of standard output is refused, and that of standard error is not tried. -/
  | stdout {t : Target} {cause : OsError} {calls : List Call} (ht : r.stdout = some t)
      (h : t.Refusal cwd cause calls) : Trial cwd r (.error (.redirect t.path cause)) calls
  /-- The target of standard error is refused. -/
  | stderr {out : Option Handle} {outCalls : List Call} {t : Target} {cause : OsError}
      {calls : List Call} (hout : Target.Opening cwd r.stdout out outCalls)
      (ht : r.stderr = some t) (h : t.Refusal cwd cause calls) :
    Trial cwd r (.error (.redirect t.path cause)) (outCalls ++ calls)

/-- Trying the targets of a redirection makes the calls of a trial. -/
theorem trial_of_openBoth {cwd : String} {r : Redirection} {r₀ r₁ : Recorded σ}
    {result : Except ProcessError (Option Handle × Option Handle)}
    (h : Target.openBoth cwd r r₀ = (result, r₁)) :
    ∃ calls, Trial cwd r result calls ∧ r₁.calls = r₀.calls ++ calls := by
  cases result with
  | ok files =>
    obtain ⟨outCalls, errCalls, hout, herr, hcalls⟩ := Target.opening_of_openBoth h
    exact ⟨_, .opened hout herr, hcalls⟩
  | error e =>
    rw [Target.openBoth] at h
    rcases ho : Target.openIn? cwd r.stdout r₀ with ⟨e' | out, r₂⟩
    · obtain ⟨rfl, rfl⟩ : e' = e ∧ r₂ = r₁ := by simpa [ho] using h
      obtain ⟨t, cause, calls, ht, rfl, hrefusal, hcalls⟩ := Target.refusal_of_openIn? ho
      exact ⟨calls, .stdout ht hrefusal, hcalls⟩
    · rcases he : Target.openIn? cwd r.stderr r₂ with ⟨e' | err, r₃⟩
      · obtain ⟨rfl, rfl⟩ : e' = e ∧ r₃ = r₁ := by simpa [ho, he] using h
        obtain ⟨outCalls, hout, hcalls⟩ := Target.opening_of_openIn? ho
        obtain ⟨t, cause, calls, ht, rfl, hrefusal, hcalls'⟩ := Target.refusal_of_openIn? he
        exact ⟨_, .stderr hout ht hrefusal, by rw [hcalls', hcalls, List.append_assoc]⟩
      · simp [ho, he] at h

/-- On record, trying the targets comes to the same as on the machine itself, by the calls of a
trial. -/
theorem exists_trial (cwd : String) (r : Redirection) (s : σ) :
    ∃ result s₁ tried, Target.openBoth cwd r s = (result, s₁) ∧
      Target.openBoth cwd r ({ machine := s } : Recorded σ) = (result, ⟨s₁, tried⟩) ∧
      Trial cwd r result tried := by
  rcases ho : Target.openBoth cwd r ({ machine := s } : Recorded σ) with ⟨result, r₁⟩
  obtain ⟨tried, htrial, hcalls⟩ := trial_of_openBoth ho
  have hmap : Target.openBoth cwd r s = _ :=
    Target.openBoth_map Recorded.forget cwd r { machine := s }
  refine ⟨result, r₁.machine, tried, hmap.trans (by rw [ho]; rfl), ?_, htrial⟩
  rw [List.nil_append] at hcalls
  rw [← hcalls]

/-- A trial opens and does nothing else. -/
theorem Trial.opens {cwd : String} {r : Redirection}
    {result : Except ProcessError (Option Handle × Option Handle)} {calls : List Call}
    (h : Trial cwd r result calls) : ∀ call ∈ calls, call.opens := by
  have hopening {t : Option Target} {file : Option Handle} {calls : List Call}
      (h : Target.Opening cwd t file calls) : ∀ call ∈ calls, call.opens := by
    intro call hcall
    obtain ⟨t', -, ht'⟩ := h.opens call hcall
    exact ht'.opens
  have hrefusal {t : Target} {cause : OsError} {calls : List Call}
      (h : t.Refusal cwd cause calls) : ∀ call ∈ calls, call.opens :=
    fun call hcall => (h.opens call hcall).opens
  cases h with
  | opened hout herr => exact List.forall_mem_append.2 ⟨hopening hout, hopening herr⟩
  | stdout _ h => exact hrefusal h
  | stderr hout _ h => exact List.forall_mem_append.2 ⟨hopening hout, hrefusal h⟩

/-- A trial starts nothing. -/
theorem Trial.not_starts {cwd : String} {r : Redirection}
    {result : Except ProcessError (Option Handle × Option Handle)} {calls : List Call}
    (h : Trial cwd r result calls) : ∀ call ∈ calls, call.starts = false :=
  fun call hcall => (Call.other_of_opens (h.opens call hcall)).1

/-- With a target for standard output a trial opens something, or tries to. -/
theorem Trial.exists_opens {cwd : String} {r : Redirection} {t : Target}
    {result : Except ProcessError (Option Handle × Option Handle)} {calls : List Call}
    (h : r.Trial cwd result calls) (ht : r.stdout = some t) : ∃ call ∈ calls, call.opens := by
  have hopening {out : Option Handle} {outCalls : List Call}
      (hout : Target.Opening cwd r.stdout out outCalls) : ∃ call ∈ outCalls, call.opens := by
    rw [ht] at hout
    cases hout
    exact ⟨_, List.mem_append_right _ (List.mem_singleton_self _), rfl⟩
  cases h with
  | opened hout | stderr hout =>
    obtain ⟨call, hcall, hopens⟩ := hopening hout
    exact ⟨call, List.mem_append_left _ hcall, hopens⟩
  | stdout _ hrefusal =>
    obtain ⟨call, hcall, -⟩ := hrefusal.exists_fails
    exact ⟨call, hcall, (hrefusal.opens call hcall).opens⟩

/-- Targets that can be opened are opened on record, and this starts nothing. -/
theorem Openable.exists_recorded {cwd : String} {r : Redirection} {s : σ}
    (h : r.Openable cwd s) :
    ∃ files s₁ tried, Target.openBoth cwd r ({ machine := s } : Recorded σ) =
      (.ok files, ⟨s₁, tried⟩) ∧ ∀ call ∈ tried, call.starts = false := by
  obtain ⟨files, s₁, hopen⟩ := openable_iff.1 h
  obtain ⟨result, s₂, tried, hopen', hrecord, htried⟩ := exists_trial cwd r s
  obtain rfl : result = .ok files := (Prod.mk.inj (hopen'.symm.trans hopen)).1
  exact ⟨files, s₂, tried, hrecord, htried.not_starts⟩

/-- The targets that a stage of a pipeline uses: that of standard output only if it is the last. -/
def used (r : Redirection) (last : Bool) : Redirection :=
  { r with stdout := if last then r.stdout else none }

end Redirection

/-- A program of a pipeline opens the targets that it uses as any command opens its own. -/
theorem Pipeline.openOutputs_eq (st : State) (inv : Invocation) (last : Bool) (s : σ) :
    openOutputs st inv last s =
      match Target.openBoth st.cwd (inv.redirection.used last) s with
      | (.error e, s) => (.error e, s)
      | (.ok (out, err), s) => (.ok (if last then .ofTarget out else .pipe, .ofTarget err), s) := by
  cases last with
  | false =>
    simp only [openOutputs, openStdout, Target.openBoth, Redirection.used, Bool.false_eq_true,
      if_false, Target.openIn?_none]
    rcases Target.openIn? st.cwd inv.redirection.stderr s with ⟨e | err, s₁⟩ <;> rfl
  | true =>
    simp only [openOutputs, openStdout, Target.openBoth, Redirection.used, if_true]
    rcases Target.openIn? st.cwd inv.redirection.stdout s with ⟨e | out, s₁⟩
    · rfl
    · rcases he : Target.openIn? st.cwd inv.redirection.stderr s₁ with ⟨e | err, s₂⟩ <;>
        simp only [he]

end LineShell
