import LineShell.Proofs.Recording

/-!
# The calls that the parts of the shell make

For each part of the shell that acts on the machine: which calls it can make at all, and where it
matters exactly which ones it has made when it succeeds. A target is opened by making the directory
above it and then the file (`Target.Opening`). A builtin by itself only writes files. With targets
it opens these first, and it prints only if it has none for its standard output. A program of a
pipeline is started after its targets have been opened, and of these there is one for standard
output only in the last stage (`Pipeline.calls_of_startStage`).
-/

namespace LineShell
namespace Call

/-- Whether the call opens a file or makes directories for one. -/
def opens : Call → Bool
  | makeDirs _ _ => true
  | create _ _ _ => true
  | _ => false

/-- Whether the call writes to an open file. -/
def fills : Call → Bool
  | write _ _ _ => true
  | _ => false

/-- Whether the call writes to an open file or to the shell's standard error. -/
def writes : Call → Bool
  | write _ _ _ => true
  | complain _ => true
  | _ => false

/-- Whether the call writes to the shell's standard output. -/
def prints : Call → Bool
  | print _ _ => true
  | _ => false

/-- Whether the call starts a program. -/
def starts : Call → Bool
  | start _ _ => true
  | _ => false

/-- Whether the call opens or starts something in vain. -/
def fails : Call → Bool
  | makeDirs _ (.error _) => true
  | create _ _ (.error _) => true
  | start _ (.error _) => true
  | _ => false

theorem other_of_opens {call : Call} (h : call.opens) :
    call.starts = false ∧ call.prints = false := by
  cases call <;> first | exact ⟨rfl, rfl⟩ | cases h

theorem writes_of_fills {call : Call} (h : call.fills) : call.writes := by
  cases call <;> first | rfl | cases h

theorem other_of_writes {call : Call} (h : call.writes) :
    call.starts = false ∧ call.prints = false ∧ call.opens = false := by
  cases call <;> first | exact ⟨rfl, rfl, rfl⟩ | cases h

theorem filter_starts_eq_nil {calls : List Call} (h : ∀ call ∈ calls, call.starts = false) :
    calls.filter Call.starts = [] :=
  List.filter_eq_nil_iff.2 fun call hcall => by simp [h call hcall]

end Call

variable {σ : Type}

namespace Recorded

/-- Between two records only calls of a kind were made. -/
def Adds (P : Call → Prop) (r r' : Recorded σ) : Prop :=
  ∃ new, r'.calls = r.calls ++ new ∧ ∀ call ∈ new, P call

namespace Adds

variable {P Q : Call → Prop} {r r' r'' : Recorded σ}

theorem refl (P : Call → Prop) (r : Recorded σ) : Adds P r r :=
  ⟨[], by simp, by simp⟩

theorem one {call : Call} (h : r'.calls = r.calls ++ [call]) (hcall : P call) : Adds P r r' :=
  ⟨[call], h, by simpa using hcall⟩

theorem trans (h : Adds P r r') (h' : Adds P r' r'') : Adds P r r'' := by
  obtain ⟨new, hnew, hP⟩ := h
  obtain ⟨new', hnew', hP'⟩ := h'
  refine ⟨new ++ new', by rw [hnew', hnew, List.append_assoc], fun call hc => ?_⟩
  exact (List.mem_append.1 hc).elim (hP call) (hP' call)

theorem mono (h : Adds P r r') (hPQ : ∀ call, P call → Q call) : Adds Q r r' :=
  h.imp fun _ hnew => ⟨hnew.1, fun call hc => hPQ call (hnew.2 call hc)⟩

/-- On a record that was empty all calls are of the kind. -/
theorem forall_mem {s : σ} (h : Adds P { machine := s } r') : ∀ call ∈ r'.calls, P call := by
  obtain ⟨new, hnew, hP⟩ := h
  rwa [hnew, List.nil_append]

end Adds

variable [Host σ]

/-- A message adds one call. -/
theorem adds_complainLine (message : String) (r : Recorded σ) :
    Adds (·.writes) r (Host.complainLine message r) :=
  .one rfl rfl

end Recorded

open Recorded

variable [Host σ]

namespace Target

theorem openIn?_none (cwd : String) (s : σ) : openIn? cwd none s = (.ok none, s) := rfl

theorem openIn?_some (cwd : String) (t : Target) (s : σ) :
    openIn? cwd (some t) s =
      match t.openIn cwd s with
      | (.error e, s) => (.error e, s)
      | (.ok h, s) => (.ok (some h), s) := rfl

/-- The calls by which a target can be opened. -/
def Opens (cwd : String) (t : Target) : Call → Prop
  | .makeDirs dir _ => Path.parent? (Path.join cwd t.path) = some dir
  | .create path mode _ => path = Path.join cwd t.path ∧ mode = t.mode
  | _ => False

theorem Opens.opens {cwd : String} {t : Target} {call : Call} (h : t.Opens cwd call) :
    call.opens := by
  cases call <;> first | rfl | exact absurd h id

/-- The calls that have opened a target, if there is one. -/
inductive Opening (cwd : String) : Option Target → Option Handle → List Call → Prop where
  /-- There is nothing to open. -/
  | none : Opening cwd none none []
  /-- The directory above the target is made, if there can be one, and then the file. -/
  | some (t : Target) (h : Handle) :
    Opening cwd (some t) (some h)
      ((Path.parent? (Path.join cwd t.path)).toList.map (Call.makeDirs · (.ok ())) ++
        [.create (Path.join cwd t.path) t.mode (.ok h)])

/-- The calls by which a target was not opened, for a cause. -/
inductive Refusal (cwd : String) (t : Target) (cause : OsError) : List Call → Prop where
  /-- The directory above the target cannot be made. -/
  | parent {dir : String} (h : Path.parent? (Path.join cwd t.path) = some dir) :
    Refusal cwd t cause [.makeDirs dir (.error cause)]
  /-- The directory can be made, and the file cannot be opened. -/
  | file : Refusal cwd t cause
      ((Path.parent? (Path.join cwd t.path)).toList.map (Call.makeDirs · (.ok ())) ++
        [.create (Path.join cwd t.path) t.mode (.error cause)])

theorem opens_of_mem_parent {cwd : String} {t : Target} {answer : Except OsError Unit} {call : Call}
    (h : call ∈ (Path.parent? (Path.join cwd t.path)).toList.map (Call.makeDirs · answer)) :
    t.Opens cwd call := by
  obtain ⟨dir, hdir, rfl⟩ := List.mem_map.1 h
  exact Option.mem_toList.1 hdir

theorem Opening.isSome_eq {cwd : String} {t : Option Target} {file : Option Handle}
    {calls : List Call} (h : Opening cwd t file calls) : file.isSome = t.isSome := by
  cases h <;> rfl

/-- Only the target is opened. -/
theorem Opening.opens {cwd : String} {t : Option Target} {file : Option Handle}
    {calls : List Call} (h : Opening cwd t file calls) :
    ∀ call ∈ calls, ∃ t' ∈ t, t'.Opens cwd call := by
  cases h with
  | none => simp
  | some t h =>
    intro call hc
    refine ⟨t, rfl, ?_⟩
    rcases List.mem_append.1 hc with hc | hc
    · exact opens_of_mem_parent hc
    · rw [List.mem_singleton.1 hc]
      exact ⟨rfl, rfl⟩

/-- Opening a target starts nothing. -/
theorem Opening.not_starts {cwd : String} {t : Option Target} {file : Option Handle}
    {calls : List Call} (h : Opening cwd t file calls) : ∀ call ∈ calls, call.starts = false := by
  intro call hcall
  obtain ⟨t', -, ht'⟩ := h.opens call hcall
  exact (Call.other_of_opens ht'.opens).1

theorem Opening.filter_starts {cwd : String} {t : Option Target} {file : Option Handle}
    {calls : List Call} (h : Opening cwd t file calls) : calls.filter Call.starts = [] :=
  Call.filter_starts_eq_nil h.not_starts

/-- Of a target that was opened no call has failed. -/
theorem Opening.not_fails {cwd : String} {t : Option Target} {file : Option Handle}
    {calls : List Call} (h : Opening cwd t file calls) : ∀ call ∈ calls, call.fails = false := by
  cases h with
  | none => simp
  | some t h =>
    intro call hc
    rcases List.mem_append.1 hc with hc | hc
    · obtain ⟨dir, -, rfl⟩ := List.mem_map.1 hc
      rfl
    · rw [List.mem_singleton.1 hc]
      rfl

/-- Only the target is tried. -/
theorem Refusal.opens {cwd : String} {t : Target} {cause : OsError} {calls : List Call}
    (h : t.Refusal cwd cause calls) : ∀ call ∈ calls, t.Opens cwd call := by
  intro call hc
  cases h with
  | parent hdir =>
    rw [List.mem_singleton.1 hc]
    exact hdir
  | file =>
    rcases List.mem_append.1 hc with hc | hc
    · exact opens_of_mem_parent hc
    · rw [List.mem_singleton.1 hc]
      exact ⟨rfl, rfl⟩

/-- Of a target that was not opened some call has failed. -/
theorem Refusal.exists_fails {cwd : String} {t : Target} {cause : OsError} {calls : List Call}
    (h : t.Refusal cwd cause calls) : ∃ call ∈ calls, call.fails := by
  cases h with
  | parent => exact ⟨_, List.mem_singleton_self _, rfl⟩
  | file => exact ⟨_, List.mem_append_right _ (List.mem_singleton_self _), rfl⟩

theorem calls_makeParent (path : String) (r : Recorded σ) :
    (makeParent path r).2.calls = r.calls ++
      (Path.parent? path).toList.map (Call.makeDirs · (makeParent path r).1) := by
  rw [makeParent]
  cases Path.parent? path with
  | none => simp
  | some dir => exact calls_makeDirs dir r

theorem isSome_parent?_of_error {path : String} {r r' : Recorded σ} {e : OsError}
    (h : makeParent path r = (.error e, r')) : ∃ dir, Path.parent? path = some dir := by
  rw [makeParent] at h
  cases hp : Path.parent? path with
  | none => simp [hp] at h
  | some dir => exact ⟨dir, rfl⟩

/-- Opening a target that succeeds. -/
theorem opening_of_openIn? {cwd : String} {t : Option Target} {r r' : Recorded σ}
    {file : Option Handle} (h : openIn? cwd t r = (.ok file, r')) :
    ∃ calls, Opening cwd t file calls ∧ r'.calls = r.calls ++ calls := by
  cases t with
  | none =>
    obtain ⟨hfile, rfl⟩ := Prod.mk.inj h
    obtain rfl := Except.ok.inj hfile
    exact ⟨[], .none, by simp⟩
  | some t =>
    unfold openIn? openIn at h
    have hparent := calls_makeParent (Path.join cwd t.path) r
    rcases hp : makeParent (Path.join cwd t.path) r with ⟨e | u, r₁⟩
    · simp [hp] at h
    · have hcreate := calls_create (Path.join cwd t.path) t.mode r₁
      rcases hc : Host.create (Path.join cwd t.path) t.mode r₁ with ⟨e | file', r₂⟩
      · simp [hp, hc] at h
      · simp only [hp, hc, Prod.mk.injEq, Except.ok.injEq] at h hparent hcreate
        obtain ⟨rfl, rfl⟩ := h
        refine ⟨_, .some t file', ?_⟩
        rw [hcreate, hparent, List.append_assoc]

/-- Opening a target that fails: it was refused for the cause that is given back. -/
theorem refusal_of_openIn? {cwd : String} {t : Option Target} {r r' : Recorded σ}
    {e : ProcessError} (h : openIn? cwd t r = (.error e, r')) :
    ∃ t' cause calls, t = some t' ∧ e = .redirect t'.path cause ∧ t'.Refusal cwd cause calls ∧
      r'.calls = r.calls ++ calls := by
  cases t with
  | none => cases h
  | some t =>
    unfold openIn? openIn at h
    have hparent := calls_makeParent (Path.join cwd t.path) r
    rcases hp : makeParent (Path.join cwd t.path) r with ⟨c | u, r₁⟩
    · obtain ⟨dir, hdir⟩ := isSome_parent?_of_error hp
      simp only [hp, Prod.mk.injEq, Except.error.injEq, hdir] at h hparent
      obtain ⟨rfl, rfl⟩ := h
      exact ⟨t, c, _, rfl, rfl, .parent hdir, hparent⟩
    · have hcreate := calls_create (Path.join cwd t.path) t.mode r₁
      rcases hc : Host.create (Path.join cwd t.path) t.mode r₁ with ⟨c | file', r₂⟩
      · simp only [hp, hc, Prod.mk.injEq, Except.error.injEq] at h hparent hcreate
        obtain ⟨rfl, rfl⟩ := h
        exact ⟨t, c, _, rfl, rfl, .file, by rw [hcreate, hparent, List.append_assoc]⟩
      · simp [hp, hc] at h

/-- Opening a target makes no other calls than those for it. -/
theorem adds_openIn? (cwd : String) (t : Option Target) (r : Recorded σ) :
    Adds (fun call => ∃ t' ∈ t, t'.Opens cwd call) r (openIn? cwd t r).2 := by
  rcases h : openIn? cwd t r with ⟨e | file, r'⟩
  · obtain ⟨t', cause, calls, rfl, -, hrefusal, hcalls⟩ := refusal_of_openIn? h
    exact ⟨calls, hcalls, fun call hc => ⟨t', rfl, hrefusal.opens call hc⟩⟩
  · obtain ⟨calls, hopening, hcalls⟩ := opening_of_openIn? h
    exact ⟨calls, hcalls, hopening.opens⟩

theorem adds_openBoth (cwd : String) (redirection : Redirection) (r : Recorded σ) :
    Adds (·.opens) r (openBoth cwd redirection r).2 := by
  have hopens (t : Option Target) (r : Recorded σ) : Adds (·.opens) r (openIn? cwd t r).2 :=
    (adds_openIn? cwd t r).mono fun _ ⟨_, _, h⟩ => h.opens
  rw [openBoth]
  have hout := hopens redirection.stdout r
  rcases ho : openIn? cwd redirection.stdout r with ⟨e | out, r₁⟩
  · rwa [ho] at hout
  · have herr := hopens redirection.stderr r₁
    rw [ho] at hout
    rcases he : openIn? cwd redirection.stderr r₁ with ⟨e | err, r₂⟩ <;> rw [he] at herr <;>
      simpa only [he] using hout.trans herr

/-- Opening both targets, when it succeeds. -/
theorem opening_of_openBoth {cwd : String} {redirection : Redirection} {r r' : Recorded σ}
    {out err : Option Handle} (h : openBoth cwd redirection r = (.ok (out, err), r')) :
    ∃ outCalls errCalls, Opening cwd redirection.stdout out outCalls ∧
      Opening cwd redirection.stderr err errCalls ∧
      r'.calls = r.calls ++ (outCalls ++ errCalls) := by
  rw [openBoth] at h
  rcases ho : openIn? cwd redirection.stdout r with ⟨e | out', r₁⟩
  · simp [ho] at h
  · rcases he : openIn? cwd redirection.stderr r₁ with ⟨e | err', r₂⟩
    · simp [ho, he] at h
    · simp only [ho, he, Prod.mk.injEq, Except.ok.injEq] at h
      obtain ⟨⟨rfl, rfl⟩, rfl⟩ := h
      obtain ⟨outCalls, hout, hcalls⟩ := opening_of_openIn? ho
      obtain ⟨errCalls, herr, hcalls'⟩ := opening_of_openIn? he
      exact ⟨outCalls, errCalls, hout, herr, by rw [hcalls', hcalls, List.append_assoc]⟩

end Target

/-- A report opens the target of standard error, if there is one, and writes. -/
theorem adds_report (cwd : String) (redirection : Redirection) (message : String)
    (r : Recorded σ) :
    Adds (fun call => (∃ t ∈ redirection.stderr, t.Opens cwd call) ∨ call.writes) r
      (report cwd redirection message r) := by
  have hopen := Target.adds_openIn? cwd redirection.stderr r
  have hsay (r : Recorded σ) := adds_complainLine message r
  rw [report]
  rcases ho : Target.openIn? cwd redirection.stderr r with ⟨e | _ | h, r₁⟩ <;> rw [ho] at hopen
  · exact (hopen.mono fun _ => .inl).trans ((hsay r₁).mono fun _ => .inr)
  · exact (hopen.mono fun _ => .inl).trans ((hsay r₁).mono fun _ => .inr)
  · have hwrite : Adds (·.writes) r₁ (Host.write h (Bytes.ofLine message) r₁).2 :=
      .one (calls_write ..) rfl
    refine (hopen.mono fun _ => .inl).trans (.mono ?_ fun _ => .inr)
    rcases hw : Host.write h (Bytes.ofLine message) r₁ with ⟨e | _, r₂⟩ <;>
      simp only [hw] at hwrite ⊢
    · exact hwrite.trans (hsay r₂)
    · exact hwrite

/-- A report starts nothing. -/
theorem adds_report_not_starts (cwd : String) (redirection : Redirection) (message : String)
    (r : Recorded σ) :
    Adds (fun call => call.starts = false) r (report cwd redirection message r) := by
  refine (adds_report cwd redirection message r).mono fun call h => ?_
  rcases h with ⟨t, -, ht⟩ | hwrites
  · exact (Call.other_of_opens ht.opens).1
  · exact (Call.other_of_writes hwrites).1

theorem adds_awaitProgram (child : Child) (r : Recorded σ) :
    Adds (fun call => call.starts = false) r (awaitProgram child r).2 := by
  have hwait : Adds (fun call => call.starts = false) r (Host.wait child r).2 :=
    .one (calls_wait ..) rfl
  rw [awaitProgram]
  rcases hw : Host.wait child r with ⟨e | _, r₁⟩ <;> rw [hw] at hwait <;> exact hwait

theorem History.adds_writeEntries (path : String) (mode : WriteMode) (entries : List String)
    (r : Recorded σ) :
    Adds (fun call => call.opens ∨ call.fills) r (writeEntries path mode entries r).2 := by
  have hcreate : Adds (fun call => call.opens ∨ call.fills) r (Host.create path mode r).2 :=
    .one (calls_create ..) (.inl rfl)
  rw [writeEntries]
  rcases hc : Host.create path mode r with ⟨e | h, r₁⟩ <;> rw [hc] at hcreate
  · exact hcreate
  · refine hcreate.trans ?_
    have hwrite : Adds (fun call => call.opens ∨ call.fills) r₁
        (Host.write h (toBytes entries) r₁).2 := .one (calls_write ..) (.inr rfl)
    rcases hw : Host.write h (toBytes entries) r₁ with ⟨e | _, r₂⟩ <;>
      simpa only [hw] using hwrite

namespace Builtin

theorem adds_apply (a : FileAction) (h : History) (path : String) (r : Recorded σ) :
    Adds (fun call => call.opens ∨ call.fills) r (a.apply h path r).2.2 := by
  cases a with
  | read =>
    rw [FileAction.apply]
    split <;> exact .refl _ r
  | write =>
    have hw := History.adds_writeEntries path .truncate h.entries r
    rw [FileAction.apply, History.writeTo]
    split <;> simp_all
  | append =>
    have hw := History.adds_writeEntries path .append h.unsaved r
    rw [FileAction.apply, History.appendTo]
    split <;> simp_all

theorem adds_runFileAction (a : FileAction) (st : State) (path : String) (r : Recorded σ) :
    Adds (fun call => call.opens ∨ call.fills) r (runFileAction a st path r).2.2 := by
  rw [runFileAction]
  split
  · exact .refl _ r
  next file _ =>
    have happly := adds_apply a st.history file r
    rcases ha : a.apply st.history file r with ⟨e | _, h, r'⟩ <;> simpa only [ha] using happly

theorem adds_runHistory (args : List String) (st : State) (r : Recorded σ) :
    Adds (fun call => call.opens ∨ call.fills) r (runHistory st args r).2.2 := by
  unfold runHistory
  split
  · exact .refl _ r
  · split
    · exact .refl _ r
    · exact adds_runFileAction _ st _ r
    · split
      · exact .refl _ r
      · split <;> exact .refl _ r

/-- By itself a builtin opens files and writes to them, and does nothing else. -/
theorem adds_run (b : Builtin) (args : List String) (st : State) (r : Recorded σ) :
    Adds (fun call => call.opens ∨ call.fills) r (b.run args st r).2.2 := by
  cases b with
  | cd =>
    rw [run]
    split <;> exact .refl _ r
  | history => exact adds_runHistory args st r
  | _ => exact .refl _ r

end Builtin

/-- What a builtin gives back is printed only if it has no target. -/
theorem adds_deliver (out err : Option Handle) (result : Except CommandError Outcome)
    (r : Recorded σ) :
    Adds (fun call => call.writes ∨ call.prints ∧ out = none) r (deliver out err result r).2 := by
  rcases result with e | text | _ | _
  · cases err with
    | none => exact .one rfl (.inl rfl)
    | some h => exact .one (calls_write ..) (.inl rfl)
  · cases out with
    | none => exact .one (calls_print ..) (.inr ⟨rfl, rfl⟩)
    | some h => exact .one (calls_write ..) (.inl rfl)
  · exact .refl _ r
  · exact .refl _ r

theorem adds_complainUnwritten (name : String) (written : Except OsError Unit) (r : Recorded σ) :
    Adds (·.writes) r (complainUnwritten name written r) := by
  cases written with
  | error e => exact adds_complainLine _ r
  | ok => exact .refl _ r

/-- After its targets have been opened and it has been run, what a builtin has given back is
told. -/
theorem adds_runBuiltin_of_run {b : Builtin} {inv : Invocation} {st : State} {r r₁ : Recorded σ}
    {out err : Option Handle}
    (ho : Target.openBoth st.cwd inv.redirection r = (.ok (out, err), r₁)) :
    Adds (fun call => call.writes ∨ call.prints ∧ out = none) (b.run inv.args st r₁).2.2
      (runBuiltin b inv st r).2.2 := by
  have hsaid (result : Except CommandError Outcome) (r₂ : Recorded σ) :
      Adds (fun call => call.writes ∨ call.prints ∧ out = none) r₂
        (complainUnwritten inv.name (deliver out err result r₂).1 (deliver out err result r₂).2) :=
    (adds_deliver out err result r₂).trans ((adds_complainUnwritten ..).mono fun _ => .inl)
  rw [runBuiltin]
  rcases hb : b.run inv.args st r₁ with ⟨e | text | _ | n, st', r₂⟩ <;> simp only [ho, hb]
  · exact hsaid (.error e) r₂
  · exact hsaid (.ok (.text text)) r₂
  · exact hsaid (.ok .silent) r₂
  · exact .refl _ r₂

/-- After its targets have been opened, a builtin prints only if it has none for its standard
output. -/
theorem adds_runBuiltin_of_openBoth {b : Builtin} {inv : Invocation} {st : State}
    {r r₁ : Recorded σ} {out err : Option Handle}
    (ho : Target.openBoth st.cwd inv.redirection r = (.ok (out, err), r₁)) :
    Adds (fun call => call.opens ∨ call.writes ∨ call.prints ∧ inv.redirection.stdout = none) r₁
      (runBuiltin b inv st r).2.2 := by
  obtain ⟨outCalls, -, hout, -⟩ := Target.opening_of_openBoth ho
  have hnone (h : out = none) : inv.redirection.stdout = none := by
    have := hout.isSome_eq
    simp_all
  refine .trans ?_ ((adds_runBuiltin_of_run ho).mono fun _ h =>
    .inr (h.imp_right fun h => ⟨h.1, hnone h.2⟩))
  exact (b.adds_run inv.args st r₁).mono fun _ h =>
    h.imp_right fun h => .inl (Call.writes_of_fills h)

/-- A builtin with targets opens, writes, and prints only if it has no target for its standard
output. -/
theorem adds_runBuiltin (b : Builtin) (inv : Invocation) (st : State) (r : Recorded σ) :
    Adds (fun call => call.opens ∨ call.writes ∨ call.prints ∧ inv.redirection.stdout = none) r
      (runBuiltin b inv st r).2.2 := by
  have hopens := Target.adds_openBoth st.cwd inv.redirection r
  rcases ho : Target.openBoth st.cwd inv.redirection r with ⟨e | ⟨out, err⟩, r₁⟩ <;>
    simp only [ho] at hopens <;> refine (hopens.mono fun _ => .inl).trans ?_
  · simp only [runBuiltin, ho]
    exact (adds_complainLine _ r₁).mono fun _ h => .inr (.inl h)
  · exact adds_runBuiltin_of_openBoth ho

/-- A builtin starts nothing. -/
theorem not_starts_runBuiltin (b : Builtin) (inv : Invocation) (st : State) (s : σ) :
    ∀ call ∈ (runBuiltin b inv st ({ machine := s } : Recorded σ)).2.2.calls,
      call.starts = false := by
  intro call hcall
  rcases (adds_runBuiltin b inv st { machine := s }).forall_mem call hcall with h | h | ⟨h, -⟩
  · exact (Call.other_of_opens h).1
  · exact (Call.other_of_writes h).1
  · cases call <;> first | rfl | cases h

/-- A text that a builtin gives back is written to the target of its standard output, or else it is
printed. -/
theorem text_mem_runBuiltin {b : Builtin} {inv : Invocation} {st st' : State}
    {r r₁ r₂ : Recorded σ} {out err : Option Handle} {text : String}
    (ho : Target.openBoth st.cwd inv.redirection r = (.ok (out, err), r₁))
    (hb : b.run inv.args st r₁ = (.ok (.text text), st', r₂)) :
    ∃ answer, out.elim (Call.print (Bytes.ofLine text) answer)
      (Call.write · (Bytes.ofLine text) answer) ∈ (runBuiltin b inv st r).2.2.calls := by
  obtain ⟨new, hnew, -⟩ := adds_complainUnwritten inv.name (deliver out err (.ok (.text text)) r₂).1
    (deliver out err (.ok (.text text)) r₂).2
  refine ⟨(deliver out err (.ok (.text text)) r₂).1, ?_⟩
  simp only [runBuiltin, ho, hb, hnew]
  refine List.mem_append_left _ ?_
  cases out with
  | none => exact List.mem_append_right _ (List.mem_singleton_self _)
  | some h => exact List.mem_append_right _ (List.mem_singleton_self _)

namespace Pipeline

theorem opening_of_openStdout {st : State} {inv : Invocation} {last : Bool} {r r' : Recorded σ}
    {output : Output} (h : openStdout st inv last r = (.ok output, r')) :
    ∃ out calls, Target.Opening st.cwd (if last then inv.redirection.stdout else none) out calls ∧
      output = (if last then .ofTarget out else .pipe) ∧ r'.calls = r.calls ++ calls := by
  cases last with
  | false =>
    obtain ⟨houtput, rfl⟩ := Prod.mk.inj h
    exact ⟨none, [], .none, (Except.ok.inj houtput).symm, by simp⟩
  | true =>
    simp only [openStdout, if_true] at h ⊢
    rcases ho : Target.openIn? st.cwd inv.redirection.stdout r with ⟨e | out, r₁⟩
    · simp [ho] at h
    · simp only [ho, Prod.mk.injEq, Except.ok.injEq] at h
      obtain ⟨rfl, rfl⟩ := h
      obtain ⟨calls, hopening, hcalls⟩ := Target.opening_of_openIn? ho
      exact ⟨out, calls, hopening, rfl, hcalls⟩

theorem opening_of_openOutputs {st : State} {inv : Invocation} {last : Bool} {r r' : Recorded σ}
    {stdout stderr : Output} (h : openOutputs st inv last r = (.ok (stdout, stderr), r')) :
    ∃ out err outCalls errCalls,
      Target.Opening st.cwd (if last then inv.redirection.stdout else none) out outCalls ∧
      Target.Opening st.cwd inv.redirection.stderr err errCalls ∧
      stdout = (if last then .ofTarget out else .pipe) ∧ stderr = .ofTarget err ∧
      r'.calls = r.calls ++ (outCalls ++ errCalls) := by
  rw [openOutputs] at h
  rcases ho : openStdout st inv last r with ⟨e | output, r₁⟩
  · simp [ho] at h
  · rcases he : Target.openIn? st.cwd inv.redirection.stderr r₁ with ⟨e | err, r₂⟩
    · simp [ho, he] at h
    · simp only [ho, he, Prod.mk.injEq, Except.ok.injEq] at h
      obtain ⟨⟨rfl, rfl⟩, rfl⟩ := h
      obtain ⟨out, outCalls, hout, houtput, hcalls⟩ := opening_of_openStdout ho
      obtain ⟨errCalls, herr, hcalls'⟩ := Target.opening_of_openIn? he
      exact ⟨out, err, outCalls, errCalls, hout, herr, houtput, rfl,
        by rw [hcalls', hcalls, List.append_assoc]⟩

/-- **How a program of a pipeline is started.** First its targets are opened, that of standard
output only in the last stage; then it is started with them. -/
theorem calls_of_startStage {st : State} {input : Input} {program : String} {inv : Invocation}
    {last : Bool} {r r' : Recorded σ} {child : Child}
    (h : startStage st input program inv last r = (.ok child, r')) :
    ∃ out err outCalls errCalls launch,
      Target.Opening st.cwd (if last then inv.redirection.stdout else none) out outCalls ∧
      Target.Opening st.cwd inv.redirection.stderr err errCalls ∧
      launch = { program, name := inv.name, args := inv.args, dir := st.cwd, stdin := input,
                 stdout := if last then .ofTarget out else .pipe, stderr := .ofTarget err } ∧
      (∃ s s' : σ, Host.start launch s = (.ok child, s')) ∧
      r'.calls = r.calls ++ (outCalls ++ errCalls ++ [.start launch (.ok child)]) := by
  rw [startStage] at h
  rcases ho : openOutputs st inv last r with ⟨e | ⟨stdout, stderr⟩, r₁⟩
  · simp [ho] at h
  · obtain ⟨out, err, outCalls, errCalls, hout, herr, rfl, rfl, hcalls⟩ := opening_of_openOutputs ho
    simp only [ho] at h
    generalize hl : Launch.mk program inv.name inv.args st.cwd input _ _ = launch at h
    have hcalls' := calls_start launch r₁
    rcases hs : Host.start launch r₁ with ⟨e | child', r₂⟩
    · simp [hs] at h
    · simp only [hs, Prod.mk.injEq, Except.ok.injEq] at h hcalls'
      obtain ⟨rfl, rfl⟩ := h
      refine ⟨out, err, outCalls, errCalls, launch, hout, herr, hl.symm,
        ⟨r₁.machine, r₂.machine, ?_⟩, by rw [hcalls', hcalls, List.append_assoc]⟩
      rw [← Recorded.forget_apply, Recorded.forget.start, hs]
      rfl

/-- The call that closes an input, if it is a pipe. -/
def closing : Input → List Call
  | .pipe p => [.hangUp p]
  | _ => []

theorem calls_discard (input : Input) (r : Recorded σ) :
    (discard input r).calls = r.calls ++ closing input := by
  cases input with
  | pipe p => exact calls_hangUp p r
  | _ => exact (List.append_nil _).symm

/-- How a program of a pipeline comes not to be started: the failure, and the calls that were made
until then. What it was to read is closed, by the machine if it was the start that failed. -/
inductive Stop (st : State) (input : Input) (program : String) (inv : Invocation) (last : Bool) :
    ProcessError → List Call → Prop where
  /-- The target of standard output is refused; only the last stage has one. -/
  | stdout {t : Target} {cause : OsError} {calls : List Call} (hlast : last = true)
      (ht : inv.redirection.stdout = some t) (h : t.Refusal st.cwd cause calls) :
    Stop st input program inv last (.redirect t.path cause) (calls ++ closing input)
  /-- The target of standard error is refused. -/
  | stderr {out : Option Handle} {outCalls : List Call} {t : Target} {cause : OsError}
      {calls : List Call}
      (hout : Target.Opening st.cwd (if last then inv.redirection.stdout else none) out outCalls)
      (ht : inv.redirection.stderr = some t) (h : t.Refusal st.cwd cause calls) :
    Stop st input program inv last (.redirect t.path cause) (outCalls ++ calls ++ closing input)
  /-- The program cannot be started. -/
  | start {out err : Option Handle} {outCalls errCalls : List Call} {cause : OsError}
      (hout : Target.Opening st.cwd (if last then inv.redirection.stdout else none) out outCalls)
      (herr : Target.Opening st.cwd inv.redirection.stderr err errCalls) :
    Stop st input program inv last (.spawn inv.name cause)
      (outCalls ++ errCalls ++
        [.start { program, name := inv.name, args := inv.args, dir := st.cwd, stdin := input,
                  stdout := if last then .ofTarget out else .pipe, stderr := .ofTarget err }
          (.error cause)])

theorem refusal_of_openStdout {st : State} {inv : Invocation} {last : Bool} {r r' : Recorded σ}
    {e : ProcessError} (h : openStdout st inv last r = (.error e, r')) :
    ∃ t cause calls, last = true ∧ inv.redirection.stdout = some t ∧ e = .redirect t.path cause ∧
      t.Refusal st.cwd cause calls ∧ r'.calls = r.calls ++ calls := by
  cases last with
  | false => simp [openStdout] at h
  | true =>
    simp only [openStdout, if_true] at h
    rcases ho : Target.openIn? st.cwd inv.redirection.stdout r with ⟨e' | out, r₁⟩
    · simp only [ho, Prod.mk.injEq, Except.error.injEq] at h
      obtain ⟨rfl, rfl⟩ := h
      obtain ⟨t, cause, calls, ht, he, hrefusal, hcalls⟩ := Target.refusal_of_openIn? ho
      exact ⟨t, cause, calls, rfl, ht, he, hrefusal, hcalls⟩
    · simp [ho] at h

/-- **How a program of a pipeline comes not to be started.** One of its targets is refused, or the
program itself. -/
theorem stop_of_startStage {st : State} {input : Input} {program : String} {inv : Invocation}
    {last : Bool} {r r' : Recorded σ} {e : ProcessError}
    (h : startStage st input program inv last r = (.error e, r')) :
    ∃ calls, Stop st input program inv last e calls ∧ r'.calls = r.calls ++ calls := by
  rw [startStage, openOutputs] at h
  rcases ho : openStdout st inv last r with ⟨e' | stdout, r₁⟩
  · simp only [ho, Prod.mk.injEq, Except.error.injEq] at h
    obtain ⟨rfl, rfl⟩ := h
    obtain ⟨t, cause, calls, hlast, ht, rfl, hrefusal, hcalls⟩ := refusal_of_openStdout ho
    refine ⟨_, .stdout hlast ht hrefusal, ?_⟩
    rw [calls_discard, hcalls, List.append_assoc]
  · obtain ⟨out, outCalls, hout, rfl, hcalls⟩ := opening_of_openStdout ho
    rcases he : Target.openIn? st.cwd inv.redirection.stderr r₁ with ⟨e' | err, r₂⟩
    · simp only [ho, he, Prod.mk.injEq, Except.error.injEq] at h
      obtain ⟨rfl, rfl⟩ := h
      obtain ⟨t, cause, calls, ht, rfl, hrefusal, hcalls'⟩ := Target.refusal_of_openIn? he
      refine ⟨_, .stderr hout ht hrefusal, ?_⟩
      rw [calls_discard, hcalls', hcalls, List.append_assoc, List.append_assoc, List.append_assoc]
    · obtain ⟨errCalls, herr, hcalls'⟩ := Target.opening_of_openIn? he
      simp only [ho, he] at h
      generalize hl : Launch.mk program inv.name inv.args st.cwd input _ _ = launch at h
      have hstart := calls_start launch r₂
      rcases hs : Host.start launch r₂ with ⟨cause | child, r₃⟩
      · simp only [hs, Prod.mk.injEq, Except.error.injEq] at h hstart
        obtain ⟨rfl, rfl⟩ := h
        refine ⟨_, .start hout herr, ?_⟩
        rw [hstart, hcalls', hcalls, hl, List.append_assoc, List.append_assoc, List.append_assoc]
      · simp [hs] at h

section Stop

variable {st : State} {input : Input} {program : String} {inv : Invocation} {last : Bool}
  {e : ProcessError} {calls : List Call}

/-- A program that was not started: some call for it has failed. -/
theorem Stop.exists_fails (h : Stop st input program inv last e calls) :
    ∃ call ∈ calls, call.fails := by
  cases h with
  | stdout _ _ hrefusal =>
    obtain ⟨call, hcall, hfails⟩ := hrefusal.exists_fails
    exact ⟨call, List.mem_append_left _ hcall, hfails⟩
  | stderr _ _ hrefusal =>
    obtain ⟨call, hcall, hfails⟩ := hrefusal.exists_fails
    exact ⟨call, List.mem_append_left _ (List.mem_append_right _ hcall), hfails⟩
  | start => exact ⟨_, List.mem_append_right _ (List.mem_singleton_self _), rfl⟩

/-- Each call for a program that was not started opens something, or closes a pipe, or is the start
that failed, with the input that was handed on. -/
theorem Stop.call_of_mem (h : Stop st input program inv last e calls) {call : Call}
    (hcall : call ∈ calls) :
    call.opens ∨ (∃ p, call = .hangUp p) ∨
      ∃ launch cause, launch.stdin = input ∧ call = .start launch (.error cause) := by
  have hclosing (hcall : call ∈ closing input) : ∃ p, call = .hangUp p := by
    cases input with
    | pipe p => exact ⟨p, List.mem_singleton.1 hcall⟩
    | _ => cases hcall
  cases h with
  | stdout _ _ hrefusal =>
    rcases List.mem_append.1 hcall with hcall | hcall
    · exact .inl (hrefusal.opens call hcall).opens
    · exact .inr (.inl (hclosing hcall))
  | stderr hout _ hrefusal =>
    rw [List.mem_append, List.mem_append] at hcall
    rcases hcall with (hcall | hcall) | hcall
    · obtain ⟨t, -, ht⟩ := hout.opens call hcall
      exact .inl ht.opens
    · exact .inl (hrefusal.opens call hcall).opens
    · exact .inr (.inl (hclosing hcall))
  | start hout herr =>
    rw [List.mem_append, List.mem_append, List.mem_singleton] at hcall
    rcases hcall with (hcall | hcall) | hcall
    · obtain ⟨t, -, ht⟩ := hout.opens call hcall
      exact .inl ht.opens
    · obtain ⟨t, -, ht⟩ := herr.opens call hcall
      exact .inl ht.opens
    · exact .inr (.inr ⟨_, _, rfl, hcall⟩)

end Stop

theorem handOn_program {child : Child} {p : Pipe} (h : child.output = some p) (inv : Invocation)
    (program : String) (rest : List PlannedStage) (s : σ) :
    handOn child (⟨inv, .external program⟩ :: rest) s = (.pipe p, s) := by
  simp only [handOn, h]

theorem handOn_builtin {child : Child} {p : Pipe} (h : child.output = some p) (inv : Invocation)
    (b : Builtin) (rest : List PlannedStage) (s : σ) :
    handOn child (⟨inv, .builtin b⟩ :: rest) s = (.empty, Host.hangUp p s) := by
  simp only [handOn, h]

/-- Handing on closes at most the program's own output. -/
theorem adds_handOn (child : Child) (rest : List PlannedStage) (r : Recorded σ) :
    Adds (fun call => ∃ p ∈ child.output, call = .hangUp p) r (handOn child rest r).2 := by
  unfold handOn
  split
  · exact .refl _ r
  next p h _ => exact .one (calls_hangUp p r) ⟨p, h, rfl⟩
  · exact .refl _ r

end Pipeline
end LineShell
