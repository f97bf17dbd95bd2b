import LineShell.Options
import Mathlib.Algebra.Ring.Parity
import Mathlib.Data.List.DropRight

/-!
# How the arguments of the shell are read

The arguments are read from the left (`Options.Reads`). An argument that spells the option `config`
takes the next one as its value, whatever that is, also if it spells an option itself; without a
next one it is left waiting for a value. All other options are set by themselves, and arguments that
are no option are passed over.

So there is one reading of each list of arguments (`exists_reads`, `Reads.unique`), and parsing sets
the options in the order in which they are read (`Reads.parse_eq`). Each option then has the last
value that was given to it, or else the one that it had before (`Reads.value?_setAll`). From this it
follows that parsing unsets nothing and that parsing a second time changes nothing. A reading that
is not left waiting goes on with that of the arguments after it (`Reads.append`), and one that is
left waiting goes on with them once it has got a value (`Reads.resume`).

Whether a reading is left waiting is told by the end of the list alone: each `config` in a row at
the end is the value of the one before it or waits for a value itself, in turns
(`Reads.isSome_iff_odd`).
-/

namespace LineShell
namespace Flag

/-- The argument spells the option, in the short or in the long way. -/
def SpelledBy (f : Flag) (arg : String) : Prop :=
  arg = f.short ∨ arg = f.long

theorem mem_all (f : Flag) : f ∈ all := by
  cases f <;> decide

/-- An argument spells one option at most. -/
theorem SpelledBy.unique {f g : Flag} {arg : String} (hf : f.SpelledBy arg)
    (hg : g.SpelledBy arg) : f = g := by
  have htable : ∀ f ∈ all, ∀ g ∈ all,
      (f.short = g.short ∨ f.short = g.long ∨ f.long = g.short ∨ f.long = g.long) → f = g := by
    decide
  refine htable f f.mem_all g g.mem_all ?_
  rcases hf with rfl | rfl <;> rcases hg with h | h <;> simp [h]

theorem ofArgument?_eq_none_iff {arg : String} :
    ofArgument? arg = none ↔ ∀ f : Flag, ¬ f.SpelledBy arg := by
  simp only [ofArgument?, List.find?_eq_none, decide_eq_true_eq]
  exact ⟨fun h f => h f f.mem_all, fun h f _ => h f⟩

/-- The option that is found for an argument is the one that the argument spells. -/
theorem ofArgument?_eq_some_iff {arg : String} {f : Flag} :
    ofArgument? arg = some f ↔ f.SpelledBy arg := by
  have hfound {g : Flag} (h : ofArgument? arg = some g) : g.SpelledBy arg := by
    simpa [SpelledBy] using List.find?_some h
  constructor
  · exact hfound
  · intro hf
    cases h : ofArgument? arg with
    | none => exact absurd hf (ofArgument?_eq_none_iff.1 h f)
    | some g => rw [(hfound h).unique hf]

end Flag

namespace Options

/-- How arguments are read from the left: the options that they set, each with its value, and the
argument that is left waiting for a value, if there is one. -/
inductive Reads : List String → List (Flag × String) → Option String → Prop where
  /-- There are no more arguments. -/
  | done : Reads [] [] none
  /-- An option other than `config` is set by itself. -/
  | plain {f : Flag} {arg : String} {args : List String} {settings : List (Flag × String)}
      {waiting : Option String} (harg : f.SpelledBy arg) (hf : f ≠ .config)
      (hrest : Reads args settings waiting) : Reads (arg :: args) ((f, "true") :: settings) waiting
  /-- The option `config` takes the next argument as its value. -/
  | config {arg : String} {args : List String} {settings : List (Flag × String)}
      {waiting : Option String} (harg : Flag.config.SpelledBy arg) (value : String)
      (hrest : Reads args settings waiting) :
    Reads (arg :: value :: args) ((.config, value) :: settings) waiting
  /-- The option `config` as the last argument waits. -/
  | last {arg : String} (harg : Flag.config.SpelledBy arg) : Reads [arg] [] (some arg)
  /-- An argument that is no option is passed over. -/
  | other {arg : String} {args : List String} {settings : List (Flag × String)}
      {waiting : Option String} (harg : ∀ f : Flag, ¬ f.SpelledBy arg)
      (hrest : Reads args settings waiting) : Reads (arg :: args) settings waiting

/-- The options with each of the settings made, one after the other. -/
def setAll (o : Options) (settings : List (Flag × String)) : Options :=
  settings.foldl (fun o setting => o.set setting.2 setting.1) o

/-- Whether an argument asks for a value. -/
def asksForValue (arg : String) : Bool :=
  arg = "-c" ∨ arg = "--config"

theorem asksForValue_iff {arg : String} : asksForValue arg ↔ Flag.config.SpelledBy arg := by
  have hlong : Flag.config.long = "--config" := by decide
  rw [Flag.SpelledBy, hlong, asksForValue, decide_eq_true_eq]
  rfl

/-- Options are equal if they have the same values. -/
theorem ext_value? {o o' : Options} (h : ∀ f, o.value? f = o'.value? f) : o = o' := by
  have hplain {a b : Bool}
      (h : (if a then some "true" else none) = if b then some "true" else none) : a = b := by
    cases a <;> cases b <;> simp at h <;> rfl
  obtain ⟨color, config, debug, help, quiet, version⟩ := o
  obtain ⟨color', config', debug', help', quiet', version'⟩ := o'
  obtain rfl : color = color' := hplain (h .color)
  obtain rfl : config = config' := h .config
  obtain rfl : debug = debug' := hplain (h .debug)
  obtain rfl : help = help' := hplain (h .help)
  obtain rfl : quiet = quiet' := hplain (h .quiet)
  obtain rfl : version = version' := hplain (h .version)
  rfl

/-- Setting an option gives it a value and leaves the others alone. -/
theorem value?_set {f : Flag} {value : String} (hvalue : f ≠ .config → value = "true")
    (o : Options) (g : Flag) :
    (o.set value f).value? g = if g = f then some value else o.value? g := by
  cases f with
  | config => cases g <;> rfl
  | _ =>
    obtain rfl := hvalue (by decide)
    cases g <;> rfl

section Reading

variable {xs ys : List String} {settings settings' : List (Flag × String)}
  {waiting waiting' : Option String}

/-- Every list of arguments has a reading. -/
theorem exists_reads : ∀ xs : List String, ∃ settings waiting, Reads xs settings waiting
  | [] => ⟨[], none, .done⟩
  | arg :: args => by
    obtain ⟨settings, waiting, hrest⟩ := exists_reads args
    cases hf : Flag.ofArgument? arg with
    | none => exact ⟨settings, waiting, .other (Flag.ofArgument?_eq_none_iff.1 hf) hrest⟩
    | some f =>
      have harg := Flag.ofArgument?_eq_some_iff.1 hf
      by_cases hconfig : f = .config
      · subst hconfig
        cases args with
        | nil => exact ⟨[], some arg, .last harg⟩
        | cons value args =>
          obtain ⟨settings, waiting, hrest⟩ := exists_reads args
          exact ⟨_, waiting, .config harg value hrest⟩
      · exact ⟨_, waiting, .plain harg hconfig hrest⟩

/-- There is one reading of a list of arguments. -/
theorem Reads.unique (h : Reads xs settings waiting) (h' : Reads xs settings' waiting') :
    settings' = settings ∧ waiting' = waiting := by
  induction h generalizing settings' waiting' with
  | done =>
    cases h'
    exact ⟨rfl, rfl⟩
  | plain harg hf _ ih =>
    cases h' with
    | plain harg' _ hrest' =>
      obtain ⟨rfl, rfl⟩ := ih hrest'
      rw [harg.unique harg']
      exact ⟨rfl, rfl⟩
    | config harg' | last harg' => exact absurd (harg.unique harg') hf
    | other harg' => exact absurd harg (harg' _)
  | config harg value _ ih =>
    cases h' with
    | plain harg' hf' => exact absurd (harg'.unique harg) hf'
    | config _ _ hrest' =>
      obtain ⟨rfl, rfl⟩ := ih hrest'
      exact ⟨rfl, rfl⟩
    | other harg' => exact absurd harg (harg' _)
  | last harg =>
    cases h' with
    | plain harg' hf' => exact absurd (harg'.unique harg) hf'
    | last => exact ⟨rfl, rfl⟩
    | other harg' => exact absurd harg (harg' _)
  | other harg _ ih =>
    cases h' with
    | plain harg' | config harg' | last harg' => exact absurd harg' (harg _)
    | other _ hrest' => exact ih hrest'

/-- **Parsing sets the options in the order in which they are read.** -/
theorem Reads.parse_eq (h : Reads xs settings waiting) (o : Options) :
    parse o xs = (o.setAll settings, waiting.map MissingValue.mk) := by
  induction h generalizing o with
  | done => rw [parse]; rfl
  | @plain f arg args settings waiting harg hf _ ih =>
    have hparse : parse o (arg :: args) = parse (o.set "true" f) args := by
      rw [parse.eq_def]
      simp only [Flag.ofArgument?_eq_some_iff.2 harg]
    rw [hparse, ih]
    rfl
  | config harg value _ ih =>
    rw [parse, Flag.ofArgument?_eq_some_iff.2 harg]
    exact ih _
  | last harg =>
    rw [parse, Flag.ofArgument?_eq_some_iff.2 harg]
    rfl
  | other harg _ ih =>
    rw [parse.eq_def]
    simp only [Flag.ofArgument?_eq_none_iff.2 harg]
    exact ih o

/-- A setting is made before those after it, so the last one for an option counts. -/
theorem value?_setAll_cons {f g : Flag} {value : String} (hvalue : g ≠ .config → value = "true")
    (h : ∀ o : Options, (o.setAll settings).value? f = (settings.reverse.lookup f).or (o.value? f))
    (o : Options) :
    (o.setAll ((g, value) :: settings)).value? f =
      (((g, value) :: settings).reverse.lookup f).or (o.value? f) := by
  have hone : ([(g, value)].lookup f).or (o.value? f) =
      if f = g then some value else o.value? f := by
    by_cases hfg : f = g
    · simp [hfg]
    · simp [List.lookup_cons, beq_false_of_ne hfg, hfg]
  calc (o.setAll ((g, value) :: settings)).value? f
      = ((o.set value g).setAll settings).value? f := rfl
    _ = (settings.reverse.lookup f).or ((o.set value g).value? f) := h _
    _ = (settings.reverse.lookup f).or (([(g, value)].lookup f).or (o.value? f)) := by
        rw [value?_set hvalue, hone]
    _ = (((g, value) :: settings).reverse.lookup f).or (o.value? f) := by
        rw [List.reverse_cons, List.lookup_append, Option.or_assoc]

/-- **Each option has the last value that was given to it**, or else the one that it had. -/
theorem Reads.value?_setAll (h : Reads xs settings waiting) (o : Options) (f : Flag) :
    (o.setAll settings).value? f = (settings.reverse.lookup f).or (o.value? f) := by
  induction h generalizing o with
  | done => rfl
  | plain _ _ _ ih => exact value?_setAll_cons (fun _ => rfl) ih o
  | config _ value _ ih => exact value?_setAll_cons (absurd rfl) ih o
  | last => rfl
  | other _ _ ih => exact ih o

/-- Making the settings a second time changes nothing. -/
theorem Reads.setAll_setAll (h : Reads xs settings waiting) (o : Options) :
    (o.setAll settings).setAll settings = o.setAll settings := by
  refine ext_value? fun f => ?_
  rw [h.value?_setAll, h.value?_setAll, ← Option.or_assoc, Option.or_self]

/-- A reading that is not left waiting goes on with the arguments after it. -/
theorem Reads.append (h : Reads xs settings none) (h' : Reads ys settings' waiting') :
    Reads (xs ++ ys) (settings ++ settings') waiting' := by
  generalize hnone : (none : Option String) = waiting at h
  induction h with
  | done => exact h'
  | plain harg hf _ ih => exact .plain harg hf (ih hnone)
  | config harg value _ ih => exact .config harg value (ih hnone)
  | last => cases hnone
  | other harg _ ih => exact .other harg (ih hnone)

/-- The argument that is left waiting is the last one and asks for a value. What is read before it
is read without it as well, and is not left waiting. -/
theorem Reads.exists_init {arg : String} (h : Reads xs settings (some arg)) :
    ∃ init, xs = init ++ [arg] ∧ Flag.config.SpelledBy arg ∧ Reads init settings none := by
  generalize hsome : some arg = waiting at h
  induction h with
  | done => cases hsome
  | last harg =>
    obtain rfl := Option.some.inj hsome
    exact ⟨[], rfl, harg, .done⟩
  | plain harg hf _ ih =>
    obtain ⟨init, rfl, hlast, hinit⟩ := ih hsome
    exact ⟨_ :: init, rfl, hlast, .plain harg hf hinit⟩
  | config harg value _ ih =>
    obtain ⟨init, rfl, hlast, hinit⟩ := ih hsome
    exact ⟨_ :: value :: init, rfl, hlast, .config harg value hinit⟩
  | other harg _ ih =>
    obtain ⟨init, rfl, hlast, hinit⟩ := ih hsome
    exact ⟨_ :: init, rfl, hlast, .other harg hinit⟩

/-- A reading that is left waiting takes the argument that comes next as the value. -/
theorem Reads.resume {arg : String} (h : Reads xs settings (some arg)) (value : String) :
    Reads (xs ++ [value]) (settings ++ [(.config, value)]) none := by
  obtain ⟨init, rfl, harg, hinit⟩ := h.exists_init
  rw [List.append_assoc]
  exact hinit.append (.config harg value .done)

end Reading

section Parity

variable {α : Type} {p : α → Bool} {a : α}

/-- The run at the end of a list grows at its front only if it is the whole list. -/
theorem length_rtakeWhile_cons (p : α → Bool) (a : α) (l : List α) :
    ((a :: l).rtakeWhile p).length =
      if p a ∧ (l.rtakeWhile p).length = l.length then l.length + 1
      else (l.rtakeWhile p).length := by
  simp only [List.rtakeWhile, List.length_reverse, List.reverse_cons, List.takeWhile_append]
  by_cases hl : (l.reverse.takeWhile p).length = l.length
  · cases hp : p a <;> simp [hl, hp]
  · simp [hl]

/-- What does not belong to a run leaves the run at the end alone when it is put in front. -/
theorem length_rtakeWhile_of_not (ha : p a = false) (l : List α) :
    ((a :: l).rtakeWhile p).length = (l.rtakeWhile p).length := by
  rw [length_rtakeWhile_cons, if_neg (by simp [ha])]

/-- Two in front of a list, of which the first belongs to a run, make the run at its end longer by
two or by none. -/
theorem odd_rtakeWhile_cons_cons (ha : p a = true) (b : α) (l : List α) :
    Odd ((a :: b :: l).rtakeWhile p).length ↔ Odd (l.rtakeWhile p).length := by
  have hle : (l.rtakeWhile p).length ≤ l.length := (l.rtakeWhile_suffix p).length_le
  rw [length_rtakeWhile_cons, length_rtakeWhile_cons, List.length_cons]
  by_cases hrun : p b = true ∧ (l.rtakeWhile p).length = l.length
  · rw [if_pos hrun, if_pos ⟨ha, rfl⟩, hrun.2, Nat.odd_iff, Nat.odd_iff]
    omega
  · rw [if_neg hrun, if_neg (by omega)]

/-- **A reading is left waiting exactly if the run of arguments at the end that ask for a value has
an odd length.** -/
theorem Reads.isSome_iff_odd {xs : List String} {settings : List (Flag × String)}
    {waiting : Option String} (h : Reads xs settings waiting) :
    waiting.isSome ↔ Odd (xs.rtakeWhile asksForValue).length := by
  have hnot {arg : String} (harg : ¬ Flag.config.SpelledBy arg) : asksForValue arg = false :=
    Bool.eq_false_iff.2 fun hasks => harg (asksForValue_iff.1 hasks)
  induction h with
  | done => simp
  | plain harg hf _ ih =>
    rw [length_rtakeWhile_of_not (hnot fun hconfig => hf (harg.unique hconfig))]
    exact ih
  | config harg value _ ih =>
    rw [odd_rtakeWhile_cons_cons (asksForValue_iff.2 harg)]
    exact ih
  | last harg =>
    rw [length_rtakeWhile_cons, if_pos ⟨asksForValue_iff.2 harg, rfl⟩]
    simp
  | other harg _ ih =>
    rw [length_rtakeWhile_of_not (hnot (harg .config))]
    exact ih

end Parity

/-- **Parsing arguments composes.** The arguments have one reading, and parsing sets what is read,
in order; each option ends up with the last value that was given to it, or else with the one it had.
It fails exactly if the run of `-c` and `--config` at the end has an odd length. If it succeeds, more
arguments are parsed as if they came in a second call, and parsing the same ones again changes
nothing. If it fails, the last argument is the one without a value; all that the arguments before it
set stays set, and arguments that come after are parsed once the first of them has been taken as the
value. An option that is set is never unset. -/
theorem parse_composes (o : Options) (xs : List String) :
    (∃ settings waiting, (∀ settings' waiting', Reads xs settings' waiting' ↔
        settings' = settings ∧ waiting' = waiting) ∧
      parse o xs = (o.setAll settings, waiting.map MissingValue.mk) ∧
      ∀ f, (parse o xs).1.value? f = (settings.reverse.lookup f).or (o.value? f)) ∧
    ((parse o xs).2.isSome ↔ Odd (xs.rtakeWhile asksForValue).length) ∧
    ((parse o xs).2 = none →
      (∀ ys, parse o (xs ++ ys) = parse (parse o xs).1 ys) ∧
      parse (parse o xs).1 xs = parse o xs) ∧
    (∀ e, (parse o xs).2 = some e →
      ∃ init, xs = init ++ [e.argument] ∧ asksForValue e.argument ∧
        parse o init = ((parse o xs).1, none) ∧
        ∀ v ys, parse o (xs ++ [v] ++ ys) = parse { (parse o xs).1 with config := some v } ys) ∧
    ∀ f, (o.value? f).isSome → ((parse o xs).1.value? f).isSome := by
  obtain ⟨settings, waiting, h⟩ := exists_reads xs
  have hsetAll (l l' : List (Flag × String)) : o.setAll (l ++ l') = (o.setAll l).setAll l' :=
    List.foldl_append
  simp only [h.parse_eq]
  refine ⟨⟨settings, waiting, fun settings' waiting' => ⟨h.unique, ?_⟩, rfl, h.value?_setAll o⟩,
    ?_, ?_, ?_, ?_⟩
  · rintro ⟨rfl, rfl⟩
    exact h
  · rw [Option.isSome_map, h.isSome_iff_odd]
  · intro hnone
    obtain rfl := Option.map_eq_none_iff.1 hnone
    constructor
    · intro ys
      obtain ⟨settings', waiting', h'⟩ := exists_reads ys
      rw [(h.append h').parse_eq, h'.parse_eq, hsetAll]
    · rw [h.setAll_setAll]
  · intro e hsome
    obtain ⟨arg, rfl, rfl⟩ := Option.map_eq_some_iff.1 hsome
    obtain ⟨init, hxs, harg, hinit⟩ := h.exists_init
    refine ⟨init, hxs, asksForValue_iff.2 harg, hinit.parse_eq o, fun v ys => ?_⟩
    obtain ⟨settings', waiting', h'⟩ := exists_reads ys
    rw [((h.resume v).append h').parse_eq, h'.parse_eq, hsetAll, hsetAll]
    rfl
  · intro f hf
    rw [h.value?_setAll, Option.isSome_or, hf, Bool.or_true]

/-- A value may be spelled like an option, also like `config` itself: of `-c -c -q -c` the first two
go together, and the last one lacks its value. -/
theorem parse_composes_dangling :
    parse {} ["-c", "-c", "-q", "-c"] = ({ config := some "-c", quiet := true }, some ⟨"-c"⟩) ∧
    ∀ v ys, parse {} (["-c", "-c", "-q", "-c"] ++ [v] ++ ys) =
      parse { config := some v, quiet := true } ys := by
  have hparse : parse {} ["-c", "-c", "-q", "-c"] =
      ({ config := some "-c", quiet := true }, some ⟨"-c"⟩) := by decide
  obtain ⟨-, -, -, hfails, -⟩ := parse_composes {} ["-c", "-c", "-q", "-c"]
  rw [hparse] at hfails
  obtain ⟨init, -, -, -, hresume⟩ := hfails ⟨"-c"⟩ rfl
  exact ⟨hparse, hresume⟩

end Options
end LineShell
