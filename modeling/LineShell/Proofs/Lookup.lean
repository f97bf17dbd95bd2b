import LineShell.Proofs.FileContent
import LineShell.Proofs.Folding

/-!
# Looking paths up

A path is looked up by its text, and two texts may lead to the same place. Here are the cases in
which they differ by slashes: a slash after a directory (`entries?_append_slash`), and one between a
directory and what is joined to it (`Path.join_append_slash`). In both of them the names that are
walked are the same but for an empty one at the end, which a directory lets pass
(`through_append_slash`).

What does make a difference is the length of the text. A path of more than 4095 bytes is not walked
at all (`find?_of_long`), so that a slash may be one too many.

What is said of completing paths holds on every machine that lists its directories in this way
(`Host.ListsOnce`) and looks paths up in this way (`Host.LooksUp`), whether or not it lets all
directories be read.
-/

namespace LineShell

namespace Path

theorem isAbsolute_append_iff {p : String} (hp : p ≠ "") (q : String) :
    isAbsolute (p ++ q) = isAbsolute p := by
  obtain ⟨c, cs, hcs⟩ := List.exists_cons_of_ne_nil (mt String.toList_eq_nil_iff.1 hp)
  simp [isAbsolute, hcs]

/-- What comes after the start of a path does not matter to where the path is put. -/
theorem join_append (dir : String) {p : String} (hp : p ≠ "") (q : String) :
    join dir (p ++ q) = join dir p ++ q := by
  rw [join, join, isAbsolute_append_iff hp]
  split_ifs <;> simp only [String.append_assoc]

theorem join_of_slash {dir p : String} (hdir : dir.toList.getLast? = some '/')
    (hp : ¬ isAbsolute p) : join dir p = dir ++ p := by
  rw [join, if_neg hp, if_pos (.inr hdir)]

theorem getLast?_join (dir : String) {p : String} (hp : p ≠ "") :
    (join dir p).toList.getLast? = p.toList.getLast? := by
  have hne : p.toList ≠ [] := mt String.toList_eq_nil_iff.1 hp
  rw [join]
  split_ifs
  · rfl
  all_goals rw [String.toList_append, List.getLast?_append_of_ne_nil _ hne]

theorem join_ne_empty (dir : String) {p : String} (hp : p ≠ "") : join dir p ≠ "" := by
  rw [join]
  split_ifs <;> simp [hp]

/-- A slash at the end of a directory is the one that would be put there. -/
theorem join_append_slash {dir : String} (hne : dir ≠ "") (hdir : dir.toList.getLast? ≠ some '/')
    (p : String) : join (dir ++ "/") p = join dir p := by
  have hempty : dir.toList ≠ [] := mt String.toList_eq_nil_iff.1 hne
  simp [join, hdir, hempty]

theorem not_isAbsolute_of_not_mem {name : String} (h : '/' ∉ name.toList) : ¬ isAbsolute name := by
  rw [isAbsolute, beq_iff_eq]
  exact fun hhead => h (List.mem_of_head? hhead)

namespace IsName

instance (name : String) : Decidable (IsName name) :=
  decidable_of_iff (name ≠ "" ∧ name ≠ "." ∧ name ≠ ".." ∧ '/' ∉ name.toList)
    ⟨fun ⟨h₁, h₂, h₃, h₄⟩ => ⟨h₁, h₂, h₃, h₄⟩, fun ⟨h₁, h₂, h₃, h₄⟩ => ⟨h₁, h₂, h₃, h₄⟩⟩

variable {name : String} (h : IsName name)
include h

theorem not_isAbsolute : ¬ isAbsolute name :=
  not_isAbsolute_of_not_mem h.no_slash

theorem getLast?_ne : name.toList.getLast? ≠ some '/' :=
  fun hlast => h.no_slash (List.mem_of_getLast? hlast)

end IsName
end Path

namespace Walk

theorem names_append_slash {p : String} (hp : p.toList.getLast? ≠ some '/') :
    names (p ++ "/") = names p ++ [""] := by
  simp [names, hp, List.splitOn_append_cons_self]

theorem origin_append (cwd : Location) {p : String} (hp : p ≠ "") (q : String) :
    origin cwd (p ++ q) = origin cwd p := by
  obtain ⟨c, cs, hcs⟩ := List.exists_cons_of_ne_nil (mt String.toList_eq_nil_iff.1 hp)
  simp [origin, hcs]

theorem check_eq_ok_iff {p : String} :
    check p = .ok () ↔ '\x00' ∉ p.toList ∧ p ≠ "" ∧ p.utf8ByteSize ≤ 4095 := by
  rw [check]
  split_ifs <;> simp_all

section Slash

variable {d : Disk} {here place : Location} {ns : List String}

/-- A walk that ends at a directory can go on by a slash. -/
theorem Goes.append_slash {follow : Location → String → List String → Except OsError Spot}
    (h : Goes d false follow here ns (.found place)) (hplace : d.get? place = some .directory)
    (hfollow : ∀ here target rest, follow here target rest = .ok (.found place) →
      follow here target (rest ++ [""]) = .ok (.found place)) :
    Goes d false follow here (ns ++ [""]) (.found place) := by
  generalize hspot : Spot.found place = spot at h
  induction h with
  | stop here =>
    obtain rfl := Spot.found.inj hspot
    exact .stay hplace (.inr rfl) (.stop place)
  | stay hdir hname _ ih => exact .stay hdir hname (ih hspot)
  | up hdir _ _ ih => exact .up hdir (by simp) (ih hspot)
  | missing hdir hname hget => exact absurd hspot Spot.noConfusion
  | link hdir hname _ hget hf =>
    subst hspot
    exact .link hdir hname (by simp) hget (hfollow _ _ _ hf)
  | down hdir hname _ hget hlink _ ih => exact .down hdir hname (by simp) hget hlink (ih hspot)

theorem through_append_slash {links : Nat}
    (h : through d false links here ns = .ok (.found place))
    (hplace : d.get? place = some .directory) :
    through d false links here (ns ++ [""]) = .ok (.found place) := by
  induction links generalizing here ns with
  | zero =>
    rw [through] at h ⊢
    exact steps_of_goes ((goes_of_steps h).append_slash hplace fun _ _ _ hf => by cases hf)
  | succ links ih =>
    rw [through] at h ⊢
    refine steps_of_goes ((goes_of_steps h).append_slash hplace fun _ _ _ hf => ?_)
    rw [← List.append_assoc]
    exact ih hf

end Slash
end Walk

namespace Disk

theorem find?_eq_ok_iff {d : Disk} {cwd place : Location} {p : String} {node : Node} :
    d.find? cwd p = .ok (place, node) ↔ Walk.check p = .ok () ∧
      Walk.run d (Walk.origin cwd p) (Walk.names p) = .ok (.found place) ∧
      d.get? place = some node := by
  rw [find?, Walk.path]
  cases hcheck : Walk.check p with
  | error e => simp
  | ok =>
    rcases hrun : Walk.run d (Walk.origin cwd p) (Walk.names p) with e | ⟨place' | ⟨dir, name⟩⟩
    · simp
    · by_cases hplace : place' = place
      · subst hplace
        cases hget : d.get? place' <;> simp [hget]
      · cases hget : d.get? place' <;> simp [hget, hplace]
    · simp

end Disk

/-- All that directories hold has names that lead one level down. -/
def Host.HoldsNames {σ : Type} [Host σ] (s : σ) : Prop :=
  ∀ dir names, Host.entries? s dir = some names → ∀ name ∈ names, Path.IsName name

/-- Directories are listed by names that lead one level down, and no name comes twice. -/
structure Host.ListsOnce {σ : Type} [Host σ] (s : σ) : Prop where
  /-- There are names and nothing else. -/
  names : Host.HoldsNames s
  /-- Each of them stands for one entry. -/
  once : ∀ dir names, Host.entries? s dir = some names → names.Nodup

/-- What the text of a path does to what is found by it. -/
structure Host.LooksUp {σ : Type} [Host σ] (s : σ) : Prop where
  /-- Too long a path leads nowhere. -/
  long : ∀ p : String, 4095 < p.utf8ByteSize → Host.kind? s p = none ∧ Host.entries? s p = none
  /-- A slash after a directory leads to the same one: it can be read if that can. -/
  slash : ∀ p : String, Host.isDirectory s p → p.toList.getLast? ≠ some '/' →
    p.utf8ByteSize < 4095 → Host.entries? s (p ++ "/") = Host.entries? s p

namespace Machine

variable {m : Machine} {p : String}

theorem isDirectory_iff :
    Host.isDirectory m p ↔ ∃ place, m.disk.find? m.cwd p = .ok (place, .directory) := by
  rw [Host.isDirectory, beq_iff_eq]
  show m.disk.kind? m.cwd p = _ ↔ _
  rw [Disk.kind?]
  rcases m.disk.find? m.cwd p with e | ⟨place, node⟩
  · simp
  · cases node <;> simp [Disk.kindOf]

theorem entries?_of_find? {place : Location} (h : m.disk.find? m.cwd p = .ok (place, .directory)) :
    Host.entries? m p = some (m.disk.names place) := by
  show m.disk.entries? m.cwd p = _
  rw [Disk.entries?, h]

/-- It is enough to look at the locations on the disk. -/
theorem holdsNames (h : ∀ e ∈ m.disk.nodes, ∀ name ∈ e.1, Path.IsName name) :
    Host.HoldsNames m := by
  intro dir names hentries name hname
  change m.disk.entries? m.cwd dir = some names at hentries
  rw [Disk.entries?] at hentries
  split at hentries
  next place hfind =>
    obtain rfl := Option.some.inj hentries
    obtain ⟨⟨location, node⟩, he, hlast⟩ := List.mem_filterMap.1 hname
    have hlast : location.getLast? = some name := (Option.ite_none_right_eq_some.1 hlast).2
    exact h _ he name (List.mem_of_getLast? hlast)
  next => cases hentries

/-- No two entries of a directory have the same name if no two nodes have the same location. -/
theorem nodup_names {d : Disk} (h : (d.nodes.map Prod.fst).Nodup) (dir : Location) :
    (d.names dir).Nodup := by
  rw [List.Nodup, List.pairwise_map] at h
  rw [Disk.names, List.Nodup, List.pairwise_filterMap]
  refine h.imp fun {a b} hne name hname name' hname' heq => hne ?_
  -- a location is the directory it is in and its last name
  obtain ⟨hdir, hlast⟩ := Option.ite_none_right_eq_some.1 hname
  obtain ⟨hdir', hlast'⟩ := Option.ite_none_right_eq_some.1 hname'
  subst heq
  rw [← List.dropLast_append_getLast? _ hlast, ← List.dropLast_append_getLast? _ hlast', hdir,
    hdir']

theorem listsOnce (hnames : ∀ e ∈ m.disk.nodes, ∀ name ∈ e.1, Path.IsName name)
    (honce : (m.disk.nodes.map Prod.fst).Nodup) : Host.ListsOnce m where
  names := holdsNames hnames
  once := by
    intro dir names hentries
    change m.disk.entries? m.cwd dir = some names at hentries
    rw [Disk.entries?] at hentries
    split at hentries
    next place _ => exact Option.some.inj hentries ▸ nodup_names honce place
    next => cases hentries

/-- Too long a path leads nowhere. -/
theorem find?_of_long (hlong : 4095 < p.utf8ByteSize) (place : Location) (node : Node) :
    m.disk.find? m.cwd p ≠ .ok (place, node) := by
  intro h
  have hle := (Walk.check_eq_ok_iff.1 (Disk.find?_eq_ok_iff.1 h).1).2.2
  omega

theorem kind?_of_long (hlong : 4095 < p.utf8ByteSize) : Host.kind? m p = none := by
  show m.disk.kind? m.cwd p = none
  rw [Disk.kind?]
  split
  next => rfl
  next place node h => exact absurd h (find?_of_long hlong place node)

theorem entries?_of_long (hlong : 4095 < p.utf8ByteSize) : Host.entries? m p = none := by
  show m.disk.entries? m.cwd p = none
  rw [Disk.entries?]
  split
  next place h => exact absurd h (find?_of_long hlong place _)
  next => rfl

/-- **A slash after a directory changes nothing**, as long as the path does not get too long. -/
theorem entries?_append_slash (hdir : Host.isDirectory m p)
    (hlast : p.toList.getLast? ≠ some '/') (hlt : p.utf8ByteSize < 4095) :
    Host.entries? m (p ++ "/") = Host.entries? m p := by
  obtain ⟨place, hfind⟩ := isDirectory_iff.1 hdir
  rw [entries?_of_find? hfind]
  refine entries?_of_find? ?_
  obtain ⟨hcheck, hrun, hget⟩ := Disk.find?_eq_ok_iff.1 hfind
  obtain ⟨hnul, hne, -⟩ := Walk.check_eq_ok_iff.1 hcheck
  have hsize : (p ++ "/").utf8ByteSize = p.utf8ByteSize + 1 := by
    rw [String.utf8ByteSize_append]
    rfl
  refine Disk.find?_eq_ok_iff.2 ⟨Walk.check_eq_ok_iff.2 ⟨?_, ?_, ?_⟩, ?_, hget⟩
  · simpa using hnul
  · simp
  · omega
  · rw [Walk.origin_append m.cwd hne, Walk.names_append_slash hlast]
    exact Walk.through_append_slash hrun hget

theorem looksUp (m : Machine) : Host.LooksUp m where
  long _ hlong := ⟨kind?_of_long hlong, entries?_of_long hlong⟩
  slash _ := entries?_append_slash

end Machine

end LineShell
