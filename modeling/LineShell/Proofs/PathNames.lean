import LineShell.Machine.Setup
import LineShell.Proofs.Cutting
import LineShell.Proofs.Lookup
import LineShell.Proofs.Suggestions

/-!
# The paths that are offered

A word that is no command name is completed as a path. It is cut after its last slash: the first part
leads to a directory (`searched`), and the second is what was typed of the name of an entry. What is
offered are the entries whose names fit (`Visible`), spelled with the first part as it was typed
(`spelling`). `mem_pathNames` says so, whatever the machine; that each of them starts with the word
(`prefix_of_mem_pathNames`) is how the two parts come together again. They are put in order, and
nothing is dropped. That none of them comes twice is owed to the machine, which lists no name twice,
and to the spelling, which gives no two names the same text (`spelling_inj`).

An entry that is a directory ends in a slash, so that its own entries can be asked for next. These
are looked for by a path that is longer by that slash, and a machine lists the same there
(`offers_below`), which is nothing if the directory cannot be read. Only a path that gets too long
breaks the chain: it is not looked up any more, and `long_directory_without_slash` shows both places
where this can be seen.
-/

namespace LineShell
namespace Completion

section Offered

variable {σ : Type} [Host σ]

/-- The directory that is looked into, for the part of a word up to its last slash. -/
def searched (cwd dir : String) : String :=
  if dir = "" then cwd else Path.join cwd dir

/-- How an entry of the directory at a path is spelled: the directory as it was typed, the name, and
a slash if looking the entry up finds a directory. -/
def spelling (s : σ) (place dir name : String) : String :=
  if Host.isDirectory s (Path.join place name) then dir ++ name ++ "/" else dir ++ name

/-- A name fits what was typed of it: it starts so, and if it starts with a dot, the dot was
typed. -/
structure Fits (typed name : String) : Prop where
  /-- It starts with what was typed. -/
  starts : typed.toList <+: name.toList
  /-- Names with a dot in front are shown on demand. -/
  dot : name.toList.head? = some '.' → typed.toList.head? = some '.'

/-- An entry of a directory that can be read and whose name fits. -/
def Visible (s : σ) (place typed name : String) : Prop :=
  ∃ names, Host.entries? s place = some names ∧ name ∈ names ∧ Fits typed name

theorem startsWith_dot_iff {name : String} :
    Names.startsWith name "." ↔ name.toList.head? = some '.' :=
  Names.startsWith_iff_head? rfl

theorem offered_iff {typed name : String} : offered typed name ↔ Fits typed name := by
  rw [offered, Bool.and_eq_true, Bool.or_eq_true, startsWith_dot_iff, Bool.not_eq_true',
    ← Bool.not_eq_true, startsWith_dot_iff, Names.startsWith, List.isPrefixOf_iff_prefix,
    ← imp_iff_not_or]
  constructor
  · rintro ⟨hstarts, hdot⟩
    exact ⟨hstarts, hdot⟩
  · rintro ⟨hstarts, hdot⟩
    exact ⟨hstarts, hdot⟩

variable {s : σ} {cwd word dir typed : String}

theorem visible_iff {place name : String} {names : List String}
    (h : Host.entries? s place = some names) :
    Visible s place typed name ↔ name ∈ names.filter (offered typed) := by
  simp [Visible, h, offered_iff]

theorem pathNames_eq (h : CutAt '/' word dir typed) :
    pathNames cwd word s =
      ((Host.entries? s (searched cwd dir)).elim [] fun names =>
        Names.ordered ((names.filter (offered typed)).map (spelling s (searched cwd dir) dir))) := by
  simp only [pathNames, h.cutAfterLast_eq, String.ofList_toList, String.toList_eq_nil_iff]
  rw [← searched]
  cases Host.entries? s (searched cwd dir) <;> rfl

/-- **What is offered are the visible entries**, each as it is spelled. -/
theorem mem_pathNames (h : CutAt '/' word dir typed) {p : String} :
    p ∈ pathNames cwd word s ↔ ∃ name, Visible s (searched cwd dir) typed name ∧
      spelling s (searched cwd dir) dir name = p := by
  rw [pathNames_eq h]
  cases he : Host.entries? s (searched cwd dir) with
  | none => simp [Visible, he]
  | some names => simp [visible_iff he, and_assoc]

theorem pathNames_of_unread (h : CutAt '/' word dir typed)
    (hread : Host.entries? s (searched cwd dir) = none) : pathNames cwd word s = [] := by
  rw [pathNames_eq h, hread]
  rfl

theorem pairwise_le_pathNames (cwd word : String) (s : σ) :
    (pathNames cwd word s).Pairwise (· ≤ ·) := by
  obtain ⟨dir, typed, h⟩ := exists_cutAt '/' word
  rw [pathNames_eq h]
  cases Host.entries? s _ with
  | none => exact .nil
  | some names => exact Names.pairwise_ordered _

/-- No two names are spelled alike: a slash stands at the end of one only if it was put there. -/
theorem spelling_inj {place name name' : String} (hname : '/' ∉ name.toList)
    (hname' : '/' ∉ name'.toList) (h : spelling s place dir name = spelling s place dir name') :
    name = name' := by
  rw [← String.toList_inj] at h ⊢
  rw [spelling, spelling] at h
  split_ifs at h
  · simpa using h
  · simp only [String.toList_append, List.append_assoc, List.append_cancel_left_eq] at h
    exact absurd (h ▸ List.mem_append_right _ List.mem_cons_self) hname'
  · simp only [String.toList_append, List.append_assoc, List.append_cancel_left_eq] at h
    exact absurd (h ▸ List.mem_append_right _ List.mem_cons_self) hname
  · simpa using h

/-- **No path is offered twice** where no name is listed twice. -/
theorem pairwise_lt_pathNames (hs : Host.ListsOnce s) (cwd word : String) :
    (pathNames cwd word s).Pairwise (· < ·) := by
  obtain ⟨dir, typed, h⟩ := exists_cutAt '/' word
  rw [pathNames_eq h]
  cases hentries : Host.entries? s _ with
  | none => exact .nil
  | some names =>
    refine Names.pairwise_lt_ordered (List.Nodup.map_on ?_ ((hs.once _ _ hentries).filter _))
    have hslash : ∀ name ∈ names.filter (offered typed), '/' ∉ name.toList := fun name hmem =>
      (hs.names _ _ hentries name (List.mem_of_mem_filter hmem)).no_slash
    exact fun name hmem name' hmem' => spelling_inj (hslash name hmem) (hslash name' hmem')

theorem prefix_spelling (s : σ) (place dir name : String) :
    (dir ++ name).toList <+: (spelling s place dir name).toList := by
  rw [spelling]
  split_ifs
  · rw [String.toList_append (s := dir ++ name)]
    exact List.prefix_append ..
  · exact List.prefix_rfl

/-- What is offered for a word starts with it. -/
theorem prefix_of_mem_pathNames {p : String} (hp : p ∈ pathNames cwd word s) :
    word.toList <+: p.toList := by
  obtain ⟨dir, typed, h⟩ := exists_cutAt '/' word
  obtain ⟨name, ⟨names, -, -, hfits⟩, rfl⟩ := (mem_pathNames h).1 hp
  refine List.IsPrefix.trans ?_ (prefix_spelling s _ _ name)
  conv => lhs; rw [← h.joined]
  rw [String.toList_append, String.toList_append]
  exact (List.prefix_append_right_inj _).2 hfits.starts

/-- Nothing that is offered for a word is dropped again. -/
theorem mem_matching_pathNames {p : String} :
    p ∈ matching word (pathNames cwd word s) ↔ p ∈ pathNames cwd word s :=
  ⟨And.left, fun hp => ⟨hp, prefix_of_mem_pathNames hp⟩⟩

theorem hits_pathNames (hs : Host.ListsOnce s) (cwd word : String) :
    hits word (pathNames cwd word s) = pathNames cwd word s :=
  hits_eq_iff.2 ⟨pairwise_lt_pathNames hs cwd word, fun _ => mem_matching_pathNames.symm⟩

section Below

variable {name : String}

/-- After an entry and a slash were typed, the entry is looked into. -/
theorem searched_entry (cwd : String) (hdir : dir = "" ∨ dir.toList.getLast? = some '/')
    (hname : Path.IsName name) :
    searched cwd (dir ++ name ++ "/") = Path.join (searched cwd dir) name ++ "/" := by
  have hne : dir ++ name ++ "/" ≠ "" := by simp [hname.ne_empty]
  rw [searched, if_neg hne, searched]
  split_ifs with hempty
  · rw [hempty, String.empty_append, Path.join_append cwd hname.ne_empty]
  · have hslash : (Path.join cwd dir).toList.getLast? = some '/' := by
      rw [Path.getLast?_join cwd hempty]
      exact hdir.resolve_left hempty
    rw [Path.join_of_slash hslash hname.not_isAbsolute, String.append_assoc,
      Path.join_append cwd hempty, String.append_assoc]

theorem cutAt_entry (dir name : String) :
    CutAt '/' (dir ++ name ++ "/") (dir ++ name ++ "/") "" where
  joined := String.append_empty
  ends := .inr (by simp)
  free := by simp

/-- A slash after a directory does not change how its entries are spelled. -/
theorem spelling_append_slash (s : σ) {place : String} (hne : place ≠ "")
    (hlast : place.toList.getLast? ≠ some '/') (dir name : String) :
    spelling s (place ++ "/") dir name = spelling s place dir name := by
  rw [spelling, spelling, Path.join_append_slash hne hlast]

end Below

/-- What there is to say of the paths that are offered for what was typed of a name, of entries of
the directory at a path. -/
structure Offers (s : σ) (place dir typed : String) (paths : List String) : Prop where
  /-- They are in increasing order. -/
  sorted : paths.Pairwise (· ≤ ·)
  /-- None comes twice if the machine lists no name twice. -/
  once : Host.ListsOnce s → paths.Nodup
  /-- They are the visible entries of the directory, as they are spelled. -/
  mem_iff (p : String) : p ∈ paths ↔
    ∃ name, Visible s place typed name ∧ spelling s place dir name = p
  /-- There are none if the directory cannot be read. -/
  unread : Host.entries? s place = none → paths = []

theorem offers_pathNames (h : CutAt '/' word dir typed) :
    Offers s (searched cwd dir) dir typed (pathNames cwd word s) where
  sorted := pairwise_le_pathNames cwd word s
  once hs := (pairwise_lt_pathNames hs cwd word).imp ne_of_lt
  mem_iff _ := mem_pathNames h
  unread := pathNames_of_unread h

/-- Only what a directory holds matters to what is offered of it. -/
theorem Offers.congr {place place' : String} {paths : List String}
    (h : Offers s place dir typed paths) (hentries : Host.entries? s place' = Host.entries? s place)
    (hspelling : ∀ name, spelling s place' dir name = spelling s place dir name) :
    Offers s place' dir typed paths := by
  refine ⟨h.sorted, h.once, fun p => ?_, fun hread => h.unread (hentries ▸ hread)⟩
  rw [h.mem_iff]
  simp only [Visible, hentries, hspelling]

section Below

variable {name : String}

/-- Too long a path is not found to be a directory. -/
theorem spelling_of_long (hs : Host.LooksUp s) {place : String}
    (h : 4095 < (Path.join place name).utf8ByteSize) :
    spelling s place dir name = dir ++ name := by
  refine if_neg ?_
  rw [Host.isDirectory, (hs.long _ h).1]
  decide

theorem getLast?_join_entry (place : String) (hname : Path.IsName name) :
    (Path.join place name).toList.getLast? ≠ some '/' := by
  rw [Path.getLast?_join _ hname.ne_empty]
  exact hname.getLast?_ne

/-- **What is offered below an entry** that is a directory are its visible entries. -/
theorem offers_below (hs : Host.LooksUp s) (hdir : dir = "" ∨ dir.toList.getLast? = some '/')
    (hname : Path.IsName name) (hmark : Host.isDirectory s (Path.join (searched cwd dir) name))
    (hlt : (Path.join (searched cwd dir) name).utf8ByteSize < 4095) :
    Offers s (Path.join (searched cwd dir) name) (dir ++ name ++ "/") ""
      (pathNames cwd (dir ++ name ++ "/") s) := by
  have hlast := getLast?_join_entry (searched cwd dir) hname
  have hne := Path.join_ne_empty (searched cwd dir) hname.ne_empty
  have hoffers : Offers s _ _ _ (pathNames cwd _ s) := offers_pathNames (cutAt_entry dir name)
  rw [searched_entry cwd hdir hname] at hoffers
  exact hoffers.congr (hs.slash _ hmark hlast hlt).symm fun below =>
    (spelling_append_slash s hne hlast _ below).symm

/-- Nothing is offered below an entry if a slash makes its path too long. -/
theorem pathNames_below_of_long (hs : Host.LooksUp s)
    (hdir : dir = "" ∨ dir.toList.getLast? = some '/') (hname : Path.IsName name)
    (hge : 4095 ≤ (Path.join (searched cwd dir) name).utf8ByteSize) :
    pathNames cwd (dir ++ name ++ "/") s = [] := by
  have hslash : "/".utf8ByteSize = 1 := rfl
  refine pathNames_of_unread (cutAt_entry dir name) (hs.long _ ?_).2
  rw [searched_entry cwd hdir hname, String.utf8ByteSize_append, hslash]
  omega

end Below
end Offered

/-- **Paths are completed to the visible entries of a directory**, on every machine. A word is cut
after its last slash. The paths offered for it are, in increasing order, the entries of the
directory that the first part leads to from the working directory, with names that start with the
second part, and with a dot only if that does. Each is spelled as it was typed, with a slash at its
end if looking the entry up finds a directory. There are none if the directory cannot be read. All of
them start with the word, so that completing it drops none. Where no directory lists a name twice,
no path comes twice, and completing the word goes through just this list.

Where too long a path is not looked up and a slash after a directory leads to the same one, an entry
with too long a path gets no slash. When an entry that is found to be a directory is completed
further, its own visible entries are offered. None are if it cannot be read, or if the slash makes
its path too long. -/
theorem visible_entries_offered {σ : Type} [Host σ] (s : σ) (cwd word : String) :
    ∃ dir typed, CutAt '/' word dir typed ∧
      Offers s (searched cwd dir) dir typed (pathNames cwd word s) ∧
      (∀ p ∈ pathNames cwd word s, word.toList <+: p.toList) ∧
      (∀ p, p ∈ hits word (pathNames cwd word s) ↔ p ∈ pathNames cwd word s) ∧
      (Host.ListsOnce s → hits word (pathNames cwd word s) = pathNames cwd word s) ∧
      (Host.LooksUp s → ∀ name, Path.IsName name →
        (4095 < (Path.join (searched cwd dir) name).utf8ByteSize →
          spelling s (searched cwd dir) dir name = dir ++ name) ∧
        (Host.isDirectory s (Path.join (searched cwd dir) name) →
          (Path.join (searched cwd dir) name).utf8ByteSize < 4095 →
            Offers s (Path.join (searched cwd dir) name) (dir ++ name ++ "/") ""
              (pathNames cwd (dir ++ name ++ "/") s)) ∧
        (Host.isDirectory s (Path.join (searched cwd dir) name) →
          Host.entries? s (Path.join (searched cwd dir) name) = none →
            pathNames cwd (dir ++ name ++ "/") s = []) ∧
        (4095 ≤ (Path.join (searched cwd dir) name).utf8ByteSize →
          pathNames cwd (dir ++ name ++ "/") s = [])) := by
  obtain ⟨dir, typed, hcut⟩ := exists_cutAt '/' word
  refine ⟨dir, typed, hcut, offers_pathNames hcut, fun p => prefix_of_mem_pathNames,
    fun p => mem_hits.trans mem_matching_pathNames, fun hs => hits_pathNames hs cwd word,
    fun hs name hname => ?_⟩
  refine ⟨spelling_of_long hs, offers_below hs hcut.ends hname, fun hmark hread => ?_,
    pathNames_below_of_long hs hcut.ends hname⟩
  rcases Nat.lt_or_ge (Path.join (searched cwd dir) name).utf8ByteSize 4095 with hlt | hge
  · exact (offers_below hs hcut.ends hname hmark hlt).unread hread
  · exact pathNames_below_of_long hs hcut.ends hname hge

/-- A machine with a file and a hidden file in a directory of a directory. -/
def besideSource : Machine :=
  .ofDisk (((Disk.base.installDirectory [] "/r/src/bin").install [] "/r/src/main" (.file [] {})).install
    [] "/r/src/.old" (.file [] {})) "/r" [] []

theorem listsOnce_besideSource : Host.ListsOnce besideSource :=
  Machine.listsOnce (by decide +kernel) (by decide +kernel)

/-- From `/r` the directory `src` is offered with a slash, and below it its entries are, one of
which is a directory again; the one with a dot in front is not. -/
theorem visible_entries_offered_src :
    Host.ListsOnce besideSource ∧ Host.LooksUp besideSource ∧
      pathNames "/r" "s" besideSource = ["src/"] ∧
      hits "s" (pathNames "/r" "s" besideSource) = ["src/"] ∧
      pathNames "/r" "src/" besideSource = ["src/bin/", "src/main"] ∧
      Offers besideSource "/r/src" "src/" "" (pathNames "/r" "src/" besideSource) := by
  have hname : Path.IsName "src" := by decide
  have hoffered : pathNames "/r" "s" besideSource = ["src/"] := by decide +kernel
  obtain ⟨dir, typed, hcut, -, -, -, hhits, hbelow⟩ := visible_entries_offered besideSource "/r" "s"
  obtain ⟨rfl, rfl⟩ := hcut.unique ⟨String.empty_append, .inl rfl, by decide⟩
  obtain ⟨-, hoffers, -, -⟩ := hbelow (Machine.looksUp besideSource) "src" hname
  exact ⟨listsOnce_besideSource, Machine.looksUp besideSource, hoffered,
    (hhits listsOnce_besideSource).trans hoffered, by decide +kernel,
    hoffers (by decide +kernel) (by decide)⟩

/-- A path of slashes only, which leads to the root. -/
def slashes (n : Nat) : String :=
  String.ofList (List.replicate n '/')

section Slashes

variable {n : Nat}

theorem utf8ByteSize_slashes (n : Nat) : (slashes n).utf8ByteSize = n := by
  rw [← byteLength_toList, slashes, String.toList_ofList]
  induction n with
  | zero => rfl
  | succ n ih =>
    rw [List.replicate_succ, byteLength, ih, Nat.add_comm]
    rfl

theorem getLast?_slashes (h : 0 < n) : (slashes n).toList.getLast? = some '/' := by
  simp [slashes, List.getLast?_replicate, h.ne']

theorem searched_slashes (h : 0 < n) (cwd : String) : searched cwd (slashes n) = slashes n := by
  have habs : Path.isAbsolute (slashes n) := by
    simp [Path.isAbsolute, slashes, List.head?_replicate, h.ne']
  rw [searched, Path.join, if_pos habs, if_neg]
  rintro hempty
  simp [hempty, Path.isAbsolute] at habs

theorem join_slashes (h : 0 < n) {name : String} (hname : Path.IsName name) :
    Path.join (slashes n) name = slashes n ++ name :=
  Path.join_of_slash (getLast?_slashes h) hname.not_isAbsolute

theorem filter_splitOn_slashes (n : Nat) (l : List Char) :
    ((List.replicate n '/' ++ l).splitOn '/').filter (· ≠ []) =
      (l.splitOn '/').filter (· ≠ []) := by
  induction n with
  | zero => rfl
  | succ n ih =>
    rw [List.replicate_succ, List.cons_append, List.splitOn_cons_eq_if_modifyHead]
    simpa using ih

/-- Many slashes in front of a path are as good as one. -/
theorem names_slashes_append (h : 0 < n) (p : String) :
    Walk.names (slashes n ++ p) = Walk.names ("/" ++ p) := by
  have hlast : (slashes n ++ p).toList.getLast? = ("/" ++ p).toList.getLast? := by
    simp only [String.toList_append, List.getLast?_append, getLast?_slashes h]
    rfl
  have hsplit := (filter_splitOn_slashes n p.toList).trans (filter_splitOn_slashes 1 p.toList).symm
  rw [Walk.names, Walk.names, hlast, String.toList_append, slashes, String.toList_ofList, hsplit,
    String.toList_append]
  rfl

theorem find?_slashes_append {d : Disk} {p : String} {place : Location} {node : Node} (h : 0 < n)
    (hnul : '\x00' ∉ p.toList) (hsize : n + p.utf8ByteSize ≤ 4095)
    (hrun : Walk.run d [] (Walk.names ("/" ++ p)) = .ok (.found place))
    (hget : d.get? place = some node) : d.find? [] (slashes n ++ p) = .ok (place, node) := by
  refine Disk.find?_eq_ok_iff.2 ⟨Walk.check_eq_ok_iff.2 ⟨?_, ?_, ?_⟩, ?_, hget⟩
  · simp [slashes, hnul]
  · intro hempty
    have := congrArg String.utf8ByteSize hempty
    rw [String.utf8ByteSize_append, utf8ByteSize_slashes, String.utf8ByteSize_empty] at this
    omega
  · rwa [String.utf8ByteSize_append, utf8ByteSize_slashes]
  · rw [names_slashes_append h, Walk.origin, ite_self]
    exact hrun

/-- An entry of the root whose path is too long is offered without a slash. -/
theorem spelling_slashes {m : Machine} (h : 0 < n) {name : String} (hname : Path.IsName name)
    (hsize : 4095 < n + name.utf8ByteSize) :
    spelling m (slashes n) (slashes n) name = slashes n ++ name := by
  refine spelling_of_long (Machine.looksUp m) ?_
  rwa [join_slashes h hname, String.utf8ByteSize_append, utf8ByteSize_slashes]

/-- Of an entry of the root whose path is as long as can be nothing is offered. -/
theorem pathNames_below_slashes (m : Machine) (h : 0 < n) {name : String}
    (hname : Path.IsName name) (hsize : 4095 ≤ n + name.utf8ByteSize) (cwd : String) :
    pathNames cwd (slashes n ++ name ++ "/") m = [] := by
  refine pathNames_below_of_long (Machine.looksUp m) (.inr (getLast?_slashes h)) hname ?_
  rwa [searched_slashes h, join_slashes h hname, String.utf8ByteSize_append, utf8ByteSize_slashes]

end Slashes

/-- A machine with a directory at its root and a file in that. -/
def besideFolder : Machine :=
  { disk := { nodes := [(["s"], .directory), (["s", "f"], .file [] {})] } }

/-- **A directory may be offered without a slash, or with a slash and nothing below it.** The root
holds the directory `s`. A path of 4095 slashes leads to the root and can be read, but with the
name `s` it is too long to be looked up, and what is offered looks like a file. With one slash less
the directory is found, and what it holds can be read. Once it is typed with a slash, nothing is
offered. -/
theorem long_directory_without_slash :
    besideFolder.disk.get? ["s"] = some .directory ∧
      Host.entries? besideFolder (slashes 4095) = some ["s"] ∧
      pathNames "/" (slashes 4095) besideFolder = [slashes 4095 ++ "s"] ∧
      Host.isDirectory besideFolder (slashes 4094 ++ "s") ∧
      Host.entries? besideFolder (slashes 4094 ++ "s") = some ["f"] ∧
      pathNames "/" (slashes 4094 ++ "s" ++ "/") besideFolder = [] := by
  have hname : Path.IsName "s" := ⟨by decide, by decide, by decide, by decide⟩
  have hroot : besideFolder.disk.find? [] (slashes 4095 ++ "") = .ok ([], .directory) :=
    find?_slashes_append (by decide) (by decide) (by decide) (by decide +kernel) rfl
  have hfolder : besideFolder.disk.find? [] (slashes 4094 ++ "s") = .ok (["s"], .directory) :=
    find?_slashes_append (by decide) (by decide) (by decide) (by decide +kernel) rfl
  rw [String.append_empty] at hroot
  have hentries : Host.entries? besideFolder (slashes 4095) = some ["s"] :=
    (Machine.entries?_of_find? hroot).trans (by decide +kernel)
  have hmark : Host.isDirectory besideFolder (slashes 4094 ++ "s") :=
    Machine.isDirectory_iff.2 ⟨_, hfolder⟩
  refine ⟨rfl, hentries, ?_, hmark, (Machine.entries?_of_find? hfolder).trans (by decide +kernel),
    pathNames_below_slashes besideFolder (by decide) hname (by decide) "/"⟩
  have hcut : CutAt '/' (slashes 4095) (slashes 4095) "" :=
    ⟨String.append_empty, .inr (getLast?_slashes (by decide)), List.not_mem_nil⟩
  have hfits : ["s"].filter (offered "") = ["s"] := by decide
  rw [pathNames_eq hcut, searched_slashes (by decide), hentries, Option.elim_some, hfits,
    List.map_singleton, spelling_slashes (by decide) hname (by decide)]
  rfl

end Completion
end LineShell
