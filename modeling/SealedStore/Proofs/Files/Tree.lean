/-
  One directory among all files.

  A path into a directory leads to the place of its last name there, as long as the directory is
  one and the path is not too long (`resolve_join`).  Following names asks for nothing but
  directories, so what is done to files leaves every path to a directory as it was
  (`resolve_of_directories`).  What lies in a directory is listed by name, and the name of a
  temporary file is none of these.
-/
import SealedStore.Files.Tree
import SealedStore.Proofs.Codec.Reader

namespace SealedStore

/-! ## Texts of paths -/

namespace Path

theorem segments_ne_nil (cs : List Char) : segments cs ≠ [] := by
  cases cs with
  | nil => exact List.cons_ne_nil _ _
  | cons c cs =>
    rw [segments]
    split
    · exact List.cons_ne_nil _ _
    · split <;> exact List.cons_ne_nil _ _

/-- A slash parts a path into what is before it and what is behind it. -/
theorem segments_append_slash (cs ds : List Char) :
    segments (cs ++ '/' :: ds) = segments cs ++ segments ds := by
  induction cs with
  | nil => rfl
  | cons c cs ih =>
    rw [List.cons_append, segments, segments, ih]
    by_cases hc : c = '/'
    · rw [if_pos hc, if_pos hc, List.cons_append]
    · rw [if_neg hc, if_neg hc]
      cases hsegs : segments cs with
      | nil => exact absurd hsegs (segments_ne_nil cs)
      | cons seg segs => rfl

theorem segments_of_not_mem {cs : List Char} (h : '/' ∉ cs) : segments cs = [cs] := by
  induction cs with
  | nil => rfl
  | cons c cs ih =>
    have hc : c ≠ '/' := fun heq => h (heq ▸ List.mem_cons_self)
    rw [segments, if_neg hc, ih fun hmem => h (List.mem_cons_of_mem _ hmem)]

/-- A slash divides a directory from a name in it, unless the directory ends in one. -/
theorem toList_join {dir name : String} (hdir : dir.toList ≠ []) (hname : '/' ∉ name.toList) :
    (∃ front, dir.toList = front ++ ['/'] ∧ (join dir name).toList = front ++ '/' :: name.toList) ∨
      (dir.toList.getLast? ≠ some '/' ∧
        (join dir name).toList = dir.toList ++ '/' :: name.toList) := by
  have hrelative : isAbsolute name = false := by
    unfold isAbsolute
    cases hchars : name.toList with
    | nil => rfl
    | cons c cs =>
      have hc : c ≠ '/' := fun heq => hname (hchars ▸ heq ▸ List.mem_cons_self)
      simp [hc]
  have hnonempty : dir.isEmpty = false := by
    rw [Ne, String.toList_eq_nil_iff, ← String.isEmpty_iff] at hdir
    exact Bool.eq_false_iff.mpr hdir
  unfold join
  rw [hrelative, hnonempty, Bool.or_false, if_neg Bool.false_ne_true]
  by_cases hlast : dir.toList.getLast? = some '/'
  · obtain ⟨front, hfront⟩ := List.getLast?_eq_some_iff.mp hlast
    refine .inl ⟨front, hfront, ?_⟩
    rw [if_pos (beq_iff_eq.mpr hlast), String.toList_append, hfront, List.append_assoc]
    rfl
  · refine .inr ⟨hlast, ?_⟩
    rw [if_neg fun h => hlast (beq_iff_eq.mp h), String.toList_append, String.toList_append,
      List.append_assoc]
    rfl

/-- Joining a name to a path takes one byte more at most, for the slash. -/
theorem utf8ByteSize_join_le (dir name : String) :
    (join dir name).utf8ByteSize ≤ dir.utf8ByteSize + 1 + name.utf8ByteSize := by
  have hslash : ("/" : String).utf8ByteSize = 1 := rfl
  unfold join
  split
  · omega
  split
  · rw [String.utf8ByteSize_append]
    omega
  · rw [String.utf8ByteSize_append, String.utf8ByteSize_append]
    omega

end Path

namespace FileTree

/-! ## Names -/

/-- A name of a file of its own in a directory. -/
structure IsPlain (name : String) : Prop where
  nonempty : name.toList ≠ []
  slashless : '/' ∉ name.toList
  zeroless : '\x00' ∉ name.toList
  notHere : Utf8.encode name ≠ here
  notUp : Utf8.encode name ≠ up
  short : (Utf8.encode name).length ≤ maxNameLength

/-- What a slash at the end of a path asks for. -/
def trailing (path : String) : List FileName :=
  if path.toList.getLast? == some '/' then [here] else []

/-- Joining a plain name to a path adds it to the names of the path. -/
theorem namesOf_join {dir name : String} (hdir : dir.toList ≠ []) (hname : IsPlain name) :
    namesOf (Path.join dir name) = namesOf dir ++ [Utf8.encode name] := by
  have hlast : (Path.segments name.toList).filter (fun seg => !seg.isEmpty) = [name.toList] := by
    rw [Path.segments_of_not_mem hname.slashless]
    simp [hname.nonempty]
  unfold namesOf
  rcases Path.toList_join hdir hname.slashless with ⟨front, hfront, hjoin⟩ | ⟨-, hjoin⟩
  · -- the slash at the end of the directory adds an empty segment to its own
    rw [hjoin, hfront, Path.segments_append_slash, Path.segments_append_slash, List.filter_append,
      List.filter_append, hlast, List.map_append, List.map_append]
    simp [Path.segments, Utf8.encode]
  · rw [hjoin, Path.segments_append_slash, List.filter_append, hlast, List.map_append]
    rfl

/-- The path of a name in a directory has the slash and the name at its end. -/
theorem exists_join_eq {dir name : String} (hdir : dir.toList ≠ []) (hname : IsPlain name) :
    ∃ front, (Path.join dir name).toList = front ++ '/' :: name.toList := by
  rcases Path.toList_join hdir hname.slashless with ⟨front, -, hjoin⟩ | ⟨-, hjoin⟩
  · exact ⟨front, hjoin⟩
  · exact ⟨dir.toList, hjoin⟩

theorem join_ne_nil {dir name : String} (hdir : dir.toList ≠ []) (hname : IsPlain name) :
    (Path.join dir name).toList ≠ [] := by
  obtain ⟨front, hjoin⟩ := exists_join_eq hdir hname
  rw [hjoin]
  exact List.append_ne_nil_of_right_ne_nil _ (List.cons_ne_nil _ _)

/-- A path to a plain name does not end with a slash. -/
theorem trailing_join {dir name : String} (hdir : dir.toList ≠ []) (hname : IsPlain name) :
    trailing (Path.join dir name) = [] := by
  obtain ⟨front, hjoin⟩ := exists_join_eq hdir hname
  obtain ⟨init, c, hchars⟩ := (List.eq_nil_or_concat name.toList).resolve_left hname.nonempty
  have hc : c ≠ '/' := by
    rintro rfl
    exact hname.slashless (by simp [hchars])
  have hsplit : (Path.join dir name).toList = (front ++ '/' :: init) ++ [c] := by
    simp [hjoin, hchars]
  unfold trailing
  rw [hsplit, List.getLast?_concat, if_neg fun h => hc (Option.some.inj (beq_iff_eq.mp h))]

/-- A path to a plain name starts where the path of the directory starts. -/
theorem base_join {dir name : String} (hdir : dir.toList ≠ []) (hname : IsPlain name) :
    base (Path.join dir name) = base dir := by
  have hhead : (Path.join dir name).toList.head? = dir.toList.head? := by
    rcases Path.toList_join hdir hname.slashless with ⟨front, hfront, hjoin⟩ | ⟨-, hjoin⟩
    · rw [hjoin, hfront]
      cases front <;> rfl
    · rw [hjoin, List.head?_append, List.head?_eq_some_head hdir, Option.some_or]
  unfold base Path.isAbsolute
  rw [hhead]

theorem zero_mem_join_iff {dir name : String} (hdir : dir.toList ≠ []) (hname : IsPlain name) :
    '\x00' ∈ (Path.join dir name).toList ↔ '\x00' ∈ dir.toList := by
  have hslash : ('\x00' : Char) ≠ '/' := by decide
  rcases Path.toList_join hdir hname.slashless with ⟨front, hfront, hjoin⟩ | ⟨-, hjoin⟩
  · simp [hjoin, hfront, hname.zeroless]
  · simp [hjoin, hname.zeroless]

/-! ## Following names -/

section
variable {t t' : FileTree} {place : Place} {path dir name : String}

theorem requireDirectory_eq_ok_iff :
    t.requireDirectory place = .ok () ↔ t.find? place = some .directory := by
  unfold requireDirectory
  split <;> simp_all

/-- Following names one part after the other is following all of them. -/
theorem walk_append (names more : List FileName) :
    t.walk place (names ++ more) = t.walk place names >>= fun p => t.walk p more := by
  induction names generalizing place with
  | nil => rfl
  | cons name names ih =>
    rw [List.cons_append, walk, walk]
    cases t.requireDirectory place with
    | error e => rfl
    | ok =>
      rw [except_ok_bind, except_ok_bind]
      split
      · exact ih
      split
      · exact ih
      split
      · rfl
      · exact ih

/-- Following names asks for directories alone. -/
theorem walk_of_directories
    (hdirs : ∀ p, t.find? p = some .directory → t'.find? p = some .directory)
    {names : List FileName} {target : Place} (h : t.walk place names = .ok target) :
    t'.walk place names = .ok target := by
  induction names generalizing place with
  | nil => exact h
  | cons name names ih =>
    rw [walk] at h ⊢
    obtain ⟨⟨⟩, hrequire, h⟩ := except_bind_eq_ok.mp h
    rw [requireDirectory_eq_ok_iff.mpr (hdirs _ (requireDirectory_eq_ok_iff.mp hrequire)),
      except_ok_bind]
    by_cases hhere : name = here
    · rw [if_pos hhere] at h ⊢
      exact ih h
    by_cases hup : name = up
    · rw [if_neg hhere, if_pos hup] at h ⊢
      exact ih h
    by_cases hlong : maxNameLength < name.length
    · rw [if_neg hhere, if_neg hup, if_pos hlong] at h
      nomatch h
    · rw [if_neg hhere, if_neg hup, if_neg hlong] at h ⊢
      exact ih h

/-- A path is looked at as a text before its names are followed. -/
theorem resolve_eq (t : FileTree) (path : String) :
    t.resolve path =
      if '\x00' ∈ path.toList then .error .zeroByte
      else if path.toList = [] then .error .notFound
      else if maxPathLength < path.utf8ByteSize then .error .nameTooLong
      else t.walk (base path) (namesOf path ++ trailing path) := by
  simp only [resolve, follow, trailing, List.contains_iff_mem, String.isEmpty_iff,
    ← String.toList_eq_nil_iff]

/-- A path leads to a place when it may be one at all, is not too long, and its names can be
    followed; a slash at the end asks for a directory. -/
theorem resolve_eq_ok_iff :
    t.resolve path = .ok place ↔ '\x00' ∉ path.toList ∧ path.toList ≠ [] ∧
      path.utf8ByteSize ≤ maxPathLength ∧
      t.walk (base path) (namesOf path ++ trailing path) = .ok place := by
  rw [resolve_eq]
  by_cases hzero : '\x00' ∈ path.toList
  · simp [hzero]
  by_cases hnil : path.toList = []
  · simp [hnil]
  by_cases hlong : maxPathLength < path.utf8ByteSize
  · simp [hzero, hnil, hlong]
  · simp [hzero, hnil, hlong, Nat.le_of_not_lt hlong]

/-- A path leads to the same place as long as all directories are there still. -/
theorem resolve_of_directories
    (hdirs : ∀ p, t.find? p = some .directory → t'.find? p = some .directory)
    (h : t.resolve path = .ok place) : t'.resolve path = .ok place := by
  rw [resolve_eq_ok_iff] at h ⊢
  exact ⟨h.1, h.2.1, h.2.2.1, walk_of_directories hdirs h.2.2.2⟩

/-- A name of its own leads to its place in a directory. -/
theorem walk_plain (hname : IsPlain name) (hplace : t.find? place = some .directory) :
    t.walk place [Utf8.encode name] = .ok (place ++ [Utf8.encode name]) := by
  rw [walk, requireDirectory_eq_ok_iff.mpr hplace, except_ok_bind, if_neg hname.notHere,
    if_neg hname.notUp, if_neg (Nat.not_lt.mpr hname.short)]
  rfl

/-- The names of a path to a directory lead there also without the slash at its end. -/
theorem walk_namesOf (h : t.resolve dir = .ok place) :
    t.walk (base dir) (namesOf dir) = .ok place := by
  have hwalk := (resolve_eq_ok_iff.mp h).2.2.2
  unfold trailing at hwalk
  split at hwalk
  · rw [walk_append] at hwalk
    obtain ⟨p, hp, hhere⟩ := except_bind_eq_ok.mp hwalk
    rw [walk] at hhere
    obtain ⟨-, -, hhere⟩ := except_bind_eq_ok.mp hhere
    rw [if_pos rfl] at hhere
    rw [hp]
    exact hhere
  · rwa [List.append_nil] at hwalk

/-- **A name in a directory leads to its place there**, if the path is not too long. -/
theorem resolve_join (hname : IsPlain name) (hdir : t.resolve dir = .ok place)
    (hplace : t.find? place = some .directory)
    (hlen : (Path.join dir name).utf8ByteSize ≤ maxPathLength) :
    t.resolve (Path.join dir name) = .ok (place ++ [Utf8.encode name]) := by
  obtain ⟨hzero, hnil, -, -⟩ := resolve_eq_ok_iff.mp hdir
  refine resolve_eq_ok_iff.mpr ⟨?_, ?_, hlen, ?_⟩
  · rwa [zero_mem_join_iff hnil hname]
  · exact join_ne_nil hnil hname
  · rw [trailing_join hnil hname, List.append_nil, namesOf_join hnil hname, base_join hnil hname,
      walk_append, walk_namesOf hdir, except_ok_bind]
    exact walk_plain hname hplace

/-- A path that is too long leads nowhere. -/
theorem resolve_join_of_long (hname : IsPlain name) (hdir : t.resolve dir = .ok place)
    (hlen : maxPathLength < (Path.join dir name).utf8ByteSize) :
    t.resolve (Path.join dir name) = .error .nameTooLong := by
  obtain ⟨hzero, hnil, -, -⟩ := resolve_eq_ok_iff.mp hdir
  rw [resolve_eq, if_neg, if_neg, if_pos hlen]
  · exact join_ne_nil hnil hname
  · rwa [zero_mem_join_iff hnil hname]

/-! ## What lies in a directory -/

theorem isFixed_concat {name : FileName} (hroot : name ≠ Utf8.encode "/") (hup : name ≠ up) :
    isFixed (place ++ [name]) = false := by
  have hne : place ++ [name] ≠ root := by
    intro h
    have hlast := congrArg List.getLast? h
    rw [List.getLast?_concat] at hlast
    exact hroot (Option.some.inj hlast)
  simp [isFixed, hne, hup]

/-- A name in a directory is the last part of a place that lies in it directly. -/
theorem nameIn?_eq_some_iff {p : Place} {name : FileName} :
    nameIn? place p = some name ↔ p = place ++ [name] := by
  unfold nameIn?
  constructor
  · intro h
    split at h
    · next hdir =>
      obtain ⟨front, rfl⟩ := List.getLast?_eq_some_iff.mp h
      rw [List.dropLast_concat] at hdir
      rw [hdir]
    · nomatch h
  · rintro rfl
    rw [List.dropLast_concat, if_pos rfl, List.getLast?_concat]

/-- The names in a directory are those under which something lies there. -/
theorem mem_names_iff {name : FileName} :
    name ∈ t.names place ↔ (Assoc.find (place ++ [name]) t.entries).isSome = true := by
  rw [Assoc.isSome_find_iff, names, List.mem_filterMap, List.mem_map]
  constructor
  · rintro ⟨entry, hmem, hname⟩
    exact ⟨entry, hmem, nameIn?_eq_some_iff.mp hname⟩
  · rintro ⟨entry, hmem, hplace⟩
    exact ⟨entry, hmem, nameIn?_eq_some_iff.mpr hplace⟩

/-- A path can be listed when it leads to a directory, and what is listed is the names of what lies
    in there. -/
theorem list_eq_ok_iff {names : List FileName} :
    t.list dir = .ok (place, names) ↔
      t.resolve dir = .ok place ∧ t.find? place = some .directory ∧ names = t.names place := by
  rw [list, except_bind_eq_ok]
  constructor
  · rintro ⟨p, hp, hlist⟩
    obtain ⟨⟨⟩, hrequire, hlist⟩ := except_bind_eq_ok.mp hlist
    obtain ⟨rfl, rfl⟩ := Prod.mk.inj (Except.ok.inj hlist)
    exact ⟨hp, requireDirectory_eq_ok_iff.mp hrequire, rfl⟩
  · rintro ⟨hdir, hplace, rfl⟩
    refine ⟨place, hdir, ?_⟩
    rw [requireDirectory_eq_ok_iff.mpr hplace, except_ok_bind]

/-! ## Temporary files -/

theorem length_le_longest {names : List FileName} {name : FileName} (h : name ∈ names) :
    name.length ≤ longest names := by
  induction names with
  | nil => nomatch h
  | cons first names ih =>
    rw [longest]
    rcases List.mem_cons.mp h with rfl | hmem
    · exact Nat.le_max_left _ _
    · exact Nat.le_trans (ih hmem) (Nat.le_max_right _ _)

/-- The name of a temporary file is new: it is longer than all others of its form. -/
theorem freshName_not_mem (names : List FileName) : freshName names ∉ names := by
  intro hmem
  let marked := names.filter fun name => temporaryMark.isPrefixOf name
  have hform : temporaryMark.isPrefixOf (freshName names) = true :=
    List.isPrefixOf_iff_prefix.mpr (List.prefix_append _ _)
  have hmarked : freshName names ∈ marked := List.mem_filter.mpr ⟨hmem, hform⟩
  have hle : (freshName names).length ≤ longest marked := length_le_longest hmarked
  have hlength : (freshName names).length = 4 + longest marked := by
    rw [freshName, List.length_append, List.length_replicate]
    rfl
  omega

/-- The place of the temporary file that a directory has room for. -/
def temporaryPlace (t : FileTree) (place : Place) : Place := place ++ [freshName (t.names place)]

/-- A temporary file stands at a place that may be free. -/
theorem isFixed_temporaryPlace (t : FileTree) (place : Place) :
    isFixed (t.temporaryPlace place) = false := by
  obtain ⟨rest, hname⟩ : ∃ rest, freshName (t.names place) = 0x2E :: 0x74 :: rest := ⟨_, rfl⟩
  have hroot : Utf8.encode "/" = [0x2F] := rfl
  have hup : up = [0x2E, 0x2E] := rfl
  refine isFixed_concat ?_ ?_
  · simp [hname, hroot]
  · simp [hname, hup]

/-- The place of a temporary file is free. -/
theorem find_temporaryPlace (t : FileTree) (place : Place) :
    Assoc.find (t.temporaryPlace place) t.entries = none := by
  have hnot := freshName_not_mem (t.names place)
  rw [mem_names_iff] at hnot
  exact Option.not_isSome_iff_eq_none.mp hnot

/-- A temporary file is made in a directory whose path leaves room for its name. -/
theorem makeTemporary_eq {content : Bytes} (hdir : t.resolve dir = .ok place)
    (hplace : t.find? place = some .directory)
    (hroom : dir.utf8ByteSize + temporaryRoom ≤ maxPathLength) :
    t.makeTemporary dir content =
      .ok (t.temporaryPlace place, t.set (t.temporaryPlace place) (.file content)) := by
  rw [makeTemporary, if_neg (Nat.not_lt.mpr hroom), list_eq_ok_iff.mpr ⟨hdir, hplace, rfl⟩]
  rfl

/-- A temporary file that is taken away again leaves nothing. -/
theorem erase_temporary (t : FileTree) (place : Place) (e : Entry) :
    (t.set (t.temporaryPlace place) e).erase (t.temporaryPlace place) = t := by
  rw [erase, set, Assoc.erase_put_of_find_eq_none _ (t.find_temporaryPlace place)]

/-- What is put in place of no directory takes no directory away. -/
theorem find?_set_directory {free p : Place} (hfree : t.find? free ≠ some .directory)
    (hp : t.find? p = some .directory) (e : Entry) :
    (t.set free e).find? p = some .directory := by
  have hne : p ≠ free := by
    rintro rfl
    exact hfree hp
  rwa [find?_set_of_ne t hne]

/-- A temporary file takes the place of no directory. -/
theorem find?_set_temporary (place : Place) {p : Place} (hp : t.find? p = some .directory)
    (e : Entry) :
    (t.set (t.temporaryPlace place) e).find? p = some .directory := by
  refine find?_set_directory ?_ hp e
  rw [find?, isFixed_temporaryPlace, if_neg Bool.false_ne_true, find_temporaryPlace]
  exact (Option.some_ne_none _).symm

/-- **A temporary file that was moved leaves nothing but the file it became.** -/
theorem moveFile_temporary {content : Bytes} {target : Place}
    (htarget : t.resolve path = .ok target) (hfree : t.find? target ≠ some .directory) :
    (t.set (t.temporaryPlace place) (.file content)).moveFile (t.temporaryPlace place) path =
      .ok (t.set target (.file content)) := by
  have herase := t.erase_temporary place (.file content)
  have hfixed := t.isFixed_temporaryPlace place
  have hresolve : (t.set (t.temporaryPlace place) (.file content)).resolve path = .ok target :=
    resolve_of_directories (fun _ hp => find?_set_temporary place hp _) htarget
  generalize t.temporaryPlace place = source at herase hfixed hresolve
  have hsource : (t.set source (.file content)).find? source = some (.file content) :=
    t.find?_set_self hfixed _
  have hnot : (t.set source (.file content)).find? target ≠ some .directory := by
    by_cases heq : target = source
    · rw [heq, hsource]
      simp
    · rwa [find?_set_of_ne t heq]
  rw [moveFile, hresolve, except_ok_bind, hsource]
  split
  · next htaken => exact absurd htaken hnot
  · next heq _ =>
    obtain rfl := Entry.file.inj (Option.some.inj heq)
    rw [herase]
  · next heq => nomatch heq
  · next heq => nomatch heq

end

end FileTree

end SealedStore
