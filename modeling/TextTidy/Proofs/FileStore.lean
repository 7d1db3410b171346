import TextTidy.FileStore

/-!
# Where names lead

A name and its normal form lead to the same place, and a file that is written there has what was
written. A place is found through directories alone, so writing a file does not change the way to
it.
-/

namespace TextTidy

/-! ## The parts of a name -/

theorem Text.splitOn_eq {α : Type} [DecidableEq α] (separator : α) (s : List α) :
    splitOn separator s = s.splitOn separator := by
  induction s with
  | nil => rfl
  | cons c s ih =>
    rw [splitOn, List.splitOn_cons_eq_if_modifyHead, ih]
    by_cases h : c = separator
    · simp [h]
    · cases hs : s.splitOn separator with
      | nil => exact absurd hs (List.splitOn_ne_nil separator s)
      | cons first others => simp [h]

theorem Text.not_mem_of_mem_splitOn {α : Type} [DecidableEq α] {separator : α} {s part : List α}
    (h : part ∈ splitOn separator s) : separator ∉ part := by
  induction s generalizing part with
  | nil =>
    rw [List.mem_singleton.mp h]
    exact List.not_mem_nil
  | cons c s ih =>
    rw [splitOn] at h
    split at h
    · rcases List.mem_cons.mp h with rfl | h
      · exact List.not_mem_nil
      · exact ih h
    · rename_i hc
      cases hs : splitOn separator s with
      | nil => exact absurd hs (splitOn_ne_nil separator s)
      | cons first others =>
        rw [hs] at h ih
        rcases List.mem_cons.mp h with rfl | h
        · simp only [List.mem_cons, not_or]
          exact ⟨fun heq => hc heq.symm, ih List.mem_cons_self⟩
        · exact ih (List.mem_cons_of_mem first h)

theorem slash_not_mem_of_mem_nameParts {name part : String} (h : part ∈ nameParts name) :
    '/' ∉ part.toList := by
  obtain ⟨characters, hmem, rfl⟩ := List.mem_map.mp h
  rw [String.toList_ofList]
  exact Text.not_mem_of_mem_splitOn hmem

/-- A name is its parts with slashes between them. -/
theorem intercalate_nameParts (name : String) : "/".intercalate (nameParts name) = name := by
  rw [← String.toList_inj, String.toList_intercalate, nameParts, List.map_map, Text.splitOn_eq]
  have hid : String.toList ∘ String.ofList = id := funext fun _ => String.toList_ofList
  rw [hid, List.map_id]
  exact List.intercalate_splitOn '/'

/-- Parts without slashes are the parts of the name that they make. -/
theorem nameParts_intercalate {parts : List String} (hne : parts ≠ [])
    (h : ∀ part ∈ parts, '/' ∉ part.toList) : nameParts ("/".intercalate parts) = parts := by
  have hslash : "/".toList = ['/'] := rfl
  have hid : String.ofList ∘ String.toList = id := funext fun _ => String.ofList_toList
  rw [nameParts, String.toList_intercalate, Text.splitOn_eq, hslash,
    List.splitOn_intercalate '/' (by simpa using h) (by simpa using hne), List.map_map, hid,
    List.map_id]

theorem nameParts_slash (name : String) : nameParts ("/" ++ name) = "" :: nameParts name := by
  rw [nameParts, String.toList_append]
  rfl

theorem nameParts_ne_nil (name : String) : nameParts name ≠ [] := by
  rw [nameParts, ne_eq, List.map_eq_nil_iff]
  exact Text.splitOn_ne_nil _ _

/-! ## Normal names -/

/-- The parts of a name that lead somewhere. -/
def busyParts (name : String) : List String := (nameParts name).filter (!isIdlePart ·)

theorem not_isIdlePart_of_mem {name part : String} (h : part ∈ busyParts name) :
    isIdlePart part = false := by
  simpa using (List.mem_filter.mp h).2

theorem normalName_eq (name : String) :
    normalName name =
      if (rootSlashes name ++ "/".intercalate (busyParts name)).isEmpty then "."
      else rootSlashes name ++ "/".intercalate (busyParts name) := rfl

/-- The slashes that begin a name are the ones that its normal form begins with, and as many empty
parts. -/
theorem rootSlashes_cases (name : String) :
    (rootSlashes name = "" ∧ name.toList.head? ≠ some '/') ∨
    (rootSlashes name = "/" ∧ ∃ rest, name = "/" ++ rest) ∨
    (rootSlashes name = "//" ∧ ∃ rest, name = "/" ++ ("/" ++ rest)) := by
  have hcons : ∀ {c : Char} {characters : List Char}, name.toList = c :: characters →
      name = String.singleton c ++ String.ofList characters := by
    intro c characters h
    rw [← String.toList_inj, h]
    simp
  rw [rootSlashes]
  split
  · rename_i rest h
    exact Or.inr (Or.inl ⟨rfl, _, hcons h⟩)
  · rename_i rest _ h
    refine Or.inr (Or.inr ⟨rfl, String.ofList rest, ?_⟩)
    rw [hcons h, ← List.singleton_append, String.ofList_append]
    rfl
  · rename_i rest _ _ h
    exact Or.inr (Or.inl ⟨rfl, _, hcons h⟩)
  · rename_i _ _ h
    refine Or.inl ⟨rfl, fun hhead => ?_⟩
    obtain ⟨rest, hrest⟩ := List.head?_eq_some_iff.mp hhead
    exact h rest hrest

theorem intercalate_busyParts_eq_empty_iff (name : String) :
    "/".intercalate (busyParts name) = "" ↔ busyParts name = [] := by
  constructor
  · intro h
    cases hparts : busyParts name with
    | nil => rfl
    | cons part others =>
      have hpart : isIdlePart part = false := not_isIdlePart_of_mem (by rw [hparts]; simp)
      have hempty : part = "" := by
        rw [hparts] at h
        cases others with
        | nil => rwa [String.intercalate_singleton] at h
        | cons next others =>
          rw [String.intercalate_cons_cons, String.append_assoc] at h
          exact (String.append_eq_empty_iff.mp h).1
      rw [hempty] at hpart
      cases hpart
  · intro h
    rw [h, String.intercalate_nil]

/-- A normal name has the parts that lead somewhere, maybe behind idle ones. -/
theorem exists_nameParts_normalName (name : String) :
    ∃ idle, (∀ part ∈ idle, isIdlePart part = true) ∧
      nameParts (normalName name) = idle ++ busyParts name := by
  have hslashless : ∀ part ∈ busyParts name, '/' ∉ part.toList := fun part h =>
    slash_not_mem_of_mem_nameParts (List.mem_filter.mp h).1
  -- what stands behind the slashes at the start
  have hbehind : ∃ idle, (∀ part ∈ idle, isIdlePart part = true) ∧
      nameParts ("/".intercalate (busyParts name)) = idle ++ busyParts name := by
    by_cases hne : busyParts name = []
    · rw [hne]
      exact ⟨[""], by decide, by decide⟩
    · exact ⟨[], by simp, nameParts_intercalate hne hslashless⟩
  obtain ⟨idle, hidle, hparts⟩ := hbehind
  rw [normalName_eq]
  split
  · rename_i hempty
    have hnil : busyParts name = [] := by
      rw [String.isEmpty_iff, String.append_eq_empty_iff] at hempty
      exact (intercalate_busyParts_eq_empty_iff name).mp hempty.2
    rw [hnil]
    exact ⟨["."], by decide, by decide⟩
  · rcases rootSlashes_cases name with ⟨hroot, -⟩ | ⟨hroot, -⟩ | ⟨hroot, -⟩
    · rw [hroot, String.empty_append]
      exact ⟨idle, hidle, hparts⟩
    · refine ⟨"" :: idle, ?_, ?_⟩
      · exact List.forall_mem_cons.mpr ⟨by decide, hidle⟩
      · rw [hroot, nameParts_slash, hparts, List.cons_append]
    · have hdouble : "//" = "/" ++ "/" := rfl
      refine ⟨"" :: "" :: idle, ?_, ?_⟩
      · exact List.forall_mem_cons.mpr ⟨by decide, List.forall_mem_cons.mpr ⟨by decide, hidle⟩⟩
      · rw [hroot, hdouble, String.append_assoc, nameParts_slash, nameParts_slash, hparts,
          List.cons_append, List.cons_append]

/-- How many bytes parts take with a slash behind each. -/
def partsSize : List String → Nat
  | [] => 0
  | part :: parts => part.utf8ByteSize + 1 + partsSize parts

theorem size_intercalate {parts : List String} (hne : parts ≠ []) :
    ("/".intercalate parts).utf8ByteSize + 1 = partsSize parts := by
  induction parts with
  | nil => exact absurd rfl hne
  | cons part parts ih =>
    have hslash : "/".utf8ByteSize = 1 := by decide
    rw [partsSize]
    by_cases hparts : parts = []
    · rw [hparts, String.intercalate_singleton]
      rfl
    · have hrest := ih hparts
      rw [String.intercalate_cons_of_ne_nil hparts, String.utf8ByteSize_append,
        String.utf8ByteSize_append, hslash]
      omega

theorem partsSize_filter_le (f : String → Bool) (parts : List String) :
    partsSize (parts.filter f) ≤ partsSize parts := by
  induction parts with
  | nil => exact Nat.le_refl _
  | cons part parts ih =>
    rw [partsSize]
    cases hpart : f part with
    | true =>
      rw [List.filter_cons_of_pos hpart, partsSize]
      omega
    | false =>
      rw [List.filter_cons_of_neg (by simp [hpart])]
      omega

/-- A normal name is no longer than the name. -/
theorem size_normalName_le {name : String} (hne : name ≠ "") :
    (normalName name).utf8ByteSize ≤ name.utf8ByteSize := by
  have hpos : 0 < name.utf8ByteSize := by
    rw [Nat.pos_iff_ne_zero, ne_eq, String.utf8ByteSize_eq_zero_iff]
    exact hne
  have hname := size_intercalate (nameParts_ne_nil name)
  rw [intercalate_nameParts] at hname
  -- the slashes at the start are paid for by the empty parts between them
  have hroot : (rootSlashes name).utf8ByteSize ≤ name.utf8ByteSize ∧
      (rootSlashes name).utf8ByteSize + partsSize (busyParts name) ≤
        partsSize (nameParts name) := by
    have hone : "/".utf8ByteSize = 1 := by decide
    have htwo : "//".utf8ByteSize = 2 := by decide
    have hempty : "".utf8ByteSize = 0 := by decide
    have hidle : isIdlePart "" = true := by decide
    rcases rootSlashes_cases name with ⟨hroot, -⟩ | ⟨hroot, rest, rfl⟩ | ⟨hroot, rest, rfl⟩
    · rw [hroot, hempty, Nat.zero_add]
      exact ⟨Nat.zero_le _, partsSize_filter_le _ _⟩
    · have hrest := partsSize_filter_le (!isIdlePart ·) (nameParts rest)
      rw [hroot, hone, busyParts, nameParts_slash, List.filter_cons_of_neg (by simp [hidle]),
        partsSize, hempty, String.utf8ByteSize_append, hone]
      omega
    · have hrest := partsSize_filter_le (!isIdlePart ·) (nameParts rest)
      rw [hroot, htwo, busyParts, nameParts_slash, nameParts_slash,
        List.filter_cons_of_neg (by simp [hidle]), List.filter_cons_of_neg (by simp [hidle]),
        partsSize, partsSize, hempty, String.utf8ByteSize_append,
        String.utf8ByteSize_append, hone]
      omega
  rw [normalName_eq]
  split
  · have hdot : ".".utf8ByteSize = 1 := by decide
    omega
  · rw [String.utf8ByteSize_append]
    by_cases hbusy : busyParts name = []
    · have hempty : "".utf8ByteSize = 0 := by decide
      rw [hbusy, String.intercalate_nil, hempty]
      omega
    · have hsize := size_intercalate hbusy
      omega

theorem normalName_ne_empty (name : String) : normalName name ≠ "" := by
  rw [normalName_eq]
  split
  · decide
  · rename_i h
    rwa [String.isEmpty_iff] at h

/-- The first part that leads somewhere begins with a character, and not with a slash. -/
theorem head?_busyParts (name : String) :
    ("/".intercalate (busyParts name)).toList.head? ≠ some '/' := by
  cases hparts : busyParts name with
  | nil => decide
  | cons part others =>
    have hmem : part ∈ busyParts name := by rw [hparts]; simp
    have hslashless := slash_not_mem_of_mem_nameParts (List.mem_filter.mp hmem).1
    have hpart : part.toList ≠ [] := by
      intro h
      have hidle := not_isIdlePart_of_mem hmem
      rw [String.toList_eq_nil_iff.mp h] at hidle
      cases hidle
    obtain ⟨c, characters, hc⟩ := List.exists_cons_of_ne_nil hpart
    have hstart : ("/".intercalate (part :: others)).toList.head? = some c := by
      rw [String.toList_intercalate]
      cases others <;> simp [hc]
    rw [hstart]
    intro h
    obtain rfl := Option.some.inj h
    exact hslashless (by rw [hc]; simp)

/-- A normal name starts at the root exactly if the name does. -/
theorem head?_normalName_iff (name : String) :
    (normalName name).toList.head? = some '/' ↔ name.toList.head? = some '/' := by
  have hroot : ∀ {rest : String}, ("/" ++ rest).toList.head? = some '/' := by
    intro rest
    rw [String.toList_append]
    rfl
  have hrooted : ∀ more, rootSlashes name = "/" ++ more →
      (normalName name).toList.head? = some '/' := by
    intro more h
    rw [normalName_eq, h, String.append_assoc, if_neg]
    · exact hroot
    · rw [String.isEmpty_iff, String.append_eq_empty_iff]
      exact fun h => absurd h.1 (by decide)
  rcases rootSlashes_cases name with ⟨hslash, hhead⟩ | ⟨hslash, rest, rfl⟩ | ⟨hslash, rest, rfl⟩
  · refine iff_of_false ?_ hhead
    rw [normalName_eq, hslash, String.empty_append]
    split
    · decide
    · exact head?_busyParts name
  · exact iff_of_true (hrooted "" hslash) hroot
  · exact iff_of_true (hrooted "/" hslash) hroot

/-! ## Walks -/

namespace FileStore

variable {s : FileStore}

theorem walk_idle {path idle : List String} (h : ∀ part ∈ idle, isIdlePart part = true)
    (parts : List String) : s.walk path (idle ++ parts) = s.walk path parts := by
  induction idle with
  | nil => rfl
  | cons part idle ih =>
    obtain ⟨hpart, hidle⟩ := List.forall_mem_cons.mp h
    rw [List.cons_append, walk, hpart, if_pos rfl, ih hidle]

/-- A part names an entry: it neither leads nowhere nor up, and is not too long. -/
structure NamesEntry (part : String) : Prop where
  busy : isIdlePart part = false
  down : (part == "..") = false
  short : part.utf8ByteSize ≤ maxPartBytes

/-- The walks that lead somewhere. A part that names an entry leads into a directory, and to a file
    or a vacant place if it is the last one. -/
inductive Walks (s : FileStore) : (path parts : List String) → Target → Prop
  | here {path : List String} : Walks s path [] (.directory path)
  | idle {path parts : List String} {part : String} {t : Target} (hpart : isIdlePart part = true)
      (h : Walks s path parts t) : Walks s path (part :: parts) t
  | up {path parts : List String} {part : String} {t : Target} (hpart : isIdlePart part = false)
      (hup : (part == "..") = true) (h : Walks s path.dropLast parts t) :
      Walks s path (part :: parts) t
  | into {path parts : List String} {part : String} {t : Target} (hpart : NamesEntry part)
      (hentry : s.entry? (path ++ [part]) = some .directory)
      (h : Walks s (path ++ [part]) parts t) : Walks s path (part :: parts) t
  | file {path : List String} {part : String} {contents : Bytes} (hpart : NamesEntry part)
      (hentry : s.entry? (path ++ [part]) = some (.file contents)) :
      Walks s path [part] (.file (path ++ [part]) contents)
  | vacant {path : List String} {part : String} (hpart : NamesEntry part)
      (hentry : s.entry? (path ++ [part]) = none) :
      Walks s path [part] (.vacant (path ++ [part]))

theorem walk_entry {part : String} (h : NamesEntry part) (path parts : List String) :
    s.walk path (part :: parts) =
      match s.entry? (path ++ [part]) with
      | some .directory => s.walk (path ++ [part]) parts
      | some (.file contents) =>
        if parts.isEmpty then .ok (.file (path ++ [part]) contents) else .error .notDirectory
      | none => if parts.isEmpty then .ok (.vacant (path ++ [part])) else .error .noEntry := by
  have hshort : ¬maxPartBytes < part.utf8ByteSize := Nat.not_lt.mpr h.short
  rcases hentry : s.entry? (path ++ [part]) with _ | _ | contents
  all_goals rw [walk, h.busy, h.down, if_neg Bool.false_ne_true, if_neg Bool.false_ne_true,
    if_neg hshort, hentry]

theorem walks_of_walk {path parts : List String} {t : Target} (h : s.walk path parts = .ok t) :
    s.Walks path parts t := by
  induction parts generalizing path with
  | nil =>
    obtain rfl : .directory path = t := Except.ok.inj h
    exact .here
  | cons part parts ih =>
    cases hidle : isIdlePart part with
    | true =>
      rw [walk, hidle, if_pos rfl] at h
      exact .idle hidle (ih h)
    | false =>
      cases hup : part == ".." with
      | true =>
        rw [walk, hidle, if_neg Bool.false_ne_true, hup, if_pos rfl] at h
        exact .up hidle hup (ih h)
      | false =>
        by_cases hlong : maxPartBytes < part.utf8ByteSize
        · rw [walk, hidle, if_neg Bool.false_ne_true, hup, if_neg Bool.false_ne_true,
            if_pos hlong] at h
          cases h
        · have hpart : NamesEntry part := ⟨hidle, hup, Nat.not_lt.mp hlong⟩
          rw [walk_entry hpart] at h
          split at h
          · rename_i hentry
            exact .into hpart hentry (ih h)
          · rename_i contents hentry
            cases parts with
            | nil =>
              obtain rfl := Except.ok.inj h
              exact .file hpart hentry
            | cons next parts => cases h
          · rename_i hentry
            cases parts with
            | nil =>
              obtain rfl := Except.ok.inj h
              exact .vacant hpart hentry
            | cons next parts => cases h

theorem walk_eq_ok_iff {path parts : List String} {t : Target} :
    s.walk path parts = .ok t ↔ s.Walks path parts t := by
  refine ⟨walks_of_walk, fun h => ?_⟩
  induction h with
  | here => rfl
  | idle hpart _ ih => rw [walk, hpart, if_pos rfl, ih]
  | up hpart hup _ ih => rw [walk, hpart, if_neg Bool.false_ne_true, hup, if_pos rfl, ih]
  | into hpart hentry _ ih => simp only [walk_entry hpart, hentry, ih]
  | file hpart hentry => simp only [walk_entry hpart, hentry, List.isEmpty_nil, if_true]
  | vacant hpart hentry => simp only [walk_entry hpart, hentry, List.isEmpty_nil, if_true]

/-- A walk that leads somewhere leads there without the idle parts. -/
theorem Walks.busy {path parts : List String} {t : Target} (h : s.Walks path parts t) :
    s.Walks path (parts.filter (!isIdlePart ·)) t := by
  induction h with
  | here => exact .here
  | idle hpart _ ih =>
    rw [List.filter_cons_of_neg (by simp [hpart])]
    exact ih
  | up hpart hup _ ih =>
    rw [List.filter_cons_of_pos (by simp [hpart])]
    exact .up hpart hup ih
  | into hpart hentry _ ih =>
    rw [List.filter_cons_of_pos (by simp [hpart.busy])]
    exact .into hpart hentry ih
  | file hpart hentry =>
    rw [List.filter_cons_of_pos (by simp [hpart.busy])]
    exact .file hpart hentry
  | vacant hpart hentry =>
    rw [List.filter_cons_of_pos (by simp [hpart.busy])]
    exact .vacant hpart hentry

theorem resolve_eq_ok {name : String} {t : Target} :
    s.resolve name = .ok t ↔ name ≠ "" ∧ name.utf8ByteSize ≤ maxNameBytes ∧
      s.walk (if name.toList.head? = some '/' then [] else s.here) (nameParts name) = .ok t := by
  rw [resolve]
  by_cases hempty : name = ""
  · simp [hempty]
  · by_cases hlong : maxNameBytes < name.utf8ByteSize
    · simp [hempty, hlong, Nat.not_le.mpr hlong]
    · simp [hempty, hlong, Nat.not_lt.mp hlong]

/-- Where a name leads, its normal form leads too. -/
theorem resolve_normalName {name : String} {t : Target} (h : s.resolve name = .ok t) :
    s.resolve (normalName name) = .ok t := by
  obtain ⟨hne, hsize, hwalk⟩ := resolve_eq_ok.mp h
  obtain ⟨idle, hidle, hparts⟩ := exists_nameParts_normalName name
  refine resolve_eq_ok.mpr
    ⟨normalName_ne_empty name, Nat.le_trans (size_normalName_le hne) hsize, ?_⟩
  rw [hparts, walk_idle hidle]
  simp only [head?_normalName_iff]
  exact walk_eq_ok_iff.mpr (walk_eq_ok_iff.mp hwalk).busy

/-! ## Writing -/

theorem entry?_setEntry_self {path : List String} (hne : path ≠ []) (entry : Entry) :
    entry? (s.setEntry path entry) path = some entry := by
  simp [setEntry, entry?, hne]

theorem entry?_setEntry_ne {path other : List String} (h : other ≠ path) (entry : Entry) :
    entry? (s.setEntry path entry) other = s.entry? other := by
  have hfilter : ∀ entries : List (List String × Entry),
      (entries.filter (·.1 != path)).lookup other = entries.lookup other := by
    intro entries
    induction entries with
    | nil => rfl
    | cons e entries ih =>
      by_cases he : e.1 = path
      · have hother : (other == e.1) = false := by simpa [he] using h
        rw [List.filter_cons_of_neg (by simp [he]), ih, List.lookup_cons, hother]
      · rw [List.filter_cons_of_pos (by simpa using he), List.lookup_cons, List.lookup_cons, ih]
  have hbeq : (other == path) = false := by simpa using h
  simp only [setEntry, entry?, List.lookup_cons, hbeq, hfilter]

/-- Behind a directory that exists stands a file once it is written. -/
theorem walks_setEntry_last (path : List String) {part : String} (hpart : NamesEntry part)
    (contents : Bytes) :
    (s.setEntry (path ++ [part]) (.file contents)).Walks path [part]
      (.file (path ++ [part]) contents) :=
  .file hpart (entry?_setEntry_self (by simp) _)

/-- A walk to a file, or to a vacant place, passes through directories, and tells what is there. -/
theorem Walks.place {path parts place : List String} {t : Target} (h : s.Walks path parts t)
    (ht : (∃ contents, t = .file place contents) ∨ t = .vacant place) :
    place ≠ [] ∧ s.entry? place ≠ some .directory ∧
      ∀ contents, (s.setEntry place (.file contents)).Walks path parts (.file place contents) := by
  induction h with
  | here => rcases ht with ⟨contents, ht⟩ | ht <;> cases ht
  | idle hpart _ ih =>
    obtain ⟨hne, hplace, hwalks⟩ := ih ht
    exact ⟨hne, hplace, fun contents => .idle hpart (hwalks contents)⟩
  | up hpart hup _ ih =>
    obtain ⟨hne, hplace, hwalks⟩ := ih ht
    exact ⟨hne, hplace, fun contents => .up hpart hup (hwalks contents)⟩
  | @into path parts part t hpart hentry _ ih =>
    obtain ⟨hne, hplace, hwalks⟩ := ih ht
    have hway : path ++ [part] ≠ place := by
      rintro rfl
      exact hplace hentry
    refine ⟨hne, hplace, fun contents => .into hpart ?_ (hwalks contents)⟩
    rw [entry?_setEntry_ne hway, hentry]
  | @file path part found hpart hentry =>
    rcases ht with ⟨contents, ht⟩ | ht
    · obtain ⟨rfl, -⟩ := Target.file.inj ht
      exact ⟨by simp, by simp [hentry], walks_setEntry_last path hpart⟩
    · cases ht
  | @vacant path part hpart hentry =>
    rcases ht with ⟨contents, ht⟩ | ht
    · cases ht
    · obtain rfl := Target.vacant.inj ht
      exact ⟨by simp, by simp [hentry], walks_setEntry_last path hpart⟩

/-- A name that a file can be written by leads to a file, or to where one can be made. -/
theorem writable_eq_ok {name : String} {place : List String} :
    s.writable name = .ok place ↔
      (∃ contents, s.resolve name = .ok (.file place contents)) ∨
        s.resolve name = .ok (.vacant place) := by
  rw [writable]
  cases hresolve : s.resolve name with
  | error e => simp
  | ok t => cases t <;> simp

theorem writable_normalName {name : String} {place : List String}
    (h : s.writable name = .ok place) : s.writable (normalName name) = .ok place := by
  rw [writable_eq_ok] at h ⊢
  exact h.imp (fun ⟨contents, h⟩ => ⟨contents, resolve_normalName h⟩) resolve_normalName

theorem not_isDirectory_of_writable {name : String} {place : List String}
    (h : s.writable name = .ok place) : s.isDirectory name = false := by
  rw [isDirectory]
  rcases writable_eq_ok.mp h with ⟨contents, h⟩ | h <;> rw [h]

/-- A file can be written by the name that leads to it. -/
theorem exists_writable_of_contents {name : String} {contents : Bytes}
    (h : s.contents? name = some contents) : ∃ place, s.writable name = .ok place := by
  rw [contents?] at h
  split at h
  · rename_i place _ hresolve
    exact ⟨place, writable_eq_ok.mpr (Or.inl ⟨_, hresolve⟩)⟩
  · cases h

/-- The name by which a file was written leads to it. -/
theorem resolve_setEntry {name : String} {place : List String}
    (h : s.writable name = .ok place) (contents : Bytes) :
    (s.setEntry place (.file contents)).resolve name = .ok (.file place contents) := by
  have htarget : ∃ t, s.resolve name = .ok t ∧
      ((∃ contents, t = .file place contents) ∨ t = .vacant place) := by
    rcases writable_eq_ok.mp h with ⟨earlier, h⟩ | h
    · exact ⟨_, h, Or.inl ⟨earlier, rfl⟩⟩
    · exact ⟨_, h, Or.inr rfl⟩
  obtain ⟨t, hresolve, ht⟩ := htarget
  obtain ⟨hne, hsize, hwalk⟩ := resolve_eq_ok.mp hresolve
  obtain ⟨-, -, hwalks⟩ := (walk_eq_ok_iff.mp hwalk).place ht
  exact resolve_eq_ok.mpr ⟨hne, hsize, walk_eq_ok_iff.mpr (hwalks contents)⟩

/-- What was written by a name is found by it. -/
theorem contents?_setEntry {name : String} {place : List String}
    (h : s.writable name = .ok place) (contents : Bytes) :
    (s.setEntry place (.file contents)).contents? name = some contents := by
  rw [contents?, resolve_setEntry h]

theorem writable_setEntry {name : String} {place : List String}
    (h : s.writable name = .ok place) (contents : Bytes) :
    (s.setEntry place (.file contents)).writable name = .ok place :=
  writable_eq_ok.mpr (Or.inl ⟨contents, resolve_setEntry h contents⟩)

/-! ## Files at places -/

/-- The contents of the file at a place. -/
def fileAt? (s : FileStore) (place : List String) : Option Bytes :=
  match s.entry? place with
  | some (.file contents) => some contents
  | _ => none

/-- A walk finds a file where there is one, and nothing where there is nothing. -/
theorem Walks.fileAt? {path parts place : List String} {t : Target} (h : s.Walks path parts t) :
    (∀ contents, t = .file place contents → s.fileAt? place = some contents) ∧
      (t = .vacant place → s.fileAt? place = none) := by
  induction h with
  | here => simp
  | idle _ _ ih => exact ih
  | up _ _ _ ih => exact ih
  | into _ _ _ ih => exact ih
  | file _ hentry =>
    refine ⟨fun contents hfile => ?_, by simp⟩
    obtain ⟨rfl, rfl⟩ := Target.file.inj hfile
    rw [FileStore.fileAt?, hentry]
  | vacant _ hentry =>
    refine ⟨by simp, fun hplace => ?_⟩
    obtain rfl := Target.vacant.inj hplace
    rw [FileStore.fileAt?, hentry]

/-- A name by which a place can be written is one by which the file there is read. -/
theorem contents?_eq_fileAt? {name : String} {place : List String}
    (h : s.writable name = .ok place) : s.contents? name = s.fileAt? place := by
  rw [contents?]
  have hwalks : ∀ {t}, s.resolve name = .ok t → s.Walks _ _ t := fun hresolve =>
    walk_eq_ok_iff.mp (resolve_eq_ok.mp hresolve).2.2
  rcases writable_eq_ok.mp h with ⟨contents, hresolve⟩ | hresolve
  · rw [hresolve, (hwalks hresolve).fileAt?.1 contents rfl]
  · rw [hresolve, (hwalks hresolve).fileAt?.2 rfl]

theorem fileAt?_setEntry {name : String} {place : List String}
    (h : s.writable name = .ok place) (contents : Bytes) :
    (s.setEntry place (.file contents)).fileAt? place = some contents := by
  rw [← contents?_eq_fileAt? (writable_setEntry h contents), contents?_setEntry h]

end FileStore

end TextTidy
