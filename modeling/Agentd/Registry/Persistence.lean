import Agentd.Registry.Memory

/-!
# The registry directory

Every agent has one file in the registry directory, named after its id.  `fileName` and `tempName`
are the names the registry uses, `classify` is how a load tells them apart, and `load` reads a
directory back: temporary files are swept, other foreign files are ignored, and a file that is
malformed, invalid or named after another agent makes the load fail.

`Represents` says that a directory stores exactly a registry.  It is what a successful load means
(`load_eq_ok_iff`), whatever the order in which the directory is listed, and it has a rule for
each change an operation makes to the directory.

Names are texts; a name that is not UTF-8 is none of the registry's.  Reading and writing the file
format is left to the library that does it (`Toml`).
-/

namespace Agentd

/-! ## File names -/

/-- `Registry::file_path`: the name of an agent's configuration file. -/
def fileName (id : AgentId) : String := id.raw ++ ".toml"

/-- The name of the temporary file that a process writes an agent's configuration to. -/
def tempName (id : AgentId) (pid : ℕ) : String := "." ++ id.raw ++ "." ++ toString pid ++ ".tmp"

/-- The stem and the extension of a name: split at the last dot, unless the dot comes first or the
name is `..`. -/
def splitExtension (name : List Char) : List Char × Option (List Char) :=
  let stem := ((name.reverse.dropWhile (· != '.')).drop 1).reverse
  if name = ['.', '.'] ∨ stem = [] then (name, none)
  else (stem, some (name.reverse.takeWhile (· != '.')).reverse)

/-- What a load takes a file for. -/
inductive FileKind where
  /-- A temporary file. -/
  | temp
  /-- A configuration file, with the stem of its name. -/
  | config (stem : List Char)
  | other
  deriving DecidableEq

/-- How a load tells files apart by their names. -/
def classify (name : String) : FileKind :=
  if ['.'].isPrefixOf name.toList ∧ ".tmp".toList.isSuffixOf name.toList then .temp
  else match splitExtension name.toList with
    | (stem, some extension) => if extension = "toml".toList then .config stem else .other
    | (_, none) => .other

/-- The part of a name before its last dot. -/
theorem dropWhile_reverse_append {stem extension : List Char} (h : '.' ∉ extension) :
    (stem ++ '.' :: extension).reverse.dropWhile (· != '.') = '.' :: stem.reverse := by
  have hrev : (stem ++ '.' :: extension).reverse = extension.reverse ++ '.' :: stem.reverse := by
    simp
  rw [hrev, List.dropWhile_append_of_pos]
  · simp
  · intro c hc
    have hne : c ≠ '.' := by
      rintro rfl
      exact h (List.mem_reverse.mp hc)
    simpa using hne

/-- The part of a name after its last dot. -/
theorem takeWhile_reverse_append {stem extension : List Char} (h : '.' ∉ extension) :
    (stem ++ '.' :: extension).reverse.takeWhile (· != '.') = extension.reverse := by
  have hrev : (stem ++ '.' :: extension).reverse = extension.reverse ++ '.' :: stem.reverse := by
    simp
  rw [hrev, List.takeWhile_append_of_pos]
  · simp
  · intro c hc
    have hne : c ≠ '.' := by
      rintro rfl
      exact h (List.mem_reverse.mp hc)
    simpa using hne

/-- A name with an extension is its stem, a dot and its extension. -/
theorem eq_of_splitExtension {name stem extension : List Char}
    (h : splitExtension name = (stem, some extension)) : name = stem ++ '.' :: extension := by
  unfold splitExtension at h
  dsimp only at h
  split at h
  · cases h
  rename_i hstem
  simp only [Prod.mk.injEq, Option.some.injEq] at h
  obtain ⟨rfl, rfl⟩ := h
  -- what is dropped begins with a dot
  obtain ⟨rest, hrest⟩ : ∃ rest, name.reverse.dropWhile (· != '.') = '.' :: rest := by
    cases hdrop : name.reverse.dropWhile (· != '.') with
    | nil => simp [hdrop] at hstem
    | cons c rest =>
      have hc := List.head_dropWhile_not (· != '.') (l := name.reverse) (by simp [hdrop])
      simp only [hdrop, List.head_cons] at hc
      obtain rfl : c = '.' := by simpa using hc
      exact ⟨rest, rfl⟩
  have hsplit := List.takeWhile_append_dropWhile (p := (· != '.')) (l := name.reverse)
  rw [hrest] at hsplit
  have hname := congrArg List.reverse hsplit
  rw [List.reverse_reverse, List.reverse_append, List.reverse_cons] at hname
  rw [hrest, List.drop_one, List.tail_cons]
  simpa using hname.symm

/-- The extension of a configuration file has no dot. -/
theorem dot_notMem_toml : '.' ∉ "toml".toList := by decide

theorem toList_fileName (id : AgentId) :
    (fileName id).toList = id.raw.toList ++ '.' :: "toml".toList := by
  rw [fileName, String.toList_append]
  rfl

/-- The name of an agent's file splits into its id and the extension. -/
theorem splitExtension_fileName (id : AgentId) :
    splitExtension (fileName id).toList = (id.raw.toList, some "toml".toList) := by
  have hne := id.toList_ne_nil
  have hdots : ¬(id.raw.toList ++ '.' :: "toml".toList = ['.', '.']) := by
    intro h
    have hlen := congrArg List.length h
    simp at hlen
  simp only [toList_fileName, splitExtension, dropWhile_reverse_append dot_notMem_toml,
    takeWhile_reverse_append dot_notMem_toml, List.drop_one, List.tail_cons, List.reverse_reverse,
    hdots, hne, or_self, if_false]

/-- A load takes the file of an agent for a configuration file, with the id as stem. -/
@[simp] theorem classify_fileName (id : AgentId) :
    classify (fileName id) = .config id.raw.toList := by
  have hdot : ¬(['.'].isPrefixOf (fileName id).toList = true) := by
    intro h
    rw [toList_fileName] at h
    cases hid : id.raw.toList with
    | nil => exact id.toList_ne_nil hid
    | cons c rest =>
      have hc : '.' = c := by simpa [hid, List.isPrefixOf] using h
      exact id.dot_not_mem (by simp [hid, ← hc])
  unfold classify
  rw [if_neg (fun h => hdot h.1), splitExtension_fileName]
  rfl

/-- A load takes a temporary file for one. -/
@[simp] theorem classify_tempName (id : AgentId) (pid : ℕ) :
    classify (tempName id pid) = .temp := by
  have hname : (tempName id pid).toList =
      '.' :: (id.raw.toList ++ '.' :: (toString pid).toList) ++ ".tmp".toList := by
    simp [tempName, String.toList_append]
  unfold classify
  rw [if_pos]
  constructor
  · rw [hname]
    rfl
  · rw [hname, List.isSuffixOf_iff_suffix]
    exact List.suffix_append ..

/-- The name of a configuration file is its stem with the extension. -/
theorem eq_fileName_of_classify {name : String} {id : AgentId}
    (h : classify name = .config id.raw.toList) : name = fileName id := by
  unfold classify at h
  split at h
  · cases h
  split at h
  · rename_i stem extension hsplit
    split at h
    · rename_i hext
      cases h
      have hname := eq_of_splitExtension hsplit
      rw [hext, ← toList_fileName] at hname
      exact String.toList_injective hname
    · cases h
  · cases h

/-- Different agents have different files. -/
theorem fileName_injective : Function.Injective fileName := by
  intro id id' h
  have hkind : FileKind.config id.raw.toList = .config id'.raw.toList := by
    rw [← classify_fileName, ← classify_fileName, h]
  exact AgentId.raw_injective (String.toList_injective (FileKind.config.inj hkind))

/-! ## Loading a directory -/

/-- The files of a directory with their contents. -/
abbrev Directory := Finmap fun _ : String => List UInt8

/-- The library for the file format. -/
structure Toml where
  /-- `toml::to_string_pretty`; it fails on a path that is not UTF-8. -/
  toStringPretty : AgentConfig → Option (List UInt8)
  /-- Reading the contents as text and `toml::from_str`. -/
  fromStr : List UInt8 → Except String AgentConfig

/-- What the library writes it reads back. -/
def Toml.RoundTrips (T : Toml) : Prop :=
  ∀ c contents, T.toStringPretty c = some contents → T.fromStr contents = .ok c

variable {T : Toml} {files files' : Directory} {r r' acc acc' : Registry} {name : String}
  {id : AgentId} {c : AgentConfig} {contents : List UInt8}

/-- What a load does with one file, apart from sweeping the temporary ones. -/
def loadFile (T : Toml) (files : Directory) (agents : Registry) (name : String) :
    Except ConfigError Registry :=
  match classify name with
  | .temp | .other => .ok agents
  | .config stem =>
    match files.lookup name with
    | none => .error (.io name)
    | some contents =>
      match T.fromStr contents with
      | .error _ => .error (.malformed name)
      | .ok config =>
        match h : config.validate with
        | .error e => .error e
        | .ok () =>
          if stem ≠ config.agentId.raw.toList then
            .error (.misnamed name config.agentId (.ofList stem))
          else .ok (agents.insert config h)

/-- `Registry::load` of a directory whose files are listed in the given order; a missing directory
is an empty registry. -/
def load (T : Toml) (dir : Option Directory) (order : List String) : Except ConfigError Registry :=
  match dir with
  | none => .ok Registry.empty
  | some files => order.foldlM (loadFile T files) Registry.empty

/-- `read_dir` may list the files in this order. -/
def Lists (dir : Option Directory) (order : List String) : Prop :=
  order.toFinset = (dir.getD ∅).keys

instance (dir : Option Directory) (order : List String) : Decidable (Lists dir order) :=
  inferInstanceAs (Decidable (order.toFinset = (dir.getD ∅).keys))

/-- A listing has the files of the directory and no others. -/
theorem Lists.mem_iff {order : List String} (h : Lists (some files) order) :
    name ∈ order ↔ name ∈ files := by
  have hmem : name ∈ order.toFinset ↔ name ∈ files.keys := by
    rw [show order.toFinset = _ from h]
    rfl
  rwa [List.mem_toFinset, Finmap.mem_keys] at hmem

/-- The directory stores exactly the registry: every entry has its file, and every configuration
file is that of an entry. -/
structure Represents (T : Toml) (files : Directory) (r : Registry) : Prop where
  stored : ∀ id c, r.get id = some c →
    ∃ contents, files.lookup (fileName id) = some contents ∧ T.fromStr contents = .ok c
  only : ∀ name stem, name ∈ files → classify name = .config stem →
    ∃ id c, r.get id = some c ∧ name = fileName id

/-- The registry read from the files listed so far. -/
structure Loaded (T : Toml) (files : Directory) (done : List String) (acc : Registry) : Prop where
  stored : ∀ id c, acc.get id = some c →
    ∃ contents, files.lookup (fileName id) = some contents ∧ T.fromStr contents = .ok c
  only : ∀ name stem, name ∈ done → classify name = .config stem →
    ∃ id c, acc.get id = some c ∧ name = fileName id

theorem Loaded.nil (T : Toml) (files : Directory) : Loaded T files [] .empty where
  stored id c hget := by simp at hget
  only name stem hname := by cases hname

/-- What loading a configuration file needs and does. -/
theorem loadFile_config {stem : List Char} (hkind : classify name = .config stem)
    (h : loadFile T files acc name = .ok acc') :
    ∃ contents c, ∃ hvalid : c.validate = .ok (), files.lookup name = some contents ∧
      T.fromStr contents = .ok c ∧ name = fileName c.agentId ∧ acc' = acc.insert c hvalid := by
  simp only [loadFile, hkind] at h
  split at h
  · cases h
  rename_i contents hlookup
  split at h
  · cases h
  rename_i config hparse
  split at h
  · cases h
  rename_i hvalid
  split at h
  · cases h
  rename_i hstem
  have hname : name = fileName config.agentId :=
    eq_fileName_of_classify (by rw [hkind, not_not.mp hstem])
  exact ⟨contents, config, hvalid, hlookup, hparse, hname, (Except.ok.inj h).symm⟩

/-- A file that is none of the agents' changes nothing. -/
theorem loadFile_of_ne_config (h : ∀ stem, classify name ≠ .config stem) :
    loadFile T files acc name = .ok acc := by
  unfold loadFile
  split
  · rfl
  · rfl
  · rename_i stem hkind
    exact absurd hkind (h stem)

/-- Loading one more file. -/
theorem Loaded.cons {done : List String} (h : Loaded T files done acc)
    (hload : loadFile T files acc name = .ok acc') : Loaded T files (name :: done) acc' := by
  by_cases hkind : ∃ stem, classify name = .config stem
  · obtain ⟨stem, hkind⟩ := hkind
    obtain ⟨contents, c, hvalid, hlookup, hparse, rfl, rfl⟩ := loadFile_config hkind hload
    constructor
    · intro id c' hget
      by_cases hid : id = c.agentId
      · subst hid
        obtain rfl : c = c' := by simpa using hget
        exact ⟨contents, hlookup, hparse⟩
      · rw [Registry.get_insert_of_ne hvalid hid] at hget
        exact h.stored id c' hget
    · intro name' stem' hname' hkind'
      by_cases hsame : name' = fileName c.agentId
      · exact ⟨c.agentId, c, Registry.get_insert_self .., hsame⟩
      · have hdone := (List.mem_cons.mp hname').resolve_left hsame
        obtain ⟨id, c', hget, rfl⟩ := h.only name' stem' hdone hkind'
        have hid : id ≠ c.agentId := by
          rintro rfl
          exact hsame rfl
        exact ⟨id, c', by rw [Registry.get_insert_of_ne hvalid hid, hget], rfl⟩
  · have hnot : ∀ stem, classify name ≠ .config stem := fun stem h => hkind ⟨stem, h⟩
    obtain rfl : acc = acc' := Except.ok.inj ((loadFile_of_ne_config hnot).symm.trans hload)
    refine ⟨h.stored, ?_⟩
    intro name' stem' hname' hkind'
    rcases List.mem_cons.mp hname' with rfl | hdone
    · exact absurd hkind' (hnot stem')
    · exact h.only name' stem' hdone hkind'

/-- A registry loaded from every file of a directory is what the directory stores. -/
theorem Loaded.represents {done : List String} (h : Loaded T files done acc)
    (hall : ∀ name stem, name ∈ files → classify name = .config stem → name ∈ done) :
    Represents T files acc where
  stored := h.stored
  only name stem hname hkind := h.only name stem (hall name stem hname hkind) hkind

/-- A directory stores one registry. -/
theorem Represents.unique (h : Represents T files r) (h' : Represents T files r') : r = r' := by
  have hsub : ∀ {r r' : Registry}, Represents T files r → Represents T files r' →
      ∀ id c, r.get id = some c → r'.get id = some c := by
    intro r r' h h' id c hget
    obtain ⟨contents, hlookup, hparse⟩ := h.stored id c hget
    have hmem : fileName id ∈ files := Finmap.mem_of_lookup_eq_some hlookup
    obtain ⟨id', c', hget', hname⟩ := h'.only _ _ hmem (classify_fileName id)
    obtain rfl : id = id' := fileName_injective hname
    obtain ⟨contents', hlookup', hparse'⟩ := h'.stored id c' hget'
    obtain rfl : contents = contents' := Option.some_inj.mp (hlookup.symm.trans hlookup')
    obtain rfl : c = c' := Except.ok.inj (hparse.symm.trans hparse')
    exact hget'
  refine Registry.ext_get fun id => ?_
  cases hget : r.get id with
  | some c => exact (hsub h h' id c hget).symm
  | none =>
    cases hget' : r'.get id with
    | none => rfl
    | some c => exact hget.symm.trans (hsub h' h id c hget')

/-- A file of a directory that stores a registry loads. -/
theorem Represents.loadFile_isOk (h : Represents T files r) (hname : name ∈ files)
    (acc : Registry) : ∃ acc', loadFile T files acc name = .ok acc' := by
  by_cases hkind : ∃ stem, classify name = .config stem
  · obtain ⟨stem, hkind⟩ := hkind
    obtain ⟨id, c, hget, rfl⟩ := h.only name stem hname hkind
    obtain ⟨contents, hlookup, hparse⟩ := h.stored id c hget
    have hvalid : c.validate = .ok () := r.valid id c hget
    have hid : c.agentId = id := Registry.agentId_of_get hget
    refine ⟨acc.insert c hvalid, ?_⟩
    simp only [loadFile, classify_fileName, hlookup, hparse]
    split
    · rename_i e he
      rw [hvalid] at he
      cases he
    · rw [if_neg]
      rw [hid]
      exact not_not.mpr rfl
  · exact ⟨acc, loadFile_of_ne_config fun stem h => hkind ⟨stem, h⟩⟩

/-- The loop of a load, from what was loaded so far. -/
theorem foldlM_loadFile {order done : List String} (hacc : Loaded T files done acc)
    (h : order.foldlM (loadFile T files) acc = .ok r) :
    ∃ done', (∀ name, name ∈ done' ↔ name ∈ done ∨ name ∈ order) ∧ Loaded T files done' r := by
  induction order generalizing acc done with
  | nil =>
    obtain rfl : acc = r := Except.ok.inj h
    exact ⟨done, by simp, hacc⟩
  | cons name order ih =>
    rw [List.foldlM_cons] at h
    cases hload : loadFile T files acc name with
    | error e =>
      rw [hload] at h
      cases h
    | ok acc' =>
      rw [hload] at h
      obtain ⟨done', hdone', hr⟩ := ih (hacc.cons hload) h
      refine ⟨done', fun name' => ?_, hr⟩
      rw [hdone', List.mem_cons, List.mem_cons]
      tauto

/-- A load of a directory that stores a registry succeeds. -/
theorem Represents.foldlM_isOk (h : Represents T files r) {order : List String}
    (horder : ∀ name ∈ order, name ∈ files) (acc : Registry) :
    ∃ acc', order.foldlM (loadFile T files) acc = .ok acc' := by
  induction order generalizing acc with
  | nil => exact ⟨acc, rfl⟩
  | cons name order ih =>
    obtain ⟨acc', hload⟩ := h.loadFile_isOk (horder name List.mem_cons_self) acc
    rw [List.foldlM_cons, hload]
    exact ih (fun name' hname' => horder name' (List.mem_cons_of_mem _ hname')) acc'

/-- The registry a directory, which may be missing, stores. -/
def DirRepresents (T : Toml) (dir : Option Directory) (r : Registry) : Prop :=
  match dir with
  | none => r = .empty
  | some files => Represents T files r

/-- A load succeeds exactly with the registry that the directory stores, in whatever order the
directory is listed. -/
theorem load_eq_ok_iff {dir : Option Directory} {order : List String} (horder : Lists dir order) :
    load T dir order = .ok r ↔ DirRepresents T dir r := by
  cases dir with
  | none =>
    constructor
    · intro h
      exact (Except.ok.inj h).symm
    · rintro rfl
      rfl
  | some files =>
    have hmem : ∀ name, name ∈ order ↔ name ∈ files := fun _ => horder.mem_iff
    have hrepresents : ∀ {r}, order.foldlM (loadFile T files) Registry.empty = .ok r →
        Represents T files r := by
      intro r h
      obtain ⟨done, hdone, hr⟩ := foldlM_loadFile (.nil T files) h
      refine hr.represents fun name stem hname _ => ?_
      exact (hdone name).mpr (.inr ((hmem name).mpr hname))
    constructor
    · exact hrepresents
    · intro h
      obtain ⟨r', hr'⟩ := h.foldlM_isOk (fun name hname => (hmem name).mp hname) .empty
      have hsame : r' = r := (hrepresents hr').unique h
      rw [← hsame]
      exact hr'

/-! ## Changes of a directory -/

/-- Membership in a directory is having contents. -/
theorem mem_directory_iff : name ∈ files ↔ ∃ contents, files.lookup name = some contents := by
  rw [← Finmap.lookup_isSome, Option.isSome_iff_exists]

namespace Represents

/-- Temporary files do not matter. -/
theorem congr (h : Represents T files r)
    (heq : ∀ name, classify name ≠ .temp → files'.lookup name = files.lookup name) :
    Represents T files' r := by
  constructor
  · intro id c hget
    obtain ⟨contents, hlookup, hparse⟩ := h.stored id c hget
    refine ⟨contents, ?_, hparse⟩
    rw [heq _ (by simp), hlookup]
  · intro name stem hname hkind
    obtain ⟨contents, hlookup⟩ := mem_directory_iff.mp hname
    rw [heq name (by simp [hkind])] at hlookup
    exact h.only name stem (mem_directory_iff.mpr ⟨contents, hlookup⟩) hkind

/-- A temporary file may be written. -/
theorem insert_temp (h : Represents T files r) (hname : classify name = .temp)
    (contents : List UInt8) : Represents T (files.insert name contents) r := by
  refine h.congr fun name' hkind => ?_
  refine Finmap.lookup_insert_of_ne _ ?_
  rintro rfl
  exact hkind hname

/-- A temporary file may be removed. -/
theorem erase_temp (h : Represents T files r) (hname : classify name = .temp) :
    Represents T (files.erase name) r := by
  refine h.congr fun name' hkind => ?_
  refine Finmap.lookup_erase_ne ?_
  rintro rfl
  exact hkind hname

/-- Renaming a temporary file with an agent's configuration to the agent's file stores that
configuration. -/
theorem rename (h : Represents T files r) (hname : classify name = .temp)
    (hparse : T.fromStr contents = .ok c) (hvalid : c.validate = .ok ()) :
    Represents T ((files.erase name).insert (fileName c.agentId) contents) (r.insert c hvalid) := by
  have herase : Represents T (files.erase name) r := h.erase_temp hname
  constructor
  · intro id c' hget
    by_cases hid : id = c.agentId
    · subst hid
      obtain rfl : c = c' := by simpa using hget
      exact ⟨contents, Finmap.lookup_insert _, hparse⟩
    · rw [Registry.get_insert_of_ne hvalid hid] at hget
      obtain ⟨contents', hlookup, hparse'⟩ := herase.stored id c' hget
      refine ⟨contents', ?_, hparse'⟩
      rw [Finmap.lookup_insert_of_ne _ fun heq => hid (fileName_injective heq)]
      exact hlookup
  · intro name' stem hmem hkind
    rcases Finmap.mem_insert.mp hmem with rfl | hmem
    · exact ⟨c.agentId, c, Registry.get_insert_self .., rfl⟩
    · obtain ⟨id, c', hget, rfl⟩ := herase.only name' stem hmem hkind
      by_cases hid : id = c.agentId
      · exact ⟨c.agentId, c, Registry.get_insert_self .., by rw [hid]⟩
      · exact ⟨id, c', by rw [Registry.get_insert_of_ne hvalid hid, hget], rfl⟩

/-- Removing an agent's file removes its entry. -/
theorem remove (h : Represents T files r) (id : AgentId) :
    Represents T (files.erase (fileName id)) (r.erase id) := by
  constructor
  · intro id' c hget
    have hid : id' ≠ id := by
      rintro rfl
      simp at hget
    rw [Registry.get_erase_of_ne hid] at hget
    obtain ⟨contents, hlookup, hparse⟩ := h.stored id' c hget
    refine ⟨contents, ?_, hparse⟩
    rw [Finmap.lookup_erase_ne fun heq => hid (fileName_injective heq)]
    exact hlookup
  · intro name stem hmem hkind
    obtain ⟨hne, hmem⟩ := Finmap.mem_erase.mp hmem
    obtain ⟨id', c, hget, rfl⟩ := h.only name stem hmem hkind
    have hid : id' ≠ id := by
      rintro rfl
      exact hne rfl
    exact ⟨id', c, by rw [Registry.get_erase_of_ne hid, hget], rfl⟩

/-- An empty directory stores the empty registry. -/
theorem empty (T : Toml) : Represents T ∅ .empty := by
  constructor
  · intro id c hget
    simp at hget
  · intro name stem hname
    exact absurd hname Finmap.notMem_empty

end Represents

end Agentd
