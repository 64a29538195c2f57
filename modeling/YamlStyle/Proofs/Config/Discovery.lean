import Mathlib.Data.List.Basic
import YamlStyle.Config.Load
import YamlStyle.Proofs.FileTree.Climb
import YamlStyle.Proofs.Result

/-!
# Where the configuration of a project is found

The search for the configuration of a project climbs from the directory where it starts, and two things
end it: a directory that holds configuration files, and a directory, other than the first, that holds the
marker. The loop looks for both at once. Here they come one after the other: the marker decides how far
the search may go, and the closest directory up to there decides what is found
(`firstWithFiles_eq`). Where exactly that is, and what of it, is said by `loadFound_discovers`.

That no file comes from above the marker follows (`projectFiles_bounded`), except where the search
starts: a marker in the first directory does not keep it from climbing (`projectFiles_beyond`).
-/

set_option autoImplicit false

namespace YamlStyle

namespace Search

variable {tree : FileTree} {cwd : Path} {marker : Option String} {dir : Text} {file : String}

/-! ## What a directory holds -/

/-- The path of a name in a directory. -/
def pathIn (dir : Text) (name : String) : String := String.ofList (Written.join dir name.toList)

/-- Something of a name is in a directory. -/
def Contains (tree : FileTree) (cwd : Path) (dir : Text) (name : String) : Prop :=
  tree.pathExists cwd (pathIn dir name) = true

/-- A file is a configuration file of a directory. -/
def IsConfigOf (tree : FileTree) (cwd : Path) (dir : Text) (file : String) : Prop :=
  ∃ stem ∈ [".ymlint", "ymlint"], ∃ ext ∈ ["toml", "yaml", "yml", "json"],
    file = pathIn dir (stem ++ "." ++ ext) ∧ tree.isFileAt cwd file = true

/-- All configuration files of a directory: the hidden ones first, and by their extensions. -/
structure ConfigsOf (tree : FileTree) (cwd : Path) (dir : Text) (files : List String) : Prop where
  mem_iff : ∀ file, file ∈ files ↔ IsConfigOf tree cwd dir file
  ordered : files.Sublist ([".ymlint.toml", ".ymlint.yaml", ".ymlint.yml", ".ymlint.json",
    "ymlint.toml", "ymlint.yaml", "ymlint.yml", "ymlint.json"].map (pathIn dir))

theorem projectNames_eq : projectNames = [".ymlint.toml", ".ymlint.yaml", ".ymlint.yml",
    ".ymlint.json", "ymlint.toml", "ymlint.yaml", "ymlint.yml", "ymlint.json"] := by
  decide

theorem mem_filesIn_iff : file ∈ filesIn tree cwd dir ↔ IsConfigOf tree cwd dir file := by
  simp only [filesIn, List.mem_filter, projectNames, List.mem_map, List.mem_flatMap, IsConfigOf,
    extensions]
  constructor
  · rintro ⟨⟨name, ⟨stem, hstem, ext, hext, rfl⟩, rfl⟩, hfile⟩
    exact ⟨stem, hstem, ext, hext, rfl, hfile⟩
  · rintro ⟨stem, hstem, ext, hext, rfl, hfile⟩
    exact ⟨⟨_, ⟨stem, hstem, ext, hext, rfl⟩, rfl⟩, hfile⟩

theorem configsOf_filesIn (tree : FileTree) (cwd : Path) (dir : Text) :
    ConfigsOf tree cwd dir (filesIn tree cwd dir) where
  mem_iff _ := mem_filesIn_iff
  ordered := by
    rw [← projectNames_eq]
    exact List.filter_sublist

theorem isEmpty_filesIn_iff :
    (filesIn tree cwd dir).isEmpty = true ↔ ∀ file, ¬IsConfigOf tree cwd dir file := by
  rw [List.isEmpty_iff, List.eq_nil_iff_forall_not_mem]
  simp only [mem_filesIn_iff]

theorem isBoundary_iff :
    isBoundary tree cwd marker dir = true ↔ ∃ name, marker = some name ∧ Contains tree cwd dir name := by
  cases marker with
  | none => simp [isBoundary]
  | some name => simp [isBoundary, Contains, pathIn]

theorem isIn_of_isConfigOf (h : IsConfigOf tree cwd dir file) : Written.IsIn file.toList dir := by
  obtain ⟨stem, hstem, ext, hext, rfl, -⟩ := h
  refine ⟨(stem ++ "." ++ ext).toList, ?_, String.toList_ofList⟩
  revert stem ext
  decide

/-! ## The search -/

/-- The files of the first directory that holds any. -/
def closest (tree : FileTree) (cwd : Path) (dirs : List Text) : List String :=
  ((dirs.find? fun dir => !(filesIn tree cwd dir).isEmpty).map (filesIn tree cwd)).getD []

/-- Beyond its start, the search goes up to the first directory that holds the marker. -/
theorem firstWithFiles_beyond (tree : FileTree) (cwd : Path) (marker : Option String)
    (dirs : List Text) :
    firstWithFiles tree cwd marker false dirs =
      closest tree cwd (dirs.take (dirs.findIdx (isBoundary tree cwd marker) + 1)) := by
  induction dirs with
  | nil => rfl
  | cons dir above ih =>
    unfold firstWithFiles
    cases hfiles : filesIn tree cwd dir with
    | nil =>
      cases hmarker : isBoundary tree cwd marker dir with
      | true => simp [closest, hfiles, List.findIdx_cons, hmarker]
      | false => simp [closest, hfiles, List.findIdx_cons, hmarker, ih]
    | cons first rest => simp [closest, hfiles]

/-- The directories of a climb that the search may look into. -/
def searched (tree : FileTree) (cwd : Path) (marker : Option String) : List Text → List Text
  | [] => []
  | start :: above => start :: above.take (above.findIdx (isBoundary tree cwd marker) + 1)

/-- **How far the search goes and what it finds are two questions.** -/
theorem firstWithFiles_eq (tree : FileTree) (cwd : Path) (marker : Option String)
    (walk : List Text) :
    firstWithFiles tree cwd marker true walk =
      closest tree cwd (searched tree cwd marker walk) := by
  cases walk with
  | nil => rfl
  | cons start above =>
    unfold firstWithFiles
    cases hfiles : filesIn tree cwd start with
    | nil => simp [searched, closest, hfiles, firstWithFiles_beyond]
    | cons first rest => simp [searched, closest, hfiles]

theorem exists_of_mem_closest {dirs : List Text} (h : file ∈ closest tree cwd dirs) :
    ∃ dir ∈ dirs, IsConfigOf tree cwd dir file := by
  unfold closest at h
  cases hdir : dirs.find? fun dir => !(filesIn tree cwd dir).isEmpty with
  | none => simp [hdir] at h
  | some dir =>
    refine ⟨dir, List.mem_of_find?_eq_some hdir, ?_⟩
    rw [hdir] at h
    exact mem_filesIn_iff.mp h

/-! ## The marker is a boundary -/

theorem mem_of_mem_searched {start : Text} {nearer farther : List Text}
    (hmarker : isBoundary tree cwd marker dir = true) {place : Text}
    (h : place ∈ searched tree cwd marker (start :: (nearer ++ dir :: farther))) :
    place ∈ start :: (nearer ++ [dir]) := by
  have hle : (nearer ++ dir :: farther).findIdx (isBoundary tree cwd marker) ≤ nearer.length := by
    rw [List.findIdx_append]
    split
    · omega
    · simp [List.findIdx_cons, hmarker]
  rcases List.mem_cons.mp h with rfl | h
  · exact List.mem_cons_self
  · apply List.mem_cons_of_mem
    have htake : (nearer ++ dir :: farther).take (nearer.length + 1) = nearer ++ [dir] := by
      rw [List.append_cons]
      exact List.take_left' (by simp)
    rw [← htake]
    exact (List.take_prefix_take_left (Nat.succ_le_succ hle)).subset h

/-- **No configuration comes from above the marker**, where the marker is above the start. -/
theorem projectFiles_bounded {marker start : String} {nearer farther : List Text} {above : Text}
    (hfile : file ∈ projectFiles tree cwd (some marker) start)
    (hwalk : Written.Climbs start.toList (start.toList :: (nearer ++ dir :: farther)))
    (hmarker : Contains tree cwd dir marker) (habove : above ∈ farther) :
    ¬Written.IsIn file.toList above := by
  have hboundary : isBoundary tree cwd (some marker) dir = true :=
    isBoundary_iff.mpr ⟨marker, rfl, hmarker⟩
  rw [projectFiles, ← hwalk.unique (Written.climbs_ancestors _), firstWithFiles_eq] at hfile
  obtain ⟨place, hplace, hconfig⟩ := exists_of_mem_closest hfile
  have hnear := mem_of_mem_searched hboundary hplace
  have hsplit : start.toList :: (nearer ++ dir :: farther) =
      (start.toList :: (nearer ++ [dir])) ++ farther := by simp
  rw [hsplit] at hwalk
  exact hwalk.not_isIn hnear (isIn_of_isConfigOf hconfig) habove

/-- A project in a directory that has a configuration of its own. -/
def nested : FileTree where
  entries := [
    ([".ymlint.json"], .file "\x7b\x7d".toUTF8),
    (["p", ".git"], .directory),
    (["p", "ymlint.yml"], .file ByteArray.empty),
    (["p", "q"], .directory)]

theorem projectFiles_bounded_nested :
    "/p/ymlint.yml" ∈ projectFiles nested [] (some ".git") "/p/q" ∧
      Written.Climbs "/p/q".toList ("/p/q".toList :: ([] ++ "/p".toList :: ["/".toList])) ∧
      Contains nested [] "/p".toList ".git" ∧
      ¬Written.IsIn "/p/ymlint.yml".toList "/".toList := by
  have hfile : "/p/ymlint.yml" ∈ projectFiles nested [] (some ".git") "/p/q" := by
    decide +kernel
  have hwalk : Written.ancestors "/p/q".toList =
      "/p/q".toList :: ([] ++ "/p".toList :: ["/".toList]) := by decide +kernel
  have hclimbs := hwalk ▸ Written.climbs_ancestors "/p/q".toList
  have hmarker : Contains nested [] "/p".toList ".git" := by
    unfold Contains
    decide +kernel
  exact ⟨hfile, hclimbs, hmarker, projectFiles_bounded hfile hclimbs hmarker List.mem_cons_self⟩

/-- A project without a configuration, in a directory with one. -/
def bare : FileTree where
  entries := [
    ([".ymlint.json"], .file "\x7b\"log_level\": \"warn\"\x7d".toUTF8),
    (["p", ".git"], .directory)]

/-- A search that starts beside the marker finds what is above it. -/
theorem projectFiles_beyond :
    "/.ymlint.json" ∈ projectFiles bare [] (some ".git") "/p" ∧
      Written.Climbs "/p".toList ("/p".toList :: ["/".toList]) ∧
      Contains bare [] "/p".toList ".git" ∧ Written.IsIn "/.ymlint.json".toList "/".toList := by
  have hfile : "/.ymlint.json" ∈ projectFiles bare [] (some ".git") "/p" := by
    decide +kernel
  have hwalk : Written.ancestors "/p".toList = "/p".toList :: ["/".toList] := by decide +kernel
  refine ⟨hfile, hwalk ▸ Written.climbs_ancestors _, ?_, ".ymlint.json".toList, ?_, ?_⟩
  · unfold Contains
    decide +kernel
  · decide
  · decide

/-! ## The closest directory -/

/-- A directory of a climb, other than the first, holds the marker. -/
def IsMarked (tree : FileTree) (cwd : Path) (marker : Option String) (walk : List Text)
    (i : Nat) : Prop :=
  1 ≤ i ∧ ∃ dir name, walk[i]? = some dir ∧ marker = some name ∧ Contains tree cwd dir name

/-- Where the search ends at the latest: at the first marked directory, or at the top. -/
def EndsAt (tree : FileTree) (cwd : Path) (marker : Option String) (walk : List Text)
    (b : Nat) : Prop :=
  (IsMarked tree cwd marker walk b ∧ ∀ i < b, ¬IsMarked tree cwd marker walk i) ∨
    (∀ i, ¬IsMarked tree cwd marker walk i) ∧ b + 1 = walk.length

/-- What is found in the directories up to a place. -/
inductive Finds (tree : FileTree) (cwd : Path) (walk : List Text) (b : Nat) : List String → Prop
  | closest {k : Nat} {dir : Text} {files : List String} : k ≤ b → walk[k]? = some dir →
      (∃ file, IsConfigOf tree cwd dir file) →
      (∀ j < k, ∀ nearer, walk[j]? = some nearer → ∀ file, ¬IsConfigOf tree cwd nearer file) →
      ConfigsOf tree cwd dir files → Finds tree cwd walk b files
  | nothing : (∀ k ≤ b, ∀ dir, walk[k]? = some dir → ∀ file, ¬IsConfigOf tree cwd dir file) →
      Finds tree cwd walk b []

theorem isMarked_succ_iff {start : Text} {above : List Text} {i : Nat} :
    IsMarked tree cwd marker (start :: above) (i + 1) ↔
      ∃ dir, above[i]? = some dir ∧ isBoundary tree cwd marker dir = true := by
  simp only [IsMarked, isBoundary_iff, List.getElem?_cons_succ]
  constructor
  · rintro ⟨-, dir, name, hdir, hmarker⟩
    exact ⟨dir, hdir, name, hmarker⟩
  · rintro ⟨dir, hdir, name, hmarker⟩
    exact ⟨by omega, dir, name, hdir, hmarker⟩

theorem not_isMarked_zero {walk : List Text} : ¬IsMarked tree cwd marker walk 0 := by
  rintro ⟨hpos, -⟩
  omega

/-- The directories that are searched are those up to the end of the search. -/
theorem exists_endsAt (tree : FileTree) (cwd : Path) (marker : Option String) (start : Text)
    (above : List Text) :
    ∃ b, EndsAt tree cwd marker (start :: above) b ∧
      searched tree cwd marker (start :: above) = (start :: above).take (b + 1) := by
  by_cases hmarked : above.findIdx (isBoundary tree cwd marker) < above.length
  · refine ⟨above.findIdx (isBoundary tree cwd marker) + 1, Or.inl ⟨?_, ?_⟩, rfl⟩
    · exact isMarked_succ_iff.mpr ⟨_, List.getElem?_eq_getElem hmarked, List.findIdx_getElem⟩
    · intro i hi
      cases i with
      | zero => exact not_isMarked_zero
      | succ i =>
        rw [isMarked_succ_iff]
        rintro ⟨dir, hdir, hboundary⟩
        obtain ⟨hlt, rfl⟩ := List.getElem?_eq_some_iff.mp hdir
        rw [List.not_of_lt_findIdx (Nat.lt_of_succ_lt_succ hi)] at hboundary
        exact absurd hboundary (by simp)
  · have hnone : ∀ dir ∈ above, isBoundary tree cwd marker dir = false :=
      List.findIdx_eq_length.mp (Nat.le_antisymm List.findIdx_le_length (Nat.not_lt.mp hmarked))
    refine ⟨above.length, Or.inr ⟨?_, rfl⟩, ?_⟩
    · intro i
      cases i with
      | zero => exact not_isMarked_zero
      | succ i =>
        rw [isMarked_succ_iff]
        rintro ⟨dir, hdir, hboundary⟩
        rw [hnone dir (List.mem_of_getElem? hdir)] at hboundary
        exact absurd hboundary (by simp)
    · rw [searched, List.take_of_length_le (by omega)]
      simp

theorem finds_closest (tree : FileTree) (cwd : Path) (walk : List Text) (b : Nat) :
    Finds tree cwd walk b (closest tree cwd (walk.take (b + 1))) := by
  unfold closest
  cases hfound : (walk.take (b + 1)).find? fun dir => !(filesIn tree cwd dir).isEmpty with
  | none =>
    refine .nothing ?_
    intro k hk dir hdir
    have hmem : dir ∈ walk.take (b + 1) :=
      List.mem_of_getElem? ((List.getElem?_take_of_lt (by omega)).trans hdir)
    have hempty := List.find?_eq_none.mp hfound dir hmem
    exact isEmpty_filesIn_iff.mp (by simpa using hempty)
  | some dir =>
    obtain ⟨hfiles, k, hk, hdir, hnearer⟩ := List.find?_eq_some_iff_getElem.mp hfound
    have hle : k ≤ b := by
      rw [List.length_take] at hk
      omega
    have hwalk : ∀ j, j ≤ k → walk[j]? = (walk.take (b + 1))[j]? := by
      intro j hj
      exact (List.getElem?_take_of_lt (by omega)).symm
    refine .closest hle ?_ ?_ ?_ (configsOf_filesIn tree cwd dir)
    · rw [hwalk k (Nat.le_refl k), List.getElem?_eq_getElem hk, hdir]
    · by_contra hnone
      rw [isEmpty_filesIn_iff.mpr (not_exists.mp hnone)] at hfiles
      exact absurd hfiles (by simp)
    · intro j hj nearer hget
      rw [hwalk j (Nat.le_of_lt hj), List.getElem?_eq_getElem (by omega)] at hget
      obtain rfl := Option.some.inj hget
      exact isEmpty_filesIn_iff.mp (by simpa using hnearer j hj)

end Search

namespace ConfigRequest

variable {request : ConfigRequest} {tree : FileTree}

/-- There is no file that a configuration could be read from. -/
structure FindsNothing (request : ConfigRequest) (tree : FileTree) : Prop where
  project : ∀ start, request.search = some start →
    Search.projectFiles tree request.cwd request.marker start = []
  user : ∀ dir, request.userDir = some dir →
    ∀ name ∈ ["config.toml", "config.yaml", "config.yml", "config.json"],
      tree.isFile (dir ++ [name]) = false
  explicit : request.explicit = []

theorem readEntry_ne_nothingFound {α : Type} (v : Value) (name : String) (absent : α)
    (read : Value → Except (List String × Mismatch) α) :
    Config.readEntry v name absent read ≠ .error .nothingFound := by
  unfold Config.readEntry
  cases v.get? name with
  | none => exact nofun
  | some w => cases hread : read w <;> simp [hread, Except.mapError]

theorem ofValue_ne_nothingFound (v : Value) : Config.ofValue v ≠ .error .nothingFound := by
  unfold Config.ofValue
  apply bind_ne_error (readEntry_ne_nothingFound v _ _ _)
  intro disableInputLimit
  apply bind_ne_error (readEntry_ne_nothingFound v _ _ _)
  intro ignore
  apply bind_ne_error (readEntry_ne_nothingFound v _ _ _)
  intro logDir
  apply bind_ne_error (readEntry_ne_nothingFound v _ _ _)
  intro logLevel
  apply bind_ne_error (readEntry_ne_nothingFound v _ _ _)
  intro maxInputBytes
  apply bind_ne_error (readEntry_ne_nothingFound v _ _ _)
  intro rules
  exact nofun

theorem readFile_ne_nothingFound (cwd : Path) (path : String) :
    readFile tree cwd path ≠ .error .nothingFound := by
  unfold readFile
  split
  · exact nofun
  · split <;> exact nofun

theorem environmentLayer_ne_nothingFound :
    request.environmentLayer ≠ .error .nothingFound := by
  unfold environmentLayer
  cases Environment.toValue request.environment <;> simp [Except.mapError]

/-- Loading has its own errors: that nothing was found is not one of them. -/
theorem load_ne_nothingFound : request.load tree ≠ .error .nothingFound := by
  unfold load layers
  apply bind_ne_error
  · apply bind_ne_error environmentLayer_ne_nothingFound
    intro top
    apply bind_ne_error (mapM_ne_error (readFile_ne_nothingFound request.cwd) _)
    intro values
    exact nofun
  · intro layers
    apply bind_ne_error (ofValue_ne_nothingFound _)
    intro config
    exact nofun

theorem isNone_user_iff : (request.sources tree).user.isNone = true ↔
    ∀ dir, request.userDir = some dir →
      ∀ name ∈ ["config.toml", "config.yaml", "config.yml", "config.json"],
        tree.isFile (dir ++ [name]) = false := by
  have hnames : Search.userNames = ["config.toml", "config.yaml", "config.yml", "config.json"] := by
    decide
  unfold sources
  cases hdir : request.userDir with
  | none => simp
  | some dir => simp [Search.userFile?, hnames]

theorem isEmpty_project_iff : (request.sources tree).project.isEmpty = true ↔
    ∀ start, request.search = some start →
      Search.projectFiles tree request.cwd request.marker start = [] := by
  unfold sources
  cases hsearch : request.search with
  | none => simp
  | some start => simp

theorem findsNothing_iff : request.FindsNothing tree ↔
    ((request.sources tree).user.isNone && (request.sources tree).project.isEmpty &&
      (request.sources tree).explicit.isEmpty) = true := by
  rw [Bool.and_eq_true, Bool.and_eq_true, isNone_user_iff, isEmpty_project_iff, List.isEmpty_iff]
  constructor
  · rintro ⟨hproject, huser, hexplicit⟩
    exact ⟨⟨huser, hproject⟩, hexplicit⟩
  · rintro ⟨⟨huser, hproject⟩, hexplicit⟩
    exact ⟨hproject, huser, hexplicit⟩

/-- **Where configurations are found**: in the closest directory that holds any, and nowhere beyond the
first marked directory above the start; it is an error to find nothing at all. -/
theorem loadFound_discovers (request : ConfigRequest) (tree : FileTree) :
    (∀ start : String, ∃ walk b, Written.Climbs start.toList walk ∧
        Search.EndsAt tree request.cwd request.marker walk b ∧
        Search.Finds tree request.cwd walk b
          (Search.projectFiles tree request.cwd request.marker start)) ∧
      (request.loadFound tree = .error .nothingFound ↔ request.FindsNothing tree) ∧
      (¬request.FindsNothing tree → request.loadFound tree = request.load tree) := by
  refine ⟨?_, ?_, ?_⟩
  · intro start
    have hclimbs := Written.climbs_ancestors start.toList
    obtain ⟨above, hwalk⟩ := hclimbs.exists_cons
    obtain ⟨b, hends, hsearched⟩ :=
      Search.exists_endsAt tree request.cwd request.marker start.toList above
    refine ⟨_, b, hclimbs, hwalk ▸ hends, ?_⟩
    rw [Search.projectFiles, Search.firstWithFiles_eq, hwalk, hsearched]
    exact Search.finds_closest tree request.cwd _ b
  · rw [findsNothing_iff]
    unfold loadFound
    dsimp only
    split
    · rename_i hnothing
      simp [hnothing]
    · rename_i hfound
      simp [hfound, load_ne_nothingFound]
  · intro hfound
    rw [findsNothing_iff] at hfound
    unfold loadFound
    dsimp only
    rw [if_neg hfound]

end ConfigRequest

end YamlStyle
