import ConventionalRelease.Config.Layers
import ConventionalRelease.Proofs.Attempt
import ConventionalRelease.Proofs.Document.Merge
import Mathlib.Data.List.Induction
import Mathlib.Logic.Function.Iterate

/-!
# Finding the files of configuration

The search for a file of configuration looks at six places in a directory (`configIn?_eq_find?`) and
goes on with the directory above (`findConfig?_concat`). So what it finds is the nearest file
(`isNearestConfig_of_findConfig?`), and it finds nothing only if no directory up to the root has one
(`not_standsAt_of_findConfig?`). The file of the user and the one that is found make up the
configuration, the latter over the former, and no other file has a say (`effectiveConfig_nearest`).
-/

namespace ConventionalRelease

/-- The places for a file of configuration in a directory, the preferred first. -/
def configPlaces (directory : Path) : List Path :=
  [directory ++ [".relnote", "config.yml"], directory ++ [".relnote", "config.yaml"],
    directory ++ [".relnote", "config.toml"], directory ++ ["relnote.yml"],
    directory ++ ["relnote.yaml"], directory ++ ["relnote.toml"]]

/-- A file stands at the place of a rank in the directory that is reached from another by going up a
number of times. -/
structure StandsAt (tree : FileTree) (directory : Path) (distance rank : Nat) (path : Path) :
    Prop where
  distance_le : distance ≤ directory.length
  place : (configPlaces (Path.parent^[distance] directory))[rank]? = some path
  isFile : tree.isFile path = true

/-- A file of configuration is the nearest to a directory: every one is further up, or as far up and
at a place of no lower rank. -/
def IsNearestConfig (tree : FileTree) (directory path : Path) : Prop :=
  ∃ distance rank, StandsAt tree directory distance rank path ∧
    ∀ distance' rank' other, StandsAt tree directory distance' rank' other →
      distance < distance' ∨ distance = distance' ∧ rank ≤ rank'

variable {tree : FileTree} {directory above path other : Path} {name : String} {distance rank : Nat}

/-! ## Going up -/

theorem Path.parent_concat (above : Path) (name : String) : Path.parent (above ++ [name]) = above :=
  List.dropLast_concat

/-- What is reached by going up is what begins the path, down to nothing at the root. -/
theorem Path.exists_iterate_parent_iff :
    (∃ distance ≤ directory.length, Path.parent^[distance] directory = above) ↔
      above <+: directory := by
  -- Going up takes off the last name, so the path is taken apart from its end.
  induction directory using List.reverseRecOn with
  | nil => simp [eq_comm]
  | append_singleton directory name ih =>
    rw [List.prefix_concat_iff, ← ih]
    constructor
    · rintro ⟨distance, hle, rfl⟩
      cases distance with
      | zero => exact .inl rfl
      | succ distance =>
        rw [Function.iterate_succ_apply, parent_concat]
        rw [List.length_append, List.length_singleton] at hle
        exact .inr ⟨distance, Nat.le_of_succ_le_succ hle, rfl⟩
    · rintro (rfl | ⟨distance, hle, rfl⟩)
      · exact ⟨0, Nat.zero_le _, rfl⟩
      · refine ⟨distance + 1, ?_, ?_⟩
        · rw [List.length_append, List.length_singleton]
          exact Nat.succ_le_succ hle
        · rw [Function.iterate_succ_apply, parent_concat]

theorem standsAt_zero : StandsAt tree directory 0 rank path ↔
    (configPlaces directory)[rank]? = some path ∧ tree.isFile path = true :=
  ⟨fun h => ⟨h.place, h.isFile⟩, fun h => ⟨Nat.zero_le _, h.1, h.2⟩⟩

/-- What stands further up from a directory stands there from the one above. -/
theorem standsAt_concat_succ :
    StandsAt tree (above ++ [name]) (distance + 1) rank path ↔
      StandsAt tree above distance rank path := by
  have hup : Path.parent^[distance + 1] (above ++ [name]) = Path.parent^[distance] above := by
    rw [Function.iterate_succ_apply, Path.parent_concat]
  have hlength : distance + 1 ≤ (above ++ [name]).length ↔ distance ≤ above.length := by
    rw [List.length_append, List.length_singleton, Nat.add_le_add_iff_right]
  constructor
  · intro h
    exact ⟨hlength.1 h.distance_le, hup ▸ h.place, h.isFile⟩
  · intro h
    exact ⟨hlength.2 h.distance_le, hup.symm ▸ h.place, h.isFile⟩

/-- Something stands somewhere exactly if it stands at a place of a directory that begins the
path. -/
theorem exists_standsAt_iff : (∃ distance rank, StandsAt tree directory distance rank path) ↔
    ∃ above, above <+: directory ∧ path ∈ configPlaces above ∧ tree.isFile path = true := by
  constructor
  · rintro ⟨distance, rank, h⟩
    exact ⟨_, Path.exists_iterate_parent_iff.1 ⟨distance, h.distance_le, rfl⟩,
      List.mem_of_getElem? h.place, h.isFile⟩
  · rintro ⟨above, habove, hplace, hfile⟩
    obtain ⟨distance, hle, rfl⟩ := Path.exists_iterate_parent_iff.2 habove
    obtain ⟨rank, hrank⟩ := List.mem_iff_getElem?.1 hplace
    exact ⟨distance, rank, hle, hrank, hfile⟩

/-! ## One directory -/

/-- In a directory the first of its places that has a file is taken. -/
theorem configIn?_eq_find? (tree : FileTree) (directory : Path) :
    configIn? tree directory = (configPlaces directory).find? tree.isFile := by
  have hplaces : configPlaces directory =
      configNames.map ((directory ++ [configDirectory]) ++ [·]) ++
        rootConfigNames.map (directory ++ [·]) := by
    simp [configPlaces, configNames, rootConfigNames, configDirectory]
  rw [hplaces, List.find?_append, configIn?, FileTree.firstFile?, FileTree.firstFile?]
  cases (configNames.map ((directory ++ [configDirectory]) ++ [·])).find? tree.isFile <;> rfl

/-- What is found in a directory is the nearest to it. -/
theorem isNearestConfig_of_configIn? (h : configIn? tree directory = some path) :
    IsNearestConfig tree directory path := by
  rw [configIn?_eq_find?, List.find?_eq_some_iff_getElem] at h
  obtain ⟨hfile, rank, hrank, hplace, hbefore⟩ := h
  refine ⟨0, rank, standsAt_zero.2 ⟨List.getElem?_eq_some_iff.2 ⟨hrank, hplace⟩, hfile⟩, ?_⟩
  intro distance' rank' other hother
  rcases Nat.eq_zero_or_pos distance' with rfl | hpos
  · refine .inr ⟨rfl, Nat.le_of_not_lt fun hlt => ?_⟩
    obtain ⟨hplace', hfile'⟩ := standsAt_zero.1 hother
    obtain ⟨_, hplace'⟩ := List.getElem?_eq_some_iff.1 hplace'
    have hnone := hbefore rank' hlt
    rw [hplace', hfile'] at hnone
    cases hnone
  · exact .inl hpos

/-- Where nothing is found in a directory, nothing stands in it. -/
theorem not_standsAt_of_configIn? (h : configIn? tree directory = none) :
    ¬ StandsAt tree directory 0 rank path := by
  intro hpath
  rw [configIn?_eq_find?, List.find?_eq_none] at h
  exact h path (List.mem_of_getElem? hpath.place) hpath.isFile

/-! ## The search -/

/-- Where nothing is found in a directory, the search goes on with the one above. -/
theorem findConfig?_concat (tree : FileTree) (above : Path) (name : String) :
    findConfig? tree (above ++ [name]) =
      (configIn? tree (above ++ [name])).or (findConfig? tree above) := by
  rw [findConfig?, List.reverse_concat, findConfigUp?, List.reverse_cons, List.reverse_reverse,
    Option.orElse_eq_or]
  rfl

/-- What is found is the nearest file. -/
theorem isNearestConfig_of_findConfig? (h : findConfig? tree directory = some path) :
    IsNearestConfig tree directory path := by
  induction directory using List.reverseRecOn with
  | nil => exact isNearestConfig_of_configIn? h
  | append_singleton above name ih =>
    rw [findConfig?_concat] at h
    cases hin : configIn? tree (above ++ [name]) with
    | some found =>
      rw [hin, Option.some_or] at h
      exact isNearestConfig_of_configIn? (hin.trans h)
    | none =>
      rw [hin, Option.none_or] at h
      obtain ⟨distance, rank, hpath, hleast⟩ := ih h
      refine ⟨distance + 1, rank, standsAt_concat_succ.2 hpath,
        fun distance' rank' other hother => ?_⟩
      cases distance' with
      | zero => exact absurd hother (not_standsAt_of_configIn? hin)
      | succ distance' =>
        rcases hleast distance' rank' other (standsAt_concat_succ.1 hother) with hlt | ⟨rfl, hle⟩
        · exact .inl (Nat.succ_lt_succ hlt)
        · exact .inr ⟨rfl, hle⟩

/-- Where nothing is found, nothing stands in the directory or above it. -/
theorem not_standsAt_of_findConfig? (h : findConfig? tree directory = none) :
    ¬ StandsAt tree directory distance rank path := by
  induction directory using List.reverseRecOn generalizing distance with
  | nil =>
    intro hpath
    obtain rfl : distance = 0 := Nat.le_zero.1 hpath.distance_le
    exact not_standsAt_of_configIn? h hpath
  | append_singleton above name ih =>
    rw [findConfig?_concat, Option.or_eq_none_iff] at h
    cases distance with
    | zero => exact not_standsAt_of_configIn? h.1
    | succ distance => exact fun hpath => ih h.2 (standsAt_concat_succ.1 hpath)

/-- There is one nearest file at most. -/
theorem IsNearestConfig.unique (h : IsNearestConfig tree directory path)
    (hother : IsNearestConfig tree directory other) :
    path = other := by
  obtain ⟨distance, rank, hpath, hleast⟩ := h
  obtain ⟨distance', rank', hpath', hleast'⟩ := hother
  have hle := hleast distance' rank' other hpath'
  have hge := hleast' distance rank path hpath
  obtain rfl : distance = distance' := by omega
  obtain rfl : rank = rank' := by omega
  exact Option.some.inj (hpath.place.symm.trans hpath'.place)

/-- The search finds exactly the nearest file. -/
theorem findConfig?_eq_some_iff :
    findConfig? tree directory = some path ↔ IsNearestConfig tree directory path := by
  refine ⟨isNearestConfig_of_findConfig?, fun h => ?_⟩
  cases hfound : findConfig? tree directory with
  | none =>
    obtain ⟨_, _, hpath, -⟩ := h
    exact absurd hpath (not_standsAt_of_findConfig? hfound)
  | some found => rw [(isNearestConfig_of_findConfig? hfound).unique h]

/-- The search finds nothing exactly if no directory that begins the path has a file at one of its
places. -/
theorem findConfig?_eq_none_iff : findConfig? tree directory = none ↔
    ∀ above, above <+: directory → ∀ path ∈ configPlaces above, tree.isFile path = false := by
  constructor
  · intro h above habove path hplace
    refine Bool.eq_false_iff.2 fun hfile => ?_
    obtain ⟨_, _, hpath⟩ := exists_standsAt_iff.2 ⟨above, habove, hplace, hfile⟩
    exact not_standsAt_of_findConfig? h hpath
  · intro h
    refine Option.eq_none_iff_forall_ne_some.2 fun path hfound => ?_
    obtain ⟨distance, rank, hpath, -⟩ := isNearestConfig_of_findConfig? hfound
    obtain ⟨above, habove, hplace, hfile⟩ := exists_standsAt_iff.1 ⟨distance, rank, hpath⟩
    rw [h above habove path hplace] at hfile
    cases hfile

/-! ## The files that make up a configuration -/

/-- The file of the user is the first there is of three names in the directory of the user. -/
theorem userConfig?_eq_some_iff {dirs : UserDirectories} : userConfig? tree dirs = some path ↔
    ∃ home before after, dirs.directory? = some home ∧
      [home ++ ["config.yml"], home ++ ["config.yaml"], home ++ ["config.toml"]] =
        before ++ path :: after ∧
        tree.isFile path = true ∧ ∀ other ∈ before, tree.isFile other = false := by
  simp only [userConfig?, Option.bind_eq_some_iff, FileTree.firstFile?,
    List.find?_eq_some_iff_append]
  constructor
  · rintro ⟨home, hhome, hfile, before, after, hnames, hbefore⟩
    exact ⟨home, before, after, hhome, hnames, hfile, fun other hother =>
      Bool.not_eq_true' .. ▸ hbefore other hother⟩
  · rintro ⟨home, before, after, hhome, hnames, hfile, hbefore⟩
    exact ⟨home, hhome, hfile, before, after, hnames, fun other hother => by
      rw [hbefore other hother]; rfl⟩

/-- Which files there are decides which of them make up the configuration. -/
theorem configLayers_congr {tree' : FileTree} (h : ∀ path, tree'.isFile path = tree.isFile path)
    (dirs : UserDirectories) (directory : Path) :
    configLayers tree' dirs directory = configLayers tree dirs directory := by
  have hfirst : tree'.firstFile? = tree.firstFile? := by
    funext directory names
    rw [FileTree.firstFile?, FileTree.firstFile?, funext h]
  have hin (directory : Path) : configIn? tree' directory = configIn? tree directory := by
    rw [configIn?, configIn?, hfirst]
  have hfound : findConfig? tree' directory = findConfig? tree directory := by
    induction directory using List.reverseRecOn with
    | nil => exact hin []
    | append_singleton above name ih => rw [findConfig?_concat, findConfig?_concat, hin, ih]
  rw [configLayers, configLayers, userConfig?, userConfig?, hfirst, hfound]

/-- What files hold decides what they are merged to. -/
theorem Config.ofLayers_congr {tree' : FileTree} {files : List Path}
    (h : ∀ file ∈ files, tree'.text? file = tree.text? file) :
    ofLayers tree' files = ofLayers tree files := by
  have hread : files.mapM (readLayer tree') = files.mapM (readLayer tree) :=
    mapM_congr fun file hfile => by rw [readLayer, readLayer, h file hfile]
  rw [ofLayers, ofLayers, hread]

/-- Which files there are, and what those hold that make up the configuration, decides it. -/
theorem effectiveConfig_congr {tree' : FileTree} {dirs : UserDirectories}
    (h : ∀ path, tree'.isFile path = tree.isFile path)
    (htexts : ∀ file ∈ configLayers tree dirs directory, tree'.text? file = tree.text? file) :
    effectiveConfig tree' dirs directory = effectiveConfig tree dirs directory := by
  rw [effectiveConfig, effectiveConfig, configLayers_congr h, Config.ofLayers_congr htexts]

/-- A configuration is made up of its layers. -/
theorem of_effectiveConfig {dirs : UserDirectories} {config : Config} {files : List Path}
    (h : effectiveConfig tree dirs directory = .ok (config, files)) :
    configLayers tree dirs directory = files ∧ Config.ofLayers tree files = .ok config := by
  obtain ⟨_, hload, hret⟩ := bind_eq_ok.1 h
  cases hret
  exact ⟨rfl, hload⟩

/-- What stands in merged documents: the last of them that holds a single value at a place decides,
if those after it leave the place alone, and what none of them speaks of is that of the base. -/
structure Document.IsMergedFrom (merged base : Document) (layers : List Document) : Prop where
  decided : ∀ lower layer upper place leaf, layers = lower ++ layer :: upper →
    layer.at? place = some leaf →
    leaf.isLeaf = true → (∀ later ∈ upper, later.LeavesAlone place) → merged.at? place = some leaf
  kept : ∀ place found, base.at? place = some found → (∀ layer ∈ layers, layer.LeavesAlone place) →
    merged.at? place = some found

theorem Document.isMergedFrom_mergeAll (base : Document) (layers : List Document) :
    (base.mergeAll layers).IsMergedFrom base layers where
  decided lower layer upper place leaf hlayers hlayer hleaf hupper := by
    rw [hlayers, mergeAll_append]
    show (((base.mergeAll lower).merge layer).mergeAll upper).at? place = some leaf
    exact at?_mergeAll_of_leavesAlone hupper (at?_merge_of_isLeaf hlayer hleaf _)
  kept place found hbase hlayers := at?_mergeAll_of_leavesAlone hlayers hbase

/-- What is made up of files is read from their documents, merged over the default one. -/
theorem Config.of_ofLayers {files : List Path} {config : Config}
    (h : ofLayers tree files = .ok config) :
    ∃ documents,
      List.Forall₂ (fun file document => readLayer tree file = .ok document) files documents ∧
      ofDocument? ((toDocument {}).mergeAll documents) = some config := by
  obtain ⟨documents, hdocuments, h⟩ := bind_eq_ok.1 h
  obtain ⟨read, hread, h⟩ := bind_eq_ok.1 h
  obtain ⟨_, -, h⟩ := bind_eq_ok.1 h
  cases h
  exact ⟨documents, mapM_eq_ok.1 hdocuments, elim_error_eq_ok.1 hread⟩

/-- The search for a file of configuration finds the nearest one to a directory, and nothing exactly
if there is none up to the root. The configuration for the directory is made up of the file of the
user, if there is one, and of this file, if there is one, each over what comes before it, and no
other file has a say. -/
theorem effectiveConfig_nearest (tree : FileTree) (directory : Path) :
    (∀ path, findConfig? tree directory = some path ↔ IsNearestConfig tree directory path) ∧
      (findConfig? tree directory = none ↔
        ∀ above, above <+: directory → ∀ path ∈ configPlaces above, tree.isFile path = false) ∧
      ∀ dirs : UserDirectories,
        (∀ path, userConfig? tree dirs = some path ↔ ∃ home before after,
          dirs.directory? = some home ∧
          [home ++ ["config.yml"], home ++ ["config.yaml"], home ++ ["config.toml"]] =
            before ++ path :: after ∧
            tree.isFile path = true ∧ ∀ other ∈ before, tree.isFile other = false) ∧
        ∀ files : List Path,
          files = (userConfig? tree dirs).toList ++ (findConfig? tree directory).toList →
          effectiveConfig tree dirs directory = (·, files) <$> Config.ofLayers tree files ∧
            (∀ config, Config.ofLayers tree files = .ok config → ∃ documents,
              List.Forall₂ (fun file document => readLayer tree file = .ok document)
                files documents ∧
                ((Config.toDocument {}).mergeAll documents).IsMergedFrom
                  (Config.toDocument {}) documents ∧
                Config.ofDocument? ((Config.toDocument {}).mergeAll documents) = some config) ∧
            ∀ tree' : FileTree, (∀ path, tree'.isFile path = tree.isFile path) →
              (∀ file ∈ files, tree'.text? file = tree.text? file) →
                effectiveConfig tree' dirs directory = effectiveConfig tree dirs directory := by
  refine ⟨fun path => findConfig?_eq_some_iff, findConfig?_eq_none_iff, fun dirs =>
    ⟨fun path => userConfig?_eq_some_iff, fun files hfiles => ?_⟩⟩
  obtain rfl : configLayers tree dirs directory = files := hfiles.symm
  refine ⟨?_, fun config hconfig => ?_, fun tree' hsame htexts => ?_⟩
  · rw [effectiveConfig]
    cases Config.ofLayers tree (configLayers tree dirs directory) <;> rfl
  · obtain ⟨documents, hdocuments, hread⟩ := Config.of_ofLayers hconfig
    exact ⟨documents, hdocuments, Document.isMergedFrom_mergeAll _ _, hread⟩
  · exact effectiveConfig_congr hsame htexts

/-- A directory bears the name of a file of configuration, a file in the directory of its own comes
before another one beside it, and the one at the root is too far up. -/
def crowdedHome : FileTree := fun p =>
  if p = ["home", "ann", "work", ".relnote", "config.yml"] then some .directory
  else if p = ["home", "ann", ".relnote", "config.toml"] then some (.file "log-level = \"warn\"\n")
  else if p = ["home", "ann", "relnote.yml"] then some (.file "log-level: info\n")
  else if p = ["relnote.yml"] then some (.file "log-level: error\n")
  else if p = ["etc", "relnote", "config.yaml"] then
    some (.file "log-level: debug\nversioning:\n  update-minor: [perf]\n")
  else none

/-- The file that is found is one directory up. It has the last word on the level, and what the file
of the user says of versions stays. Other files may say what they like. -/
theorem effectiveConfig_nearest_crowdedHome :
    let directory : Path := ["home", "ann", "work"]
    let path : Path := ["home", "ann", ".relnote", "config.toml"]
    let dirs : UserDirectories := { shared := some ["etc"] }
    let files : List Path := [["etc", "relnote", "config.yaml"], path]
    let config : Config := { logLevel := some "warn", versioning := { minor := ["perf"] } }
    let changed : FileTree := crowdedHome.set ["relnote.yml"] (.file "tag: {pattern: nothing}\n")
    findConfig? crowdedHome directory = some path ∧ IsNearestConfig crowdedHome directory path ∧
      StandsAt crowdedHome directory 1 2 path ∧
      files = (userConfig? crowdedHome dirs).toList ++ (findConfig? crowdedHome directory).toList ∧
      Config.ofLayers crowdedHome files = .ok config ∧
      effectiveConfig crowdedHome dirs directory = .ok (config, files) ∧
      (∀ path, changed.isFile path = crowdedHome.isFile path) ∧
      (∀ file ∈ files, changed.text? file = crowdedHome.text? file) ∧
      effectiveConfig changed dirs directory = .ok (config, files) := by
  intro directory path dirs files config changed
  have hfound : findConfig? crowdedHome directory = some path := by decide +kernel
  have hplace : StandsAt crowdedHome directory 1 2 path :=
    ⟨by decide, by decide +kernel, by decide +kernel⟩
  have hfiles : files = (userConfig? crowdedHome dirs).toList ++
      (findConfig? crowdedHome directory).toList := by
    decide +kernel
  have hload : Config.ofLayers crowdedHome files = .ok config := by decide +kernel
  have hsame : ∀ path, changed.isFile path = crowdedHome.isFile path := by
    intro other
    by_cases hother : other = ["relnote.yml"]
    · subst hother
      decide +kernel
    · simp only [changed, FileTree.isFile, FileTree.set, if_neg hother]
  have htexts : ∀ file ∈ files, changed.text? file = crowdedHome.text? file := by decide +kernel
  obtain ⟨hnearest, -, huser⟩ := effectiveConfig_nearest crowdedHome directory
  obtain ⟨heffective, -, hothers⟩ := (huser dirs).2 files hfiles
  rw [hload] at heffective
  exact ⟨hfound, (hnearest path).1 hfound, hplace, hfiles, hload, heffective, hsame, htexts,
    (hothers changed hsame htexts).trans heffective⟩

end ConventionalRelease
