import ConventionalRelease.Cli.Run
import ConventionalRelease.Proofs.Config.Document
import ConventionalRelease.Proofs.Config.Validation
import ConventionalRelease.Proofs.Yaml.RoundTrip

/-!
# Layers that are written and loaded again

Layers in mapping form add footers and change them, but never take one away, so the default footer
is among those of every configuration that is loaded from such layers
(`Config.isSome_get?_of_ofLayers`). What is written as a document of such a configuration, as the
only layer, is loaded as the configuration (`Config.ofLayers_shown`).
-/

namespace ConventionalRelease

/-! ## Layers in mapping form -/

namespace Document

/-- Whether a document is in mapping form along a path: what it holds on the way is a mapping, or
`null`. -/
def mapsAlong : Document → List String → Bool
  | null, _ => true
  | mapping _, [] => true
  | mapping fields, key :: rest => (fields.lookup key).all (·.mapsAlong rest)
  | _, _ => false

/-- A layer in mapping form keeps a key that is there. -/
theorem isSome_at?_merge {base layer : Document} {path : List String}
    (h : layer.mapsAlong path = true) {key : String} (hbase : (base.at? (path ++ [key])).isSome) :
    ((base.merge layer).at? (path ++ [key])).isSome := by
  obtain ⟨found, hfound⟩ := Option.isSome_iff_exists.1 hbase
  induction path generalizing base layer with
  | nil =>
    obtain ⟨fields, value, rfl, hvalue, -⟩ := at?_cons_eq_some.1 hfound
    cases layer with
    | null => rwa [merge_null]
    | mapping changes =>
      rw [merge, List.nil_append, at?, lookup_merge_of_some changes hvalue]
      rfl
    | _ => cases h
  | cons next rest ih =>
    obtain ⟨fields, value, rfl, hvalue, hrest⟩ := at?_cons_eq_some.1 hfound
    have hthere : (value.at? (rest ++ [key])).isSome := Option.isSome_iff_exists.2 ⟨found, hrest⟩
    cases layer with
    | null => rwa [merge_null]
    | mapping changes =>
      rw [merge, List.cons_append, at?, lookup_merge_of_some changes hvalue]
      cases hchange : changes.lookup next with
      | none => exact hthere
      | some change =>
        rw [mapsAlong, hchange] at h
        exact ih h hthere hrest
    | _ => cases h

theorem isSome_at?_mergeAll {base : Document} {layers : List Document} {path : List String}
    {key : String} (h : ∀ layer ∈ layers, layer.mapsAlong path = true)
    (hbase : (base.at? (path ++ [key])).isSome) :
    ((base.mergeAll layers).at? (path ++ [key])).isSome := by
  induction layers generalizing base with
  | nil => exact hbase
  | cons layer layers ih =>
    obtain ⟨hlayer, hlayers⟩ := List.forall_mem_cons.1 h
    exact ih hlayers (isSome_at?_merge hlayer hbase)

end Document

open Document

/-- Where the footers stand in a configuration. -/
def footerPath : List String := ["commit-message", "footer"]

/-- A footer that is in a document is among the footers that are read. -/
theorem isSome_get?_of_footersOfDocument? {fields : List (String × Document)}
    {footers : Dictionary FooterStyle} (h : footersOfDocument? (mapping fields) = some footers)
    {name : String} (hname : (fields.lookup name).isSome) :
    (footers.get? name).isSome := by
  obtain ⟨entries, rfl, hentries⟩ := footersOfDocument?_eq_some.1 h
  have hnames : ∀ field ∈ fields, ∃ e ∈ entries, field.1 = e.1 := by
    clear h hname
    induction hentries with
    | nil => exact nofun
    | cons hhead _ ih =>
      refine List.forall_mem_cons.2 ⟨⟨_, List.mem_cons_self, hhead.1⟩, fun field hfield => ?_⟩
      obtain ⟨e, he, hsame⟩ := ih field hfield
      exact ⟨e, List.mem_cons_of_mem _ he, hsame⟩
  obtain ⟨field, hfield, hfound⟩ := List.lookup_isSome_iff.1 hname
  obtain ⟨e, he, hsame⟩ := hnames field hfield
  rw [Dictionary.get?_ofList]
  exact List.lookup_isSome_iff.2 ⟨e, List.mem_reverse.2 he, by rwa [← hsame]⟩

/-- What is read as a footer of a configuration is among its footers. -/
theorem Config.isSome_get?_of_ofDocument? {d : Document} {config : Config}
    (h : ofDocument? d = some config) {name : String}
    (hname : (d.at? (footerPath ++ [name])).isSome) :
    (config.messages.footers.get? name).isSome := by
  obtain ⟨found, hfound⟩ := Option.isSome_iff_exists.1 hname
  obtain ⟨fields, messages, rfl, hmessages, hfound⟩ := at?_cons_eq_some.1 hfound
  obtain ⟨rules, footers, rfl, hfooters, hfound⟩ := at?_cons_eq_some.1 hfound
  obtain ⟨entries, style, rfl, hstyle, -⟩ := at?_cons_eq_some.1 hfound
  have hread : MessageRules.ofDocument? (mapping rules) = some config.messages := by
    simp only [ofDocument?, Option.bind_eq_bind, Option.bind_eq_some_iff] at h
    obtain ⟨_, -, _, -, _, -, _, -, _, -, _, -, _, -, messages, h, hconfig⟩ := h
    cases hconfig
    rwa [fieldOr, field?, hmessages] at h
  have hfooters : footersOfDocument? (mapping entries) = some config.messages.footers := by
    simp only [MessageRules.ofDocument?, Option.bind_eq_bind, Option.bind_eq_some_iff] at hread
    obtain ⟨_, -, _, -, _, -, _, -, footers, h, _, -, hrules⟩ := hread
    rw [← Option.some.inj hrules]
    rwa [fieldOr, field?, hfooters] at h
  exact isSome_get?_of_footersOfDocument? hfooters (by rw [hstyle]; rfl)

/-- Layers in mapping form take no footer of the default configuration away. -/
theorem Config.isSome_get?_of_ofLayers {tree : FileTree} {paths : List Path} {config : Config}
    (h : ofLayers tree paths = .ok config)
    (hform : ∀ path ∈ paths, ∀ layer, readLayer tree path = .ok layer →
      layer.mapsAlong footerPath = true) :
    (config.messages.footers.get? issueName).isSome := by
  obtain ⟨layers, hlayers, h⟩ := bind_eq_ok.1 h
  obtain ⟨read, hread, h⟩ := bind_eq_ok.1 h
  obtain ⟨_, -, h⟩ := bind_eq_ok.1 h
  cases h
  have hmaps : ∀ layer ∈ layers, layer.mapsAlong footerPath = true := by
    intro layer hlayer
    obtain ⟨path, hpath, hpathLayer⟩ := exists_of_mem_mapM hlayers hlayer
    exact hform path hpath layer hpathLayer
  exact isSome_get?_of_ofDocument? (elim_error_eq_ok.1 hread) (isSome_at?_mergeAll hmaps rfl)

/-! ## Documents of configurations -/

theorem Document.isTextual_texts (items : List String) : IsTextual (.texts items) := by
  refine .list fun d hd => ?_
  obtain ⟨s, -, rfl⟩ := List.mem_map.1 hd
  exact .text s

theorem VersioningRules.isTextual_toDocument (rules : VersioningRules) :
    rules.toDocument.IsTextual :=
  .mapping (by simp) (by simp [isTextual_texts, IsTextual.bool])

theorem TagRules.isTextual_toDocument (rules : TagRules) : rules.toDocument.IsTextual :=
  .mapping (by simp) (by simp [IsTextual.text])

theorem BranchRules.isTextual_toDocument (rules : BranchRules) : rules.toDocument.IsTextual :=
  .mapping (by simp) (by simp [isTextual_texts, IsTextual.text, IsTextual.bool])

theorem FooterStyle.isTextual_toDocument (style : FooterStyle) : style.toDocument.IsTextual :=
  .mapping (by simp) (by simp [isTextual_texts, IsTextual.text, IsTextual.bool])

theorem SectionRule.isTextual_toDocument (rule : SectionRule) : rule.toDocument.IsTextual := by
  rw [toDocument]
  split
  · exact .mapping (by simp) (by simp [IsTextual.text])
  · exact .mapping (by simp) (by simp [isTextual_texts, IsTextual.text])

theorem isTextual_sectionsToDocument (sections : List SectionRule) :
    (sectionsToDocument sections).IsTextual := by
  refine .mapping (by simp) (List.forall_mem_singleton.2 (.list fun d hd => ?_))
  obtain ⟨rule, -, rfl⟩ := List.mem_map.1 hd
  exact rule.isTextual_toDocument

theorem isTextual_footersToDocument (footers : Dictionary FooterStyle) :
    (footersToDocument footers).IsTextual := by
  refine .mapping ?_ fun f hf => ?_
  · rw [List.map_map]
    exact footers.nodup_names
  · obtain ⟨e, -, rfl⟩ := List.mem_map.1 hf
    exact e.2.isTextual_toDocument

theorem MessageRules.isTextual_toDocument (rules : MessageRules) : rules.toDocument.IsTextual := by
  have hscopes : IsTextual (.mapping [("values", .texts rules.scopes)]) :=
    .mapping (by simp) (List.forall_mem_singleton.2 (isTextual_texts rules.scopes))
  have hissue : IsTextual (.mapping [("regex", .text rules.issuePattern)]) :=
    .mapping (by simp) (List.forall_mem_singleton.2 (.text rules.issuePattern))
  rw [toDocument]
  split
  · exact .mapping (by simp)
      (by simp [isTextual_texts, IsTextual.text, hscopes, hissue, isTextual_footersToDocument])
  · exact .mapping (by simp)
      (by simp [isTextual_texts, hscopes, hissue, isTextual_footersToDocument])

/-- A configuration is written with texts and truth values alone. -/
theorem Config.isTextual_toDocument (config : Config) : config.toDocument.IsTextual := by
  have hversioning := config.versioning.isTextual_toDocument
  have htag := config.tag.isTextual_toDocument
  have hsections := isTextual_sectionsToDocument config.sections
  have hbranches := config.branches.isTextual_toDocument
  have hmessages := config.messages.isTextual_toDocument
  rw [toDocument]
  split
  · exact .mapping (by simp) (by simp [IsTextual.text, *])
  · exact .mapping (by simp) (by simp [IsTextual.text, *])

/-- The document of a configuration is read from what is written of it. -/
theorem Config.read?_write (config : Config) :
    Yaml.read? (Yaml.write config.toDocument) = some config.toDocument :=
  Yaml.read?_write config.isTextual_toDocument

/-! ## Loading what is written -/

variable {tree : FileTree} {paths : List Path} {path : Path} {config : Config}

/-- A file in YAML with what is written of a configuration is read as its document. -/
theorem readLayer_of_text? (hyaml : path.extension? ≠ some tomlExtension)
    (htext : tree.text? path = some (Yaml.write config.toDocument)) :
    readLayer tree path = .ok config.toDocument := by
  have hread : readConfigText path (Yaml.write config.toDocument) = .ok config.toDocument := by
    rw [readConfigText, if_neg hyaml, config.read?_write]
    rfl
  exact bind_eq_ok.2 ⟨_, elim_error_eq_ok.2 htext, bind_eq_ok.2 ⟨_, hread, rfl⟩⟩

/-- What is written of a configuration that passes its check is, as the only layer, loaded as the
configuration. -/
theorem Config.ofLayers_of_text? (hvalidate : config.validate = .ok ())
    (h : (config.messages.footers.get? issueName).isSome)
    (hyaml : path.extension? ≠ some tomlExtension)
    (htext : tree.text? path = some (Yaml.write config.toDocument)) :
    ofLayers tree [path] = .ok config := by
  have hlayers : [path].mapM (readLayer tree) = .ok [config.toDocument] :=
    mapM_eq_ok.2 (.cons (readLayer_of_text? hyaml htext) .nil)
  have hread : ofDocument? ((toDocument {}).mergeAll [config.toDocument]) = some config :=
    ofDocument?_merge h
  exact bind_eq_ok.2 ⟨_, hlayers,
    bind_eq_ok.2 ⟨_, elim_error_eq_ok.2 hread, bind_eq_ok.2 ⟨(), hvalidate, rfl⟩⟩⟩

theorem FileTree.has_of_text? {text : String} (h : tree.text? path = some text) :
    tree.has path = true := by
  rw [text?] at h
  rw [has]
  cases hentry : tree path with
  | none => simp [hentry] at h
  | some entry => rfl

/-- A configuration with the default footer is what its document over the default one is read as.
Whatever is loaded from layers in mapping form has that footer, and if a configuration that is
loaded has it, what is shown of it in a file in YAML is loaded as that configuration, and where that
file is the only layer the configuration is the effective one. -/
theorem Config.ofLayers_shown :
    (∀ config : Config, (config.messages.footers.get? issueName).isSome →
      ofDocument? ((toDocument {}).merge config.toDocument) = some config) ∧
    ∀ (tree : FileTree) (paths : List Path) (config : Config), ofLayers tree paths = .ok config →
      ((∀ path ∈ paths, ∀ layer, readLayer tree path = .ok layer →
        layer.mapsAlong footerPath = true) →
        (config.messages.footers.get? issueName).isSome) ∧
      ((config.messages.footers.get? issueName).isSome →
        ∀ (settings : Cli.Settings) (files : List Path),
        settings.format = .text → ∀ (tree' : FileTree) (path : Path),
          path.extension? ≠ some tomlExtension →
          tree'.text? path = some (Cli.showConfig settings config files).text →
            load tree' path = .ok config ∧ ∀ (user : UserDirectories) (directory : Path),
              configLayers tree' user directory = [path] →
                effectiveConfig tree' user directory = .ok (config, [path])) := by
  refine ⟨fun config h => ofDocument?_merge h, fun tree paths config hload =>
    ⟨isSome_get?_of_ofLayers hload, fun h settings files hformat tree' path hyaml htext => ?_⟩⟩
  have hshown : (Cli.showConfig settings config files).text = Yaml.write config.toDocument := by
    rw [Cli.showConfig, hformat]
  rw [hshown] at htext
  have hreload := ofLayers_of_text? (validate_of_ofLayers hload) h hyaml htext
  refine ⟨?_, fun user directory hlayers => ?_⟩
  · rw [load, if_pos (FileTree.has_of_text? htext), hreload]
  · rw [effectiveConfig, hlayers, hreload]
    rfl

/-- The file of a repository that sets scopes, two of which have to be quoted, and one more
footer. -/
def quotedScopes : FileTree := fun p =>
  if p = ["repo", "relnote.yml"] then some (.file ("log-level: debug\ncommit-message:\n" ++
    "  scope:\n    values: [\"yes\", \"1.0\", api]\n  footer:\n    refs:\n      key: Refs\n"))
  else none

/-- What is shown of the configuration of a repository takes the place of its file. -/
theorem Config.ofLayers_shown_quotedScopes :
    let path : Path := ["repo", "relnote.yml"]
    let messages : MessageRules := {}
    let footers := messages.footers.insert "refs" { key := "Refs" }
    let config :
    Config := { logLevel := some "debug", messages := { scopes := ["yes", "1.0", "api"], footers } }
    let shown : FileTree := quotedScopes.set path (.file (Cli.showConfig {} config [path]).text)
    ofLayers quotedScopes [path] = .ok config ∧ (config.messages.footers.get? issueName).isSome ∧
      ofDocument? ((toDocument {}).merge config.toDocument) = some config ∧
        load shown path = .ok config ∧
        effectiveConfig shown {} ["repo"] = .ok (config, [path]) := by
  intro path messages footers config shown
  have hload : ofLayers quotedScopes [path] = .ok config := by decide +kernel
  have hform : (readLayer quotedScopes path).toOption.all (·.mapsAlong footerPath) = true := by
    decide +kernel
  have hissue : (config.messages.footers.get? issueName).isSome := by
    refine (ofLayers_shown.2 _ _ _ hload).1 (List.forall_mem_singleton.2 fun layer hlayer => ?_)
    rw [hlayer] at hform
    exact hform
  have htext : shown.text? path = some (Cli.showConfig {} config [path]).text := rfl
  have hlayers : configLayers shown {} ["repo"] = [path] := by decide +kernel
  obtain ⟨hreload, heffective⟩ :=
    (ofLayers_shown.2 _ _ _ hload).2 hissue {} [path] rfl shown path (by decide) htext
  exact ⟨hload, hissue, ofLayers_shown.1 config hissue, hreload, heffective {} ["repo"] hlayers⟩

end ConventionalRelease
