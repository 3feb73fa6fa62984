import ConventionalRelease.Config.Layers
import ConventionalRelease.Proofs.Commit.Convention
import ConventionalRelease.Proofs.Release.Outline
import ConventionalRelease.Release.Note

/-!
# Configurations that pass their check

A configuration passes its check exactly if all that release notes are written from can be made of
it, its names and keys are not empty, and its tags show some part of a version
(`Config.validate_eq_ok`). What release notes are written from is made of the parts of the
configuration, each for itself (`ReleaseWriter.ofConfig_spec`).
-/

namespace ConventionalRelease

/-- The rules for tags pass their check exactly if the pattern has a placeholder. -/
theorem TagRules.validate_eq_ok {rules : TagRules} :
    rules.validate = .ok () ↔
      ∃ word ∈ placeholders, Text.occursIn word.toList rules.pattern.toList = true := by
  rw [validate, ← List.any_eq_true]
  split
  · next h => exact ⟨fun _ => h, fun _ => rfl⟩
  · next h => exact ⟨nofun, fun h' => absurd h' h⟩

namespace ReleaseWriter

variable {config : Config} {writer : ReleaseWriter}

/-- Release notes can be written exactly if a configuration has a convention and an outline. -/
theorem exists_ofConfig_iff :
    (∃ writer, ofConfig config = .ok writer) ↔
      (∃ convention, Convention.ofConfig config = .ok convention) ∧
        ∃ outline, Outline.ofSections config.sections = .ok outline := by
  constructor
  · rintro ⟨writer, h⟩
    obtain ⟨convention, hconvention, h⟩ := bind_eq_ok.1 h
    obtain ⟨outline, houtline, -⟩ := bind_eq_ok.1 h
    exact ⟨⟨convention, hconvention⟩, outline, houtline⟩
  · rintro ⟨⟨convention, hconvention⟩, outline, houtline⟩
    exact ⟨⟨convention, outline⟩,
      bind_eq_ok.2 ⟨convention, hconvention, bind_eq_ok.2 ⟨outline, houtline, rfl⟩⟩⟩

/-- What release notes are written from is read off the parts of the configuration. -/
theorem ofConfig_spec (h : ofConfig config = .ok writer) :
    config.messages.selector?.mapM readSelector = .ok writer.convention.selector ∧
      (config.messages.footers.entries.filter (·.2.key != "")).mapM (fun (name, style) =>
        FooterReader.ofStyle name style) =
        .ok writer.convention.footers ∧
      config.messages.issueStyle?.mapM IssueFooter.ofStyle = .ok writer.convention.issueFooter ∧
      readIssuePattern config.branches config.messages = .ok writer.convention.issuePattern ∧
      Outline.ofSections config.sections = .ok writer.outline := by
  obtain ⟨convention, hconvention, h⟩ := bind_eq_ok.1 h
  obtain ⟨outline, houtline, h⟩ := bind_eq_ok.1 h
  cases h
  obtain ⟨hselector, hfooters, hissueFooter, hissuePattern⟩ := Convention.ofConfig_spec hconvention
  exact ⟨hselector, hfooters, hissueFooter, hissuePattern, houtline⟩

end ReleaseWriter

/-- A configuration passes its check exactly if release notes can be written with it, its sections
have names, its footers have keys, and its tags show some part of a version. -/
theorem Config.validate_eq_ok {config : Config} :
    config.validate = .ok () ↔ (∃ writer, ReleaseWriter.ofConfig config = .ok writer) ∧
      (∀ rule ∈ config.sections, rule.name ≠ "") ∧
        (∀ e ∈ config.messages.footers.entries, e.2.key ≠ "") ∧
      ∃ word ∈ TagRules.placeholders,
        Text.occursIn word.toList config.tag.pattern.toList = true := by
  rw [ReleaseWriter.exists_ofConfig_iff, Convention.exists_ofConfig_iff]
  constructor
  · intro h
    obtain ⟨_, hmessages, h⟩ := bind_eq_ok.1 h
    obtain ⟨_, hissue, h⟩ := bind_eq_ok.1 h
    obtain ⟨_, hsections, htag⟩ := bind_eq_ok.1 h
    obtain ⟨hselector, hkeys⟩ := MessageRules.validate_eq_ok.1 hmessages
    obtain ⟨hnames, houtline⟩ := Outline.validateSections_eq_ok.1 hsections
    exact ⟨⟨⟨hselector, validateIssuePattern_eq_ok.1 hissue⟩, houtline⟩, hnames, hkeys,
      TagRules.validate_eq_ok.1 htag⟩
  · rintro ⟨⟨⟨hselector, hissue⟩, houtline⟩, hnames, hkeys, htag⟩
    exact bind_eq_ok.2 ⟨(), MessageRules.validate_eq_ok.2 ⟨hselector, hkeys⟩,
      bind_eq_ok.2 ⟨(), validateIssuePattern_eq_ok.2 hissue,
        bind_eq_ok.2 ⟨(), Outline.validateSections_eq_ok.2 ⟨hnames, houtline⟩,
          TagRules.validate_eq_ok.2 htag⟩⟩⟩

/-- A configuration that is made up of layers has passed its check. -/
theorem Config.validate_of_ofLayers {tree : FileTree} {paths : List Path} {config : Config}
    (h : ofLayers tree paths = .ok config) : config.validate = .ok () := by
  obtain ⟨documents, -, h⟩ := bind_eq_ok.1 h
  obtain ⟨checked, -, h⟩ := bind_eq_ok.1 h
  obtain ⟨_, hvalidate, h⟩ := bind_eq_ok.1 h
  cases h
  exact hvalidate

end ConventionalRelease
