import ConventionalRelease.Cli.Run
import ConventionalRelease.Proofs.Config.Validation

/-!
# Failures of commands

Once a configuration is loaded, no command fails because of it (`Cli.effectiveConfig_of_runHere`):
the only part of a command that could is reading what release notes are written from
(`Cli.runInProject_configSafe`), and for a configuration that has passed its check this succeeds
(`Config.exists_writer_of_validate`).
-/

namespace ConventionalRelease

/-! ## Attempts that do not fail because of the configuration -/

/-- An attempt does not fail because of the configuration. -/
def Attempt.ConfigSafe {α : Type} (x : Attempt α) : Prop :=
  ∀ f, x = .error f → ∀ e, f.cause ≠ .config e

namespace Attempt.ConfigSafe

variable {α β : Type}

theorem ok (a : α) : ConfigSafe (.ok a) := nofun

/-- What fails for other causes does not fail because of the configuration. -/
theorem of_mapError {ε : Type} (cause : ε → Cause) (h : ∀ d e, cause d ≠ .config e)
    (x : Except ε α) :
    ConfigSafe (x.mapError fun d => { cause := cause d }) := by
  intro f hf e
  obtain ⟨d, -, rfl⟩ := error_of_mapError hf
  exact h d e

theorem history (x : Except HistoryError α) : ConfigSafe (.history x) :=
  of_mapError .history (fun _ _ => nofun) x

theorem version (x : Except VersionError α) : ConfigSafe (.version x) :=
  of_mapError .version (fun _ _ => nofun) x

theorem message (x : Except MessageError α) : ConfigSafe (.message x) :=
  of_mapError .message (fun _ _ => nofun) x

theorem file (x : Except FileError α) : ConfigSafe (.file x) :=
  of_mapError .file (fun _ _ => nofun) x

/-- Saying what is being done does not matter. -/
theorem within {x : Attempt α} (h : ConfigSafe x) (context : String) :
    ConfigSafe (.within context x) := by
  intro f hf e
  obtain ⟨g, hg, hcause⟩ := Attempt.within_eq_error hf
  exact hcause ▸ h g hg e

/-- Nor does it matter whether the value is used. -/
theorem discard {x : Attempt α} (h : ConfigSafe x) : ConfigSafe (discard x) := by
  intro f hf e
  cases x with
  | error g =>
    cases hf
    exact h f rfl e
  | ok a => cases hf

/-- A sequence does not fail because of the configuration if none of its parts does. -/
theorem bind {x : Attempt α} {f : α → Attempt β} (h : ConfigSafe x)
    (hrest : ∀ a, ConfigSafe (f a)) :
    ConfigSafe (x >>= f) := by
  intro g hg
  rcases bind_eq_error.1 hg with hg | ⟨a, -, hg⟩
  · exact h g hg
  · exact hrest a g hg

/-- Of a sequence whose first part has a value only the second part matters. -/
theorem bind_ok {x : Attempt α} {f : α → Attempt β} {a : α} (h : x = .ok a)
    (hrest : ConfigSafe (f a)) :
    ConfigSafe (x >>= f) := by
  rw [h]
  exact hrest

theorem mapM {f : α → Attempt β} (as : List α) (h : ∀ a, ConfigSafe (f a)) :
    ConfigSafe (as.mapM f) := by
  induction as with
  | nil => exact .ok []
  | cons a as ih =>
    rw [List.mapM_cons]
    exact (h a).bind fun b => ih.bind fun bs => .ok (b :: bs)

end Attempt.ConfigSafe

open Attempt (ConfigSafe)

/-! ## Planning -/

namespace Project

variable (p : Project) (writer : ReleaseWriter)

theorem currentVersion_configSafe : ConfigSafe p.currentVersion :=
  ((ConfigSafe.version _).within _).bind fun _ => .ok _

theorem nextVersion_configSafe : ConfigSafe (p.nextVersion writer) :=
  p.currentVersion_configSafe.bind fun _ => ((ConfigSafe.history _).within _).bind fun _ =>
    (ConfigSafe.message _).bind fun _ => (ConfigSafe.version _).bind fun _ => .ok _

theorem noteSince_configSafe (previous : Option TagInfo) (tag : TagInfo) :
    ConfigSafe (p.noteSince writer previous tag) :=
  ((ConfigSafe.history _).within _).bind fun _ => .message _

theorem tagNote_configSafe (name : String) : ConfigSafe (p.tagNote writer name) :=
  (ConfigSafe.history _).bind fun _ => (ConfigSafe.history _).bind fun _ =>
    p.noteSince_configSafe writer _ _

theorem rangeNote_configSafe (range : LogRange) : ConfigSafe (p.rangeNote writer range) :=
  ((ConfigSafe.history _).within _).bind fun _ => .message _

end Project

/-! ## Commands -/

namespace Cli

variable {p : Project} {writer : ReleaseWriter} (hwriter : p.writer = .ok writer)
  (settings : Settings)
include hwriter

theorem showNextVersion_configSafe : ConfigSafe (showNextVersion settings p) := by
  refine .bind_ok hwriter ((p.nextVersion_configSafe writer).bind fun next => ?_)
  cases settings.format <;> exact .ok _

theorem makeTag_configSafe (dryRun : Bool) (now : Instant) :
    ConfigSafe (makeTag settings p dryRun now) := by
  refine .bind_ok hwriter ((p.nextVersion_configSafe writer).bind fun next => ?_)
  dsimp only
  split
  · exact .ok _
  · split
    · refine ((ConfigSafe.history _).within _).discard.bind fun _ => ?_
      cases settings.format <;> exact .ok _
    · cases settings.format <;> exact .ok _

theorem listCommits_configSafe (choice : LogChoice) : ConfigSafe (listCommits p choice) := by
  refine .bind_ok hwriter (ConfigSafe.bind ?_ fun range =>
    ((ConfigSafe.history _).within _).bind fun log =>
    (ConfigSafe.message _).bind fun commits => .ok _)
  cases choice with
  | ofRange range => exact .ok _
  | ofTag name => exact (ConfigSafe.history _).bind fun _ => .ok _

theorem writeRangeNote_configSafe (choice : RangeChoice) (output : Option String) :
    ConfigSafe (writeRangeNote settings p choice output) :=
  .bind_ok hwriter ((p.rangeNote_configSafe writer _).bind fun _ => .ok _)

theorem writeReleaseNote_configSafe (tag output : Option String) (now : Instant) :
    ConfigSafe (writeReleaseNote settings p tag output now) := by
  refine .bind_ok hwriter ?_
  cases tag with
  | some name => exact (p.tagNote_configSafe writer name).bind fun _ => .ok _
  | none => exact (p.nextVersion_configSafe writer).bind fun _ => .ok _

theorem changelogNotes_configSafe (choice : ChangelogChoice) (now : Instant) :
    ConfigSafe (changelogNotes p choice now) := by
  have hnotes : ∀ pairs : List (TagInfo × Option TagInfo),
      ConfigSafe (pairs.mapM fun pair => p.noteSince writer pair.2 pair.1) :=
    fun pairs => .mapM pairs fun pair => p.noteSince_configSafe writer pair.2 pair.1
  refine .bind_ok hwriter ?_
  dsimp only
  split
  · exact (p.nextVersion_configSafe writer).bind fun next => (hnotes _).bind fun _ => .ok _
  · exact (hnotes _).bind fun _ => .ok _

theorem checkMessage_configSafe (w : Workspace) (directory file : String) (source : Option String) :
    ConfigSafe (checkMessage w p directory file source) := by
  refine .bind_ok hwriter ?_
  dsimp only
  split
  · exact .ok _
  · refine ((ConfigSafe.file _).within _).bind fun read =>
      ((ConfigSafe.message _).within _).bind fun _ => ?_
    split
    · exact .ok _
    · split <;> exact .ok _

/-- If release notes can be written, no command fails because of the configuration. -/
theorem runInProject_configSafe (w : Workspace) (command : ProjectCommand) :
    ConfigSafe (runInProject w settings p command) := by
  cases command with
  | currentVersion =>
    refine p.currentVersion_configSafe.bind fun current => ?_
    split
    · exact .ok _
    · split <;> exact .ok _
  | nextVersion => exact showNextVersion_configSafe hwriter settings
  | commitLog choice => exact listCommits_configSafe hwriter choice
  | commitNotes range output => exact writeRangeNote_configSafe hwriter settings range output
  | releaseNotes tag output => exact writeReleaseNote_configSafe hwriter settings tag output w.now
  | changelog choice output =>
    exact (changelogNotes_configSafe hwriter choice w.now).bind fun _ => .ok _
  | tag dryRun => exact makeTag_configSafe hwriter settings dryRun w.now
  | checkMessage directory file source =>
    exact checkMessage_configSafe hwriter w directory file source

end Cli

/-! ## Loaded configurations -/

variable {config : Config}

/-- A configuration that is loaded has passed its check. -/
theorem Config.validate_of_effectiveConfig {tree : FileTree} {user : UserDirectories}
    {directory : Path} {files : List Path}
    (h : effectiveConfig tree user directory = .ok (config, files)) : config.validate = .ok () := by
  obtain ⟨loaded, hloaded, h⟩ := bind_eq_ok.1 h
  cases h
  exact validate_of_ofLayers hloaded

/-- With a configuration that has passed its check no command fails because of it. -/
theorem Cli.configSafe_of_validate (h : config.validate = .ok ()) (w : Workspace)
    (settings : Settings) (repository : Repository) (command : ProjectCommand) :
    ConfigSafe (runInProject w settings { config, repository } command) := by
  obtain ⟨⟨writer, hwriter⟩, -⟩ := Config.validate_eq_ok.1 h
  have hproject : Project.writer { config, repository } = .ok writer := mapError_eq_ok.2 hwriter
  exact runInProject_configSafe hproject settings w command

/-- A command fails because of the configuration only if that cannot be loaded. -/
theorem Cli.effectiveConfig_of_runHere {w : Workspace} {settings : Settings} {command : Command}
    {f : Failure} {e : ConfigError} (h : runHere w settings command = .error f)
    (hf : f.cause = .config e) :
    effectiveConfig w.files w.user w.directory = .error e := by
  have hload : w.config = .error f → effectiveConfig w.files w.user w.directory = .error e := by
    intro hconfig
    obtain ⟨found, hfound, rfl⟩ := error_of_mapError hconfig
    cases hf
    exact hfound
  cases command with
  | showDefaults => cases h
  | showConfig =>
    rcases bind_eq_error.1 h with h | ⟨_, -, h⟩
    · exact hload h
    · cases h
  | project command =>
    rcases bind_eq_error.1 h with h | ⟨⟨config, files⟩, hconfig, h⟩
    · exact hload h
    rcases bind_eq_error.1 h with h | ⟨repository, -, h⟩
    · exact absurd hf (ConfigSafe.history _ f h e)
    · have hvalidate := Config.validate_of_effectiveConfig (mapError_eq_ok.1 hconfig)
      exact absurd hf (configSafe_of_validate hvalidate w settings repository command f h e)

/-- What release notes are written from can be made of a configuration that passes its check: the
header selector, the patterns of all footers and of all their synonyms, the pattern of lines with
the issue, the pattern of branch names and the outline. So no command fails because of the
configuration once it is loaded. -/
theorem Config.exists_writer_of_validate (h : config.validate = .ok ()) :
    ∃ writer, ReleaseWriter.ofConfig config = .ok writer ∧
      config.messages.selector?.mapM readSelector = .ok writer.convention.selector ∧
      config.messages.footers.entries.mapM (fun (name, style) => FooterReader.ofStyle name style) =
        .ok writer.convention.footers ∧
      (config.messages.footers.get? issueName).mapM IssueFooter.ofStyle =
        .ok writer.convention.issueFooter ∧
      readIssuePattern config.branches config.messages = .ok writer.convention.issuePattern ∧
      Outline.ofSections config.sections = .ok writer.outline ∧
      ∀ (w : Cli.Workspace) (settings : Cli.Settings) (repository : Repository)
        (command : Cli.ProjectCommand) (f : Failure),
        Cli.runInProject w settings { config, repository } command = .error f →
          ∀ e, f.cause ≠ .config e := by
  obtain ⟨⟨writer, hwriter⟩, -, hkeys, -⟩ := Config.validate_eq_ok.1 h
  obtain ⟨hselector, hfooters, hissueFooter, hissuePattern, houtline⟩ :=
    ReleaseWriter.ofConfig_spec hwriter
  -- no footer is left out, since each has a key
  have hall :
      config.messages.footers.entries.filter (·.2.key != "") = config.messages.footers.entries :=
    List.filter_eq_self.2 fun e he => bne_iff_ne.2 (hkeys e he)
  have hissue : config.messages.issueStyle? = config.messages.footers.get? issueName := by
    rw [MessageRules.issueStyle?]
    cases hfound : config.messages.footers.get? issueName with
    | none => rfl
    | some style => exact Option.filter_some_pos (bne_iff_ne.2 (hkeys _ (mem_of_lookup hfound)))
  rw [hall] at hfooters
  rw [hissue] at hissueFooter
  exact ⟨writer, hwriter, hselector, hfooters, hissueFooter, hissuePattern, houtline,
    fun w settings repository command => Cli.configSafe_of_validate h w settings repository command⟩

/-- A configuration with a header selector, and with footers whose keys would not be patterns as
they stand. -/
def metacharacters : Config where
  messages := {
    headerSelector := some "(?P<header>.*)"
    footers := .ofList [("issue", { key := "(", synonyms := ["[a-", "\\"] }),
      ("refs", { key := "a**", useHash := true })] }

/-- How many patterns there are for each footer. -/
def patternCounts (readers : List FooterReader) : List (String × Nat) :=
  readers.map fun reader => (reader.name, reader.patterns.length)

/-- It passes its check, and the patterns of all keys can be read all the same. -/
theorem exists_writer_metacharacters :
    metacharacters.validate = .ok () ∧
      ∃ writer, ReleaseWriter.ofConfig metacharacters = .ok writer ∧
        patternCounts writer.convention.footers = [("issue", 3), ("refs", 1)] := by
  have hvalidate : metacharacters.validate = .ok () := by decide +kernel
  obtain ⟨writer, hwriter, -, hfooters, -⟩ := Config.exists_writer_of_validate hvalidate
  have hcounts : (metacharacters.messages.footers.entries.mapM fun (name, style) =>
      FooterReader.ofStyle name style).toOption.map patternCounts =
        some [("issue", 3), ("refs", 1)] := by
    decide +kernel
  rw [hfooters] at hcounts
  exact ⟨hvalidate, writer, hwriter, Option.some.inj hcounts⟩

end ConventionalRelease
