import ConventionalRelease.Commit.Convention
import ConventionalRelease.Config.Layers
import ConventionalRelease.Document.Json
import ConventionalRelease.History.Checkout
import ConventionalRelease.History.Journal
import ConventionalRelease.History.Range
import ConventionalRelease.History.Tags
import ConventionalRelease.Release.Bump
import ConventionalRelease.Release.Markdown
import ConventionalRelease.Release.Plan
import ConventionalRelease.Version.Tag
import ConventionalRelease.Yaml.Printer
import ConventionalRelease.Cli.Description
import ConventionalRelease.Cli.Run
import ConventionalRelease.Main
import ConventionalRelease.Proofs.Attempt
import ConventionalRelease.Proofs.Version.Text
import ConventionalRelease.Proofs.Version.TagName
import ConventionalRelease.Proofs.Version.Placeholders
import ConventionalRelease.Proofs.Version.Precedence
import ConventionalRelease.Proofs.Version.Grammar
import ConventionalRelease.Proofs.History.Revision
import ConventionalRelease.Proofs.History.Stretches
import ConventionalRelease.Proofs.History.TagOrder
import ConventionalRelease.Proofs.History.Gaps
import ConventionalRelease.Proofs.Commit.Convention
import ConventionalRelease.Proofs.Commit.Header
import ConventionalRelease.Proofs.Commit.ReadBack
import ConventionalRelease.Proofs.Commit.RoundTrip
import ConventionalRelease.Proofs.Commit.HeaderPattern
import ConventionalRelease.Proofs.Commit.LineScan
import ConventionalRelease.Proofs.Commit.WrittenAgain
import ConventionalRelease.Proofs.Commit.BranchIssue
import ConventionalRelease.Proofs.Document.Merge
import ConventionalRelease.Proofs.Release.Outline
import ConventionalRelease.Proofs.Release.Note
import ConventionalRelease.Proofs.Release.Levels
import ConventionalRelease.Proofs.Release.Numbers
import ConventionalRelease.Proofs.Release.Bump
import ConventionalRelease.Proofs.Release.Plan
import ConventionalRelease.Proofs.Release.GreatestTag
import ConventionalRelease.Proofs.Release.Course
import ConventionalRelease.Proofs.Release.Decision
import ConventionalRelease.Proofs.Release.Breaking
import ConventionalRelease.Proofs.Calendar.Order
import ConventionalRelease.Proofs.Calendar.Text
import ConventionalRelease.Proofs.History.DateRange
import ConventionalRelease.Proofs.Release.Changelog
import ConventionalRelease.Proofs.Release.TagNotes
import ConventionalRelease.Proofs.Release.VersionsOnly
import ConventionalRelease.Proofs.Release.Cycle
import ConventionalRelease.Proofs.Document.DistinctKeys
import ConventionalRelease.Proofs.Yaml.DistinctKeys
import ConventionalRelease.Proofs.Toml.DistinctKeys
import ConventionalRelease.Proofs.Config.Document
import ConventionalRelease.Proofs.Config.Validation
import ConventionalRelease.Proofs.Config.Sections
import ConventionalRelease.Proofs.Yaml.RoundTrip
import ConventionalRelease.Proofs.Config.Layers
import ConventionalRelease.Proofs.Config.RepeatedLayer
import ConventionalRelease.Proofs.Cli.CheckMessage
import ConventionalRelease.Proofs.Cli.Failures
import ConventionalRelease.Proofs.Config.Search
import ConventionalRelease.Proofs.Commit.OneLine
import ConventionalRelease.Proofs.Release.Markdown
