import SolutionPlan.Build
import SolutionPlan.BuildError
import SolutionPlan.CommandLine
import SolutionPlan.Configuration.Basic
import SolutionPlan.Configuration.Inheritance
import SolutionPlan.Configuration.Profile
import SolutionPlan.Description.Load
import SolutionPlan.Description.Node
import SolutionPlan.Description.Projects
import SolutionPlan.Description.Settings
import SolutionPlan.Description.Solutions
import SolutionPlan.Description.Targets
import SolutionPlan.Diagnostics
import SolutionPlan.FileSystem.Basic
import SolutionPlan.FileSystem.Disk
import SolutionPlan.FileSystem.Store
import SolutionPlan.Glob.Match
import SolutionPlan.Glob.Pattern
import SolutionPlan.Guid
import SolutionPlan.Main
import SolutionPlan.Parameters
import SolutionPlan.Path
import SolutionPlan.Problem
import SolutionPlan.Proofs.Build
import SolutionPlan.Proofs.CommandLine
import SolutionPlan.Proofs.Configuration.Coverage
import SolutionPlan.Proofs.Configuration.Inheritance
import SolutionPlan.Proofs.Configuration.LastWrite
import SolutionPlan.Proofs.Configuration.Levels
import SolutionPlan.Proofs.Configuration.Merging
import SolutionPlan.Proofs.Configuration.SharedOnce
import SolutionPlan.Proofs.Configuration.Views
import SolutionPlan.Proofs.Configuration.Walk
import SolutionPlan.Proofs.Configuration.Writing
import SolutionPlan.Proofs.Description.Alike
import SolutionPlan.Proofs.Description.Anchored
import SolutionPlan.Proofs.Description.CanonicalPaths
import SolutionPlan.Proofs.Description.Contents
import SolutionPlan.Proofs.Description.Coverage
import SolutionPlan.Proofs.Description.ExternalProjects
import SolutionPlan.Proofs.Description.Filters
import SolutionPlan.Proofs.Description.Flattening
import SolutionPlan.Proofs.Description.FlawCost
import SolutionPlan.Proofs.Description.FlawTurns
import SolutionPlan.Proofs.Description.FlawedDescription
import SolutionPlan.Proofs.Description.Flaws
import SolutionPlan.Proofs.Description.Folders
import SolutionPlan.Proofs.Description.ImportProblems
import SolutionPlan.Proofs.Description.ImportRun
import SolutionPlan.Proofs.Description.ImportSites
import SolutionPlan.Proofs.Description.ImportStack
import SolutionPlan.Proofs.Description.ImportedRules
import SolutionPlan.Proofs.Description.Imports
import SolutionPlan.Proofs.Description.Layers
import SolutionPlan.Proofs.Description.Located
import SolutionPlan.Proofs.Description.Macros
import SolutionPlan.Proofs.Description.Outline
import SolutionPlan.Proofs.Description.Outputs
import SolutionPlan.Proofs.Description.Projects
import SolutionPlan.Proofs.Description.Relocation
import SolutionPlan.Proofs.Description.SectionOrder
import SolutionPlan.Proofs.Description.SectionTurns
import SolutionPlan.Proofs.Description.Sections
import SolutionPlan.Proofs.Description.Settings
import SolutionPlan.Proofs.Description.SolutionRules
import SolutionPlan.Proofs.Description.Solutions
import SolutionPlan.Proofs.Description.Trees
import SolutionPlan.Proofs.Description.Turns
import SolutionPlan.Proofs.Description.Unplaced
import SolutionPlan.Proofs.Diagnostics
import SolutionPlan.Proofs.FileSystem.Listing
import SolutionPlan.Proofs.FileSystem.Lookup
import SolutionPlan.Proofs.FileSystem.Store
import SolutionPlan.Proofs.Glob.Alignment
import SolutionPlan.Proofs.Glob.Literal
import SolutionPlan.Proofs.Glob.Wildcards
import SolutionPlan.Proofs.Parameters.Binding
import SolutionPlan.Proofs.Parameters.Expansion
import SolutionPlan.Proofs.Path.Algebra
import SolutionPlan.Proofs.Path.Canonical
import SolutionPlan.Proofs.Path.Components
import SolutionPlan.Proofs.Path.Joining
import SolutionPlan.Proofs.Path.Mirror
import SolutionPlan.Proofs.Path.Normal
import SolutionPlan.Proofs.Path.Relative
import SolutionPlan.Proofs.Path.Slash
import SolutionPlan.Proofs.Report.Completeness
import SolutionPlan.Proofs.Report.Unfolding
import SolutionPlan.Proofs.Resolution.Classification
import SolutionPlan.Proofs.Resolution.Climbing
import SolutionPlan.Proofs.Resolution.Coverage
import SolutionPlan.Proofs.Resolution.Directories
import SolutionPlan.Proofs.Resolution.Firsts
import SolutionPlan.Proofs.Resolution.Frame
import SolutionPlan.Proofs.Resolution.Generation
import SolutionPlan.Proofs.Resolution.Isolation
import SolutionPlan.Proofs.Resolution.Located
import SolutionPlan.Proofs.Resolution.Nesting
import SolutionPlan.Proofs.Resolution.NewFilters
import SolutionPlan.Proofs.Resolution.Overrides
import SolutionPlan.Proofs.Resolution.Placement
import SolutionPlan.Proofs.Resolution.References
import SolutionPlan.Proofs.Resolution.Templates
import SolutionPlan.Proofs.Resolution.Voices
import SolutionPlan.Proofs.Setting.Gathering
import SolutionPlan.Proofs.Setting.Lists
import SolutionPlan.Proofs.Setting.Reading
import SolutionPlan.Proofs.Solution.Arena
import SolutionPlan.Proofs.Solution.Places
import SolutionPlan.Proofs.Solution.Sources
import SolutionPlan.Proofs.Solution.SubFilters
import SolutionPlan.Proofs.Text.Pieces
import SolutionPlan.Proofs.Text.Tokens
import SolutionPlan.Report
import SolutionPlan.Resolution.Basic
import SolutionPlan.Resolution.Classification
import SolutionPlan.Resolution.Directories
import SolutionPlan.Resolution.Generation
import SolutionPlan.Resolution.Overrides
import SolutionPlan.Resolution.References
import SolutionPlan.Setting.Registry
import SolutionPlan.Setting.Value
import SolutionPlan.Solution.Basic
import SolutionPlan.Solution.Kind
import SolutionPlan.Solution.Project
import SolutionPlan.Solution.Target
import SolutionPlan.Table
import SolutionPlan.Text.Basic
import SolutionPlan.Text.Blank
import SolutionPlan.Text.CaseTable
import SolutionPlan.Text.Digits
import SolutionPlan.Text.Lowercase
import SolutionPlan.Xml.Character
import SolutionPlan.Xml.Document
import SolutionPlan.Xml.Element
import SolutionPlan.Xml.Markup
import SolutionPlan.Xml.Reference
