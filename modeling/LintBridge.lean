import LintBridge.Archive.Checksum
import LintBridge.Archive.CodePage
import LintBridge.Archive.Directory
import LintBridge.Archive.Inflate
import LintBridge.CommandLine.Arguments
import LintBridge.CommandLine.Live
import LintBridge.CommandLine.Run
import LintBridge.CommandLine.World
import LintBridge.Config.Defaults
import LintBridge.Config.Environment
import LintBridge.Config.Project
import LintBridge.Config.Settings
import LintBridge.Config.Stored
import LintBridge.Diagnostic.Basic
import LintBridge.Diagnostic.Report
import LintBridge.Engine.Client
import LintBridge.Engine.Command
import LintBridge.Engine.Error
import LintBridge.Engine.Linter
import LintBridge.Engine.Mode
import LintBridge.Engine.Output
import LintBridge.Engine.Platform
import LintBridge.Engine.Process
import LintBridge.Files.Basic
import LintBridge.Files.Replace
import LintBridge.Http.Client
import LintBridge.Install.Download
import LintBridge.Install.Installer
import LintBridge.Install.Release
import LintBridge.Install.Unpack
import LintBridge.Json.Basic
import LintBridge.Json.Binary64
import LintBridge.Json.Document
import LintBridge.Json.Reader
import LintBridge.Json.Record
import LintBridge.Json.Writer
import LintBridge.Main
import LintBridge.Memo
import LintBridge.Path
import LintBridge.Progress.Spinner
import LintBridge.Progress.Status
import LintBridge.Progress.Tracker
import LintBridge.Proofs.Config.Expansion
import LintBridge.Proofs.Config.ReadBack
import LintBridge.Proofs.Config.Sections
import LintBridge.Proofs.Diagnostic.Grouping
import LintBridge.Proofs.Diagnostic.Merging
import LintBridge.Proofs.Diagnostic.Shapes
import LintBridge.Proofs.Diagnostic.Spans
import LintBridge.Proofs.Diagnostic.Telling
import LintBridge.Proofs.Diagnostic.Weighing
import LintBridge.Proofs.Engine.Calls
import LintBridge.Proofs.Engine.Catalog
import LintBridge.Proofs.Engine.Document
import LintBridge.Proofs.Engine.Listing
import LintBridge.Proofs.Engine.Output
import LintBridge.Proofs.Engine.Places
import LintBridge.Proofs.Engine.Relative
import LintBridge.Proofs.Engine.Roots
import LintBridge.Proofs.Files.Following
import LintBridge.Proofs.Files.Making
import LintBridge.Proofs.Files.Replacing
import LintBridge.Proofs.Files.Writing
import LintBridge.Proofs.Install.Confined
import LintBridge.Proofs.Install.Installed
import LintBridge.Proofs.Install.Overlap
import LintBridge.Proofs.Install.Redirects
import LintBridge.Proofs.Install.Steps
import LintBridge.Proofs.Install.Unpacked
import LintBridge.Proofs.Json.Around
import LintBridge.Proofs.Json.Fields
import LintBridge.Proofs.Json.Members
import LintBridge.Proofs.Json.Parts
import LintBridge.Proofs.Json.ReadBack
import LintBridge.Proofs.Json.Sought
import LintBridge.Proofs.Json.Tokens
import LintBridge.Proofs.Json.Written
import LintBridge.Proofs.Memo.Attempts
import LintBridge.Proofs.Memo.Gathering
import LintBridge.Proofs.Path.Display
import LintBridge.Proofs.Path.Segments
import LintBridge.Proofs.Progress.Guards
import LintBridge.Proofs.Progress.Spinning
import LintBridge.Proofs.Progress.Statuses
import LintBridge.Proofs.Progress.Visibility
import LintBridge.Proofs.Rpc.Framing
import LintBridge.Proofs.Rpc.Intake
import LintBridge.Proofs.Rpc.Layout
import LintBridge.Proofs.Rpc.Policy
import LintBridge.Proofs.Rpc.Reading
import LintBridge.Proofs.Rpc.Requests
import LintBridge.Proofs.Server.Answers
import LintBridge.Proofs.Server.Asking
import LintBridge.Proofs.Server.Bootstrap
import LintBridge.Proofs.Server.Configuration
import LintBridge.Proofs.Server.Course
import LintBridge.Proofs.Server.Exchange
import LintBridge.Proofs.Server.Frame
import LintBridge.Proofs.Server.Inquiry
import LintBridge.Proofs.Server.Phases
import LintBridge.Proofs.Server.Quiet
import LintBridge.Proofs.Server.Reconfigure
import LintBridge.Proofs.Server.Shutdown
import LintBridge.Proofs.Server.Stage
import LintBridge.Proofs.Server.Turns
import LintBridge.Proofs.Text.Lines
import LintBridge.Proofs.Text.Lossy
import LintBridge.Proofs.Text.Written
import LintBridge.Proofs.Url.Below
import LintBridge.Proofs.Url.Encoded
import LintBridge.Proofs.Url.FileUrl
import LintBridge.Proofs.Url.Reading
import LintBridge.Proofs.Workspace.Allowed
import LintBridge.Proofs.Workspace.Alone
import LintBridge.Proofs.Workspace.Analysis
import LintBridge.Proofs.Workspace.Calls
import LintBridge.Proofs.Workspace.Course
import LintBridge.Proofs.Workspace.Drafts
import LintBridge.Proofs.Workspace.Edits
import LintBridge.Proofs.Workspace.Latest
import LintBridge.Proofs.Workspace.Loading
import LintBridge.Proofs.Workspace.Origin
import LintBridge.Proofs.Workspace.Places
import LintBridge.Proofs.Workspace.Recording
import LintBridge.Proofs.Workspace.Records
import LintBridge.Proofs.Workspace.Renewal
import LintBridge.Proofs.Workspace.Runs
import LintBridge.Proofs.Workspace.Session
import LintBridge.Proofs.Workspace.Sound
import LintBridge.Proofs.Workspace.Spent
import LintBridge.Proofs.Workspace.Stake
import LintBridge.Proofs.Workspace.Tidy
import LintBridge.Proofs.Workspace.Upkeep
import LintBridge.Rehearsal.Memo
import LintBridge.Rehearsal.Progress
import LintBridge.Rehearsal.Server
import LintBridge.Rehearsal.Stage
import LintBridge.Rehearsal.Workspace
import LintBridge.Rpc.Frame
import LintBridge.Rpc.Message
import LintBridge.Rpc.Outbound
import LintBridge.Server.Basic
import LintBridge.Server.Handle
import LintBridge.Shell.Machine
import LintBridge.Shell.Run
import LintBridge.Shell.Script
import LintBridge.Shell.Tools
import LintBridge.Text.Ascii
import LintBridge.Text.Blank
import LintBridge.Text.Hidden
import LintBridge.Text.Quoted
import LintBridge.Text.Utf8
import LintBridge.Toml.Basic
import LintBridge.Toml.Reader
import LintBridge.Toml.Scalar
import LintBridge.Trigger
import LintBridge.Url.Basic
import LintBridge.Url.Domain
import LintBridge.Url.File
import LintBridge.Url.Host
import LintBridge.Url.Parser
import LintBridge.Url.Percent
import LintBridge.Url.Punycode
import LintBridge.Workspace.Basic
import LintBridge.Workspace.Site
import LintBridge.Workspace.Step
import LintBridge.Workspace.Task
