import FourCE.Python.Str
import FourCE.Python.Json
import FourCE.Python.JsonRoundTrip
import FourCE.Python.Dict
import FourCE.Library.HashChain
import FourCE.Library.Regex
import FourCE.Python.Unicode
import FourCE.Python.Re
import FourCE.Python.Float
import FourCE.Library.RegexLocality
import FourCE.Sop.RulePack
import FourCE.Library.RegexScan
import FourCE.Python.Text
import FourCE.Python.ReLocality
import FourCE.Sop.Assess
import FourCE.Sop.Worst
import FourCE.Sop.Denial
import FourCE.Audit.Trail
import FourCE.Audit.Lines
import FourCE.Audit.Interpreter
import FourCE.Audit.Checks
import FourCE.Audit.Runs
import FourCE.Audit.Tamper
import FourCE.Orchestrator.Checks
import FourCE.Orchestrator.Draft
import FourCE.Orchestrator.Record
import FourCE.Tools.Sandbox
import FourCE.Tools.Sheets
import FourCE.Orchestrator.World
import FourCE.Orchestrator.Gather
import FourCE.Orchestrator.Attempt
import FourCE.Orchestrator.Release
import FourCE.Python.Object
import FourCE.Sop.Engine
import FourCE.Sop.DefaultPack
import FourCE.Sop.Report
import FourCE.Sop.Disposition
import FourCE.Python.Tables
import FourCE.Library.RegexCongr
import FourCE.Python.ReAscii
import FourCE.Sop.Table
import FourCE.Library.FileTree
import FourCE.Python.Glob
import FourCE.Tools.Files
import FourCE.Tools.FileSteps
import FourCE.Python.Date
import FourCE.Calibration.Values
import FourCE.Calibration.Assess
import FourCE.Calibration.Register
import FourCE.Calibration.Check
import FourCE.Calibration.Rows
import FourCE.Tools.FileHistory
import FourCE.Tools.Formula
import FourCE.Tools.SheetCopy
import FourCE.Library.RegexRuns
import FourCE.Tools.UnsafeCells
import FourCE.Tools.References
import FourCE.Tools.CopySteps
import FourCE.Tools.CopySafety
import FourCE.Tools.Exact
import FourCE.Audit.Records
import FourCE.Audit.Steps
import FourCE.Audit.Stumbles
import FourCE.Python.JsonPrefix
import FourCE.Audit.Torn
import FourCE.Audit.Writers
import FourCE.Calibration.Independence
import FourCE.Egress.Evidence
import FourCE.Egress.Events
import FourCE.Sovereignty.FailsClosed
import FourCE.Tools.Collect
import FourCE.Orchestrator.SmallTalk
import FourCE.Library.RegexFirst
import FourCE.Sidebar.Outcome
import FourCE.Sidebar.Receipt
import FourCE.Sidebar.Stored
import FourCE.Sidebar.Faithful
import FourCE.Workbook.Blocks
import FourCE.Workbook.Build
import FourCE.Workbook.Formulas
import FourCE.Library.Interleave
import FourCE.Library.Fields
import FourCE.Socket.RedisDict
import FourCE.Socket.Signature
import FourCE.Library.Compaction
import FourCE.Socket.Ydoc
import FourCE.Socket.Edits
import FourCE.Timers.Schedule
import FourCE.Timers.Task
import FourCE.Timers.Once
import FourCE.Library.Keyed
import FourCE.Library.Acyclic
import FourCE.Chats.History
import FourCE.Chats.Tree
import FourCE.Chats.Runs
import FourCE.Socket.EventCall
import FourCE.Context.Compaction
import FourCE.Context.Covered
import FourCE.Library.Ledger
import FourCE.Orchestrator.Statuses
import FourCE.Sidebar.Summary
import FourCE.Knowledge.Tables
import FourCE.Knowledge.Access
import FourCE.Knowledge.Process
import FourCE.Knowledge.Directories
import FourCE.Knowledge.Inside
import FourCE.Knowledge.Deletion
import FourCE.Knowledge.Confined
import FourCE.Knowledge.Laundering
import FourCE.Chats.ToolApproval
import FourCE.Chats.Decisions
import FourCE.Python.FloatOrder
import FourCE.Calculations.Readings
import FourCE.Calculations.Life
import FourCE.Calculations.Report
import FourCE.Calculations.Interval
import FourCE.Calculations.Verdicts
import FourCE.Library.RegexBarrier
import FourCE.Python.ReLines
import FourCE.Sop.Interval
import FourCE.Python.Number
import FourCE.Orchestrator.Routing
import FourCE.Orchestrator.Routed
import FourCE.Orchestrator.Capitals
import FourCE.Library.RegexCuts
import FourCE.Python.ReCuts
import FourCE.Orchestrator.Fences
import FourCE.Orchestrator.TidyLines
import FourCE.Orchestrator.BlankLines
import FourCE.Orchestrator.TidyBlocks
import FourCE.Library.RegexAround
import FourCE.Orchestrator.TidyWords
import FourCE.Orchestrator.Artifacts
import FourCE.Orchestrator.FigureChecks
import FourCE.Orchestrator.Brackets
import FourCE.Calibration.Doubt
import FourCE.Calibration.Ages
import FourCE.Python.ReClasses
import FourCE.Orchestrator.Execution
import FourCE.Orchestrator.Revision
import FourCE.Orchestrator.Revised
import FourCE.Library.RegexTemplate
import FourCE.Calibration.Spacing
import FourCE.Calibration.Dates
import FourCE.Library.RegexSpellings
import FourCE.Library.RegexGroups
import FourCE.Calibration.Quantities
import FourCE.Calibration.Units
import FourCE.Chats.Healing
import FourCE.Library.Progression
import FourCE.Automations.Recurrence
import FourCE.Templates.Truncation
import FourCE.Templates.Variables
import FourCE.Overview.Layout
import FourCE.Overview.Termination
import FourCE.Library.Segments
import FourCE.Streams.Chunks
import FourCE.Python.Shlex
import FourCE.Knowledge.Pipeline
import FourCE.Python.JsonStrings
import FourCE.Storage.Sanitize
import FourCE.Usage.Merge
import FourCE.Usage.Additive
import FourCE.Access.Migration
import FourCE.Chats.Fork
import FourCE.Library.Nested
import FourCE.Access.Permissions
import FourCE.Egress.Descendants
import FourCE.Workbook.Columns
import FourCE.Library.Walk
import FourCE.Folders.Table
import FourCE.Folders.Healing
import FourCE.Folders.Shared
import FourCE.Folders.Requests
import FourCE.Folders.Reach
import FourCE.Limits.RateLimit
