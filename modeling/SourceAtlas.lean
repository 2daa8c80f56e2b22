import SourceAtlas.Build
import SourceAtlas.Calendar
import SourceAtlas.ChangeFilter
import SourceAtlas.Config.Basic
import SourceAtlas.Config.Encode
import SourceAtlas.Config.Load
import SourceAtlas.Config.Read
import SourceAtlas.Decimal.Binary64
import SourceAtlas.Decimal.Shortest
import SourceAtlas.Dict
import SourceAtlas.Digest.Sha256
import SourceAtlas.Discovery
import SourceAtlas.Disk
import SourceAtlas.Extract
import SourceAtlas.Extract.Apex
import SourceAtlas.Extract.Apex.InPlace
import SourceAtlas.Extract.Apex.Mask
import SourceAtlas.Extract.CSharp
import SourceAtlas.Extract.Go
import SourceAtlas.Extract.Java
import SourceAtlas.Extract.Progress
import SourceAtlas.Extract.Python
import SourceAtlas.Extract.TypeScript
import SourceAtlas.Extraction
import SourceAtlas.Glob.Basic
import SourceAtlas.Glob.Read
import SourceAtlas.Ignore
import SourceAtlas.Index.Basic
import SourceAtlas.Instant
import SourceAtlas.Json.Basic
import SourceAtlas.Json.Print
import SourceAtlas.Json.Read
import SourceAtlas.Json.Record
import SourceAtlas.Language
import SourceAtlas.Manifest.Inventory
import SourceAtlas.Manifest.Lines
import SourceAtlas.Manifest.Requirement
import SourceAtlas.Manifest.Structured
import SourceAtlas.Merge
import SourceAtlas.Model.Decode
import SourceAtlas.Model.Document
import SourceAtlas.Model.Encode
import SourceAtlas.Model.Entity
import SourceAtlas.Model.File
import SourceAtlas.Model.Project
import SourceAtlas.Modules.Go
import SourceAtlas.Modules.Java
import SourceAtlas.Modules.Python
import SourceAtlas.Modules.Script
import SourceAtlas.Outcome
import SourceAtlas.Proofs.Buffer
import SourceAtlas.Proofs.Build.Accounting
import SourceAtlas.Proofs.Build.CallIntegrity
import SourceAtlas.Proofs.Build.DiskAgreement
import SourceAtlas.Proofs.Build.ImportLists
import SourceAtlas.Proofs.Build.Incremental
import SourceAtlas.Proofs.Build.LanguageIsolation
import SourceAtlas.Proofs.Build.OnDisk
import SourceAtlas.Proofs.Build.PartialImports
import SourceAtlas.Proofs.Build.Pathwise
import SourceAtlas.Proofs.Build.Rerun
import SourceAtlas.Proofs.Build.RoundTrip
import SourceAtlas.Proofs.Build.SourceOrder
import SourceAtlas.Proofs.Build.Stages
import SourceAtlas.Proofs.Build.View
import SourceAtlas.Proofs.ByteOrder
import SourceAtlas.Proofs.ChangeFilter
import SourceAtlas.Proofs.Dict
import SourceAtlas.Proofs.Extract.Apex.Accessors
import SourceAtlas.Proofs.Extract.Apex.Cells
import SourceAtlas.Proofs.Extract.Apex.Headers
import SourceAtlas.Proofs.Extract.Apex.Keywords
import SourceAtlas.Proofs.Extract.Apex.Layout
import SourceAtlas.Proofs.Extract.Apex.LineBreaks
import SourceAtlas.Proofs.Extract.Apex.Marks
import SourceAtlas.Proofs.Extract.Apex.Patterns
import SourceAtlas.Proofs.Extract.Apex.Scan
import SourceAtlas.Proofs.Extract.Imports
import SourceAtlas.Proofs.Extract.Members
import SourceAtlas.Proofs.Extract.Plain
import SourceAtlas.Proofs.Extract.QualifiedNames
import SourceAtlas.Proofs.Index.Contents
import SourceAtlas.Proofs.Index.History
import SourceAtlas.Proofs.Index.Registered
import SourceAtlas.Proofs.Index.View
import SourceAtlas.Proofs.Instant
import SourceAtlas.Proofs.Json.RoundTrip
import SourceAtlas.Proofs.Json.Values
import SourceAtlas.Proofs.Language
import SourceAtlas.Proofs.Merge
import SourceAtlas.Proofs.Model.Documents
import SourceAtlas.Proofs.Model.ReadDocuments
import SourceAtlas.Proofs.Model.Records
import SourceAtlas.Proofs.RepoPath
import SourceAtlas.Proofs.Resolve.BareCall
import SourceAtlas.Proofs.Resolve.CallTargets
import SourceAtlas.Proofs.Resolve.Hierarchy
import SourceAtlas.Proofs.Resolve.ImportOrder
import SourceAtlas.Proofs.Resolve.ImportRecords
import SourceAtlas.Proofs.Resolve.ImportTargets
import SourceAtlas.Proofs.Resolve.InheritedMethods
import SourceAtlas.Proofs.Resolve.View
import SourceAtlas.Proofs.Text.Digits
import SourceAtlas.Proofs.Traversal
import SourceAtlas.Proofs.WorkPool
import SourceAtlas.RepoPath
import SourceAtlas.Repository
import SourceAtlas.Resolve.Call
import SourceAtlas.Resolve.ClassLookup
import SourceAtlas.Resolve.Import
import SourceAtlas.Text.Basic
import SourceAtlas.Text.Buffer
import SourceAtlas.Text.CharClass
import SourceAtlas.Text.Chars
import SourceAtlas.Text.Digits
import SourceAtlas.Text.Table.Case
import SourceAtlas.Text.Table.Letter
import SourceAtlas.Text.Table.Lowercase
import SourceAtlas.Text.Table.Number
import SourceAtlas.Text.Utf8
import SourceAtlas.Toml.Basic
import SourceAtlas.Toml.Draft
import SourceAtlas.Toml.Read
import SourceAtlas.Toml.Scalar
import SourceAtlas.Total
import SourceAtlas.Tree.Basic
import SourceAtlas.Tree.Cursor
import SourceAtlas.Tree.Source
import SourceAtlas.TypeName
import SourceAtlas.WorkPool
import SourceAtlas.Xml.Event
import SourceAtlas.Proofs.Resolve.PartialClasses
import SourceAtlas.Proofs.Resolve.LetterCase
import SourceAtlas.Proofs.RepoPath.Segments
import SourceAtlas.Proofs.Resolve.PythonModules
import SourceAtlas.Proofs.Repository
import SourceAtlas.Proofs.Resolve.ScriptSpecifiers
import SourceAtlas.Proofs.Resolve.GoPackages
import SourceAtlas.Proofs.Build.SizeLimit
import SourceAtlas.Proofs.Tree.Places
import SourceAtlas.Proofs.Tree.Walk
import SourceAtlas.Proofs.Extract.Exports
import SourceAtlas.Proofs.Json.Tokens
import SourceAtlas.Proofs.Json.Grammar
import SourceAtlas.Proofs.Modules.RelaxedText
import SourceAtlas.Proofs.Modules.JavaPackages
import SourceAtlas.Proofs.TypeName
import SourceAtlas.Proofs.Extract.Apex.AccessorBlocks
import SourceAtlas.Proofs.Xml.Content
import SourceAtlas.Proofs.Manifest.ElementTrees
import SourceAtlas.Proofs.Xml.Written
import SourceAtlas.Proofs.RepoPath.Joining
import SourceAtlas.Proofs.Build.Totals
import SourceAtlas.Proofs.Manifest.Independence
