import RecordMap.Text.Encoding
import RecordMap.Text.Pattern
import RecordMap.Text.Quoted
import RecordMap.Syntax.Rows
import RecordMap.Model.Inheritance
import RecordMap.Model.TableName
import RecordMap.Model.Resolution
import RecordMap.Model.Relationship
import RecordMap.Schema.Dump.Tables
import RecordMap.Files.Discovery
import RecordMap.Settings
import RecordMap.Schema.Memo
import RecordMap.Model.Incomplete
import RecordMap.Project.Scan
import RecordMap.Schema.ColumnType
import RecordMap.Schema.Image.Catalog
import RecordMap.Schema.Creation
import RecordMap.Proofs.Files.Tree
import RecordMap.Proofs.Schema.MemoRuns
import RecordMap.Proofs.Schema.MemoSources
import RecordMap.Proofs.Syntax.Below
import RecordMap.Proofs.Model.Ownership
import RecordMap.Proofs.Model.Columns
import RecordMap.Proofs.Model.Edges
import RecordMap.Proofs.Model.TargetTable
import RecordMap.Proofs.Dump.Written
import RecordMap.Proofs.Text.Search
import RecordMap.Proofs.Text.Words
import RecordMap.Proofs.Dump.Layout
import RecordMap.Proofs.Dump.Comments
import RecordMap.Proofs.Dump.Literals
import RecordMap.Proofs.Dump.Bodies
import RecordMap.Proofs.Dump.Headers
import RecordMap.Proofs.Dump.Openings
import RecordMap.Proofs.Outline.Basic
import RecordMap.Proofs.Outline.Lines
import RecordMap.Proofs.Outline.Search
import RecordMap.Proofs.Outline.Tables
import RecordMap.Proofs.Outline.Scripts
import RecordMap.Proofs.Outline.Tokens
import RecordMap.Proofs.Dump.Options
import RecordMap.Proofs.Dump.Columns
import RecordMap.Proofs.Dump.RoundTrip
import RecordMap.Proofs.Noted.Written
import RecordMap.Proofs.Noted.Outline
import RecordMap.Proofs.Noted.Contents
import RecordMap.Proofs.Noted.Columns
import RecordMap.Proofs.Noted.Tables
import RecordMap.Proofs.Files.Discovery
import RecordMap.Proofs.Files.Growth
import RecordMap.Proofs.Schema.Sources
import RecordMap.Proofs.Project.Independence
import RecordMap.Proofs.Schema.Selection
import RecordMap.Proofs.Outline.Unclosed
import RecordMap.Proofs.Dump.Unterminated
import RecordMap.Proofs.Text.Occurrences
import RecordMap.Proofs.Source.Keywords
import RecordMap.Proofs.Source.Block
import RecordMap.Proofs.Source.Blanking
import RecordMap.Proofs.Syntax.Calls
import RecordMap.Proofs.Model.Resolution
import RecordMap.Proofs.Model.TableName
import RecordMap.Proofs.Syntax.Walk
import RecordMap.Proofs.Syntax.Names
import RecordMap.Proofs.Model.Namespaces
import RecordMap.Proofs.Model.Options
import RecordMap.Proofs.Model.AbsoluteNames
import RecordMap.Proofs.Naming.PlainWords
import RecordMap.Proofs.Model.DefaultTarget
import RecordMap.Proofs.Text.Replacement
import RecordMap.Proofs.Source.Alignment
import RecordMap.Proofs.Model.Detection
import RecordMap.Proofs.Keyed.Written
import RecordMap.Proofs.Keyed.Tables
import RecordMap.Proofs.Files.Listing
import RecordMap.Proofs.Text.Newlines
import RecordMap.Proofs.Project.Reading
