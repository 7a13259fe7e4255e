import Protoscribe.CommandLine
import Protoscribe.Descriptor
import Protoscribe.Enumeration
import Protoscribe.Failure
import Protoscribe.Field.Routine
import Protoscribe.Field.Slot
import Protoscribe.Field.Typing
import Protoscribe.Main
import Protoscribe.Message.Access
import Protoscribe.Message.Codec
import Protoscribe.Message.Emission
import Protoscribe.Message.Instance
import Protoscribe.Message.Plain
import Protoscribe.Message.Plan
import Protoscribe.Message.Record
import Protoscribe.ModulePath
import Protoscribe.Proofs.Checked
import Protoscribe.Proofs.Evaluation.Expr
import Protoscribe.Proofs.Evaluation.Program
import Protoscribe.Proofs.Evaluation.Reader
import Protoscribe.Proofs.Evaluation.Runtime
import Protoscribe.Proofs.Evaluation.Steps
import Protoscribe.Proofs.Evaluation.Store
import Protoscribe.Proofs.Evaluation.Value
import Protoscribe.Proofs.Evaluation.Writer
import Protoscribe.Proofs.FileOrder
import Protoscribe.Proofs.Linking
import Protoscribe.Proofs.LocalReference
import Protoscribe.Proofs.Message.Absent
import Protoscribe.Proofs.Message.Accessors
import Protoscribe.Proofs.Message.Admission
import Protoscribe.Proofs.Message.Agreement
import Protoscribe.Proofs.Message.ClassMembers
import Protoscribe.Proofs.Message.Classes
import Protoscribe.Proofs.Message.Complete
import Protoscribe.Proofs.Message.Construction
import Protoscribe.Proofs.Message.Contents
import Protoscribe.Proofs.Message.Exclusive
import Protoscribe.Proofs.Message.FromPlain
import Protoscribe.Proofs.Message.Instances
import Protoscribe.Proofs.Message.Lookup
import Protoscribe.Proofs.Message.PlainRoundTrip
import Protoscribe.Proofs.Message.Properties
import Protoscribe.Proofs.Message.Reading
import Protoscribe.Proofs.Message.Restoring
import Protoscribe.Proofs.Message.RoundTrip
import Protoscribe.Proofs.Message.Supported
import Protoscribe.Proofs.Message.ToPlain
import Protoscribe.Proofs.Message.Writing
import Protoscribe.Proofs.ModulePath
import Protoscribe.Proofs.Registry.Declarations
import Protoscribe.Proofs.Registry.Emitted
import Protoscribe.Proofs.Scope
import Protoscribe.Proofs.Text.Lines
import Protoscribe.Proofs.Text.Segments
import Protoscribe.Proofs.Text.StringLiteral
import Protoscribe.Proofs.TypeScript.Grammar
import Protoscribe.Proofs.TypeScript.Grouping
import Protoscribe.Proofs.TypeScript.Layout
import Protoscribe.Proofs.TypeScript.Precedence
import Protoscribe.Proofs.TypeScript.Relocation
import Protoscribe.Proofs.TypeScript.Token
import Protoscribe.Proofs.Unsupported
import Protoscribe.Registry
import Protoscribe.Request
import Protoscribe.Scope
import Protoscribe.Service.Call
import Protoscribe.Service.Handler
import Protoscribe.Service.Overloads
import Protoscribe.Service.Routes
import Protoscribe.Service.Stub
import Protoscribe.Settings
import Protoscribe.SourceFile
import Protoscribe.Text.Affix
import Protoscribe.Text.Quoted
import Protoscribe.Text.Segments
import Protoscribe.TypeScript.Decl.Basic
import Protoscribe.TypeScript.Decl.Layout
import Protoscribe.TypeScript.Expr.Basic
import Protoscribe.TypeScript.Expr.Layout
import Protoscribe.TypeScript.Layout
import Protoscribe.TypeScript.Ty.Basic
import Protoscribe.TypeScript.Ty.Layout
import Protoscribe.Wire.Cursor
import Protoscribe.Wire.Fault
import Protoscribe.Wire.Record
import Protoscribe.Wire.Request
import Protoscribe.Wire.Response
import Protoscribe.Wire.Schema
import Protoscribe.Proofs.Message.Places
import Protoscribe.Proofs.Message.StorageClass
import Protoscribe.Proofs.Message.Optionality
import Protoscribe.Proofs.Service.Agreement
import Protoscribe.Proofs.Service.Running
import Protoscribe.Proofs.Service.Promise
import Protoscribe.Proofs.Registry.Visits
import Protoscribe.Proofs.TypeScript.Construction
import Protoscribe.Proofs.TypeScript.Ty.Flattening
import Protoscribe.Proofs.TypeScript.Ty.Grammar
import Protoscribe.Proofs.TypeScript.Ty.Spelling
import Protoscribe.Proofs.TypeScript.Ty.Reading
import Protoscribe.Proofs.TypeScript.Ty.RoundTrip
import Protoscribe.Proofs.TypeScript.LeadingBrace
import Protoscribe.Proofs.TypeScript.Quotation
import Protoscribe.Proofs.Message.Defaults
import Protoscribe.Proofs.TypeScript.IndexSignature
import Protoscribe.Proofs.Message.IndexKeys
import Protoscribe.Proofs.LegalKeys
import Protoscribe.Proofs.Field.MapDepth
import Protoscribe.Proofs.Header
import Protoscribe.Proofs.Settings
import Protoscribe.Proofs.Message.MemberNames
import Protoscribe.Proofs.ReferenceText
import Protoscribe.Proofs.Service.MethodPaths
