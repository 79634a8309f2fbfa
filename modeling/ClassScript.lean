import ClassScript.Archive
import ClassScript.Archive.Checksum
import ClassScript.Archive.Directory
import ClassScript.Archive.Entry
import ClassScript.Archive.Inflate
import ClassScript.Archive.Record
import ClassScript.Arith
import ClassScript.Bytes
import ClassScript.ClassFile.Annotation
import ClassScript.ClassFile.Decl
import ClassScript.ClassFile.Layout
import ClassScript.ClassFile.Pool
import ClassScript.Define
import ClassScript.Descriptor
import ClassScript.Dispatch
import ClassScript.Exporter
import ClassScript.Floating
import ClassScript.Floating.Shortest
import ClassScript.Generation
import ClassScript.Hierarchy
import ClassScript.Instruction
import ClassScript.Instruction.Decode
import ClassScript.Invokers
import ClassScript.Kind
import ClassScript.Library
import ClassScript.Method.Body
import ClassScript.Method.Frame
import ClassScript.Method.Function
import ClassScript.Method.Lower
import ClassScript.Method.Resolve
import ClassScript.Method.Shuffle
import ClassScript.Name
import ClassScript.Options
import ClassScript.Program
import ClassScript.Program.Build
import ClassScript.Reader
import ClassScript.References
import ClassScript.Resources
import ClassScript.Script.Comments
import ClassScript.Script.Definition
import ClassScript.Script.Expr
import ClassScript.Script.Number
import ClassScript.Script.Quoted
import ClassScript.Script.Stmt
import ClassScript.Script.Support
import ClassScript.Script.SwitchTable
import ClassScript.Script.Writer
import ClassScript.Table
import ClassScript.Text.Base64
import ClassScript.Text.Escaped
import ClassScript.Text.Lines
import ClassScript.Text.ModifiedUtf8
import ClassScript.Text.Printable
import ClassScript.Text.Utf16
import ClassScript.Text.Utf8
import ClassScript.Visibility
import ClassScript.Proofs.SupportCode
import ClassScript.Proofs.LongDivision
import ClassScript.Proofs.Machine
import ClassScript.Proofs.Evaluation
import ClassScript.Proofs.Operations
import ClassScript.Proofs.Typing
import ClassScript.Proofs.Triples
import ClassScript.Proofs.StraightCode
import ClassScript.Proofs.Decoding
import ClassScript.Proofs.Tables
import ClassScript.Proofs.StackLayouts
import ClassScript.Proofs.InitializerOrder
import ClassScript.Proofs.Lookups
import ClassScript.Proofs.Spelling
import ClassScript.Proofs.Needs
import ClassScript.Proofs.Requests
import ClassScript.Proofs.Discovery
import ClassScript.Proofs.Initialization
import ClassScript.Proofs.Linking
import ClassScript.Proofs.Flushing
import ClassScript.Proofs.ClassFiles
import ClassScript.Proofs.Encodings
import ClassScript.Proofs.ExceptionRanges
import ClassScript.Proofs.Alike
import ClassScript.Proofs.Twins
import ClassScript.Proofs.Exploration
import ClassScript.Proofs.HostClasses
import ClassScript.Proofs.RootInitialization
import ClassScript.Proofs.UnrecordedLabels
import ClassScript.Proofs.Descriptors
import ClassScript.Proofs.Identifiers
import ClassScript.Proofs.MethodProperties
import ClassScript.Proofs.SearchOrder
import ClassScript.Proofs.Traversal
import ClassScript.Proofs.ParallelMoves
import ClassScript.Proofs.WordShuffles
import ClassScript.Proofs.Truncation
import ClassScript.Proofs.AcceptedCode
import ClassScript.Proofs.Tiling
import ClassScript.Proofs.JumpTables
import ClassScript.Proofs.Verdicts
import ClassScript.Proofs.Dispatching
import ClassScript.Proofs.TextGroups
import ClassScript.Proofs.DescriptorGrammar
import ClassScript.Proofs.Literals
import ClassScript.Proofs.Brackets
import ClassScript.Proofs.AnnotationTags
import ClassScript.Proofs.BracketedText
import ClassScript.Proofs.QuietGeneration
import ClassScript.Proofs.BracketedDefinitions
import ClassScript.Proofs.ClassFunctions
import ClassScript.Proofs.QuestionOrder
import ClassScript.Proofs.LexicalElements
import ClassScript.Proofs.StrippedComments
import ClassScript.Proofs.UsedVariables
import ClassScript.Proofs.DeclaredVariables
import ClassScript.Proofs.ExactFolding
import ClassScript.Proofs.PoolAddressing
import ClassScript.Proofs.Worklist
import ClassScript.Proofs.AnnotationTrees
import ClassScript.Proofs.AnnotationReading
import ClassScript.Proofs.CachedLookups
import ClassScript.Proofs.WrittenBack
import ClassScript.Proofs.ParameterSlots
import ClassScript.Proofs.StandingWords
import ClassScript.Proofs.Mentions
import ClassScript.Proofs.MentionedCode
import ClassScript.Proofs.FunctionForms
import ClassScript.Proofs.Rendering
import ClassScript.Proofs.ClassMentions
import ClassScript.Proofs.AnnotationData
import ClassScript.Proofs.PendingNames
