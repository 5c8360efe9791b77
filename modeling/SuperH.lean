import SuperH.Assembly
import SuperH.Assembly.File
import SuperH.Comparison
import SuperH.DataSection
import SuperH.Disk
import SuperH.Error
import SuperH.Event
import SuperH.Format
import SuperH.Image
import SuperH.Instruction
import SuperH.InstructionSet
import SuperH.InstructionTable
import SuperH.Layout
import SuperH.Layout.File
import SuperH.Layout.Reading
import SuperH.Listing
import SuperH.Literal
import SuperH.Main
import SuperH.Notice
import SuperH.Operand
import SuperH.Operand.Reading
import SuperH.Path
import SuperH.Placement
import SuperH.Program
import SuperH.Proofs.Decoding
import SuperH.Proofs.Digits
import SuperH.Proofs.Encoding
import SuperH.Proofs.Traversal
import SuperH.Recorder
import SuperH.Register
import SuperH.Source.Line
import SuperH.Source.Written
import SuperH.Statement
import SuperH.Storage
import SuperH.SymbolTable
import SuperH.Text.Blank
import SuperH.Text.Case
import SuperH.Text.CaseTable
import SuperH.Text.Digits
import SuperH.Text.Style
import SuperH.Tool.Arguments
import SuperH.Tool.Assembler
import SuperH.Tool.Comparer
import SuperH.Tool.Outcome
import SuperH.Yaml.Anchors
import SuperH.Yaml.Document
import SuperH.Yaml.Glyph
import SuperH.Yaml.Scalar.Block
import SuperH.Yaml.Scalar.Plain
import SuperH.Yaml.Scalar.Quoted
import SuperH.Yaml.Scalar.Spacing
import SuperH.Yaml.Tag
import SuperH.Yaml.Token
import SuperH.Yaml.Token.Reading
import SuperH.Proofs.Linking
import SuperH.Proofs.Sections
import SuperH.Proofs.Symbols
import SuperH.Proofs.Placing
import SuperH.Proofs.Disassembly
import SuperH.Proofs.Streams
import SuperH.Proofs.Weaving
import SuperH.Proofs.Reencoding
import SuperH.Proofs.Lexing
import SuperH.Proofs.OperandText
import SuperH.Proofs.Reassembly
import SuperH.Proofs.Joining
import SuperH.Proofs.LineNumbers
import SuperH.Proofs.Diagnostics
import SuperH.Proofs.Concatenation
import SuperH.Proofs.Contents
import SuperH.Proofs.Names
import SuperH.Proofs.Definitions
import SuperH.Proofs.Recordings
import SuperH.Proofs.Invariants
import SuperH.Proofs.Sizes
import SuperH.Proofs.Trapping
import SuperH.Proofs.ImageBuffer
import SuperH.Proofs.AddressSpace
import SuperH.Proofs.Dumping
import SuperH.Proofs.Directives
import SuperH.Proofs.Comparing
import SuperH.Proofs.CaseFolding
import SuperH.Proofs.LetterCase
import SuperH.Proofs.ExactEncoding
import SuperH.Proofs.Unambiguity
import SuperH.Proofs.Capacity
import SuperH.Proofs.MemoryMap
import SuperH.Proofs.DataWriting
import SuperH.Proofs.Quoting
import SuperH.Proofs.Numerals
import SuperH.Proofs.History
import SuperH.Proofs.OperandGrammar
import SuperH.Proofs.BranchTargets
import SuperH.Proofs.Listings
import SuperH.Proofs.DumpFormat
import SuperH.Proofs.Ranges
import SuperH.Proofs.MachineNumbers
import SuperH.Proofs.StatementText
import SuperH.Proofs.Disks
import SuperH.Proofs.OutputFiles
