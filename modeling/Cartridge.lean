import Cartridge.Capability.Check
import Cartridge.Capability.Profile
import Cartridge.Capability.Tier
import Cartridge.Command.Options
import Cartridge.Command.Run
import Cartridge.Compiler.Compile
import Cartridge.Compiler.Stages
import Cartridge.Diagnostic
import Cartridge.Files.FileSystem
import Cartridge.Files.Path
import Cartridge.Flat.Buffer
import Cartridge.Flat.Fold
import Cartridge.Flat.Lowering
import Cartridge.Flat.Optimize
import Cartridge.Flat.Program
import Cartridge.Flat.Sweep
import Cartridge.Listing.Basic
import Cartridge.Listing.Encode
import Cartridge.Listing.Optimize
import Cartridge.Main
import Cartridge.Module
import Cartridge.Options
import Cartridge.Parsed
import Cartridge.Partial
import Cartridge.Pascal.Expr
import Cartridge.Pascal.Lexer
import Cartridge.Pascal.ParseError
import Cartridge.Pascal.Parser.Expr
import Cartridge.Pascal.Parser.Program
import Cartridge.Pascal.Parser.Rule
import Cartridge.Pascal.Parser.Stmt
import Cartridge.Pascal.Program
import Cartridge.Pascal.Token
import Cartridge.Project.Document
import Cartridge.Project.ProjectFile
import Cartridge.Proofs.Command.Layers
import Cartridge.Proofs.Command.Output
import Cartridge.Proofs.Compiler.Backends
import Cartridge.Proofs.Compiler.Calls
import Cartridge.Proofs.Compiler.Check
import Cartridge.Proofs.Compiler.Enforcement
import Cartridge.Proofs.Compiler.Independence
import Cartridge.Proofs.Compiler.Jumps
import Cartridge.Proofs.Compiler.OptimizedImage
import Cartridge.Proofs.Compiler.PlainImage
import Cartridge.Proofs.Compiler.Results
import Cartridge.Proofs.Compiler.Stages
import Cartridge.Proofs.Compiler.Total
import Cartridge.Proofs.Files.Renaming
import Cartridge.Proofs.Files.Writing
import Cartridge.Proofs.Flat.Assignments
import Cartridge.Proofs.Flat.Branches
import Cartridge.Proofs.Flat.Buffer
import Cartridge.Proofs.Flat.Calls
import Cartridge.Proofs.Flat.Folding
import Cartridge.Proofs.Flat.Labels
import Cartridge.Proofs.Flat.Lowering
import Cartridge.Proofs.Flat.Machine
import Cartridge.Proofs.Flat.Operand
import Cartridge.Proofs.Flat.Overwriting
import Cartridge.Proofs.Flat.Passes
import Cartridge.Proofs.Flat.Pruning
import Cartridge.Proofs.Flat.Settled
import Cartridge.Proofs.Flat.Simulation
import Cartridge.Proofs.Flat.Sources
import Cartridge.Proofs.Flat.Strings
import Cartridge.Proofs.Flat.Sweep
import Cartridge.Proofs.Listing.Comments
import Cartridge.Proofs.Listing.Decoding
import Cartridge.Proofs.Listing.Encoding
import Cartridge.Proofs.Listing.Execution
import Cartridge.Proofs.Listing.Lines
import Cartridge.Proofs.Listing.Operands
import Cartridge.Proofs.Pascal.Expressions
import Cartridge.Proofs.Pascal.Faults
import Cartridge.Proofs.Pascal.Folding
import Cartridge.Proofs.Pascal.Grammar
import Cartridge.Proofs.Pascal.Layout
import Cartridge.Proofs.Pascal.Lexemes
import Cartridge.Proofs.Pascal.Names
import Cartridge.Proofs.Pascal.Positions
import Cartridge.Proofs.Pascal.Prefixes
import Cartridge.Proofs.Pascal.Printing
import Cartridge.Proofs.Pascal.Programs
import Cartridge.Proofs.Pascal.Quotation
import Cartridge.Proofs.Pascal.Reading
import Cartridge.Proofs.Pascal.Statements
import Cartridge.Proofs.Pascal.Stopping
import Cartridge.Proofs.Pascal.Tiling
import Cartridge.Proofs.Pascal.WellFormed
import Cartridge.Proofs.Register.AddressTable
import Cartridge.Proofs.Register.Allocation
import Cartridge.Proofs.Register.Counterparts
import Cartridge.Proofs.Register.Labels
import Cartridge.Proofs.Register.Lowering
import Cartridge.Proofs.Register.ZeroPage
import Cartridge.Proofs.Text.Blank
import Cartridge.Proofs.Text.Decimal
import Cartridge.Register.AddressTable
import Cartridge.Register.Lowering
import Cartridge.Register.Optimize
import Cartridge.Register.Program
import Cartridge.Register.ZeroPage
import Cartridge.Rom
import Cartridge.Span
import Cartridge.Text.Alphanumeric
import Cartridge.Text.Blank
import Cartridge.Text.Lines
import Cartridge.Text.Number
