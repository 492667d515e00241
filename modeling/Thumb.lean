import Thumb.Arithmetic
import Thumb.Bytes
import Thumb.Condition
import Thumb.Config
import Thumb.Constraint
import Thumb.Constraint.Check
import Thumb.Error
import Thumb.Flags
import Thumb.Instruction
import Thumb.Instruction.Decode
import Thumb.Machine
import Thumb.Mnemonic
import Thumb.Program
import Thumb.Register
import Thumb.RegisterFile
import Thumb.RegisterFile.Named
import Thumb.RegisterFile.Numbers
import Thumb.RegisterFile.Perform
import Thumb.Shape
import Thumb.Shift
import Thumb.SourceLine
import Thumb.SpecialRegister
import Thumb.Text.Blank
import Thumb.Text.Case
import Thumb.Text.Numeral
import Thumb.Text.Printable
import Thumb.Text.Quoted
import Thumb.Token
import Thumb.Host.Assembly
import Thumb.Host.Bank
import Thumb.Host.Named
import Thumb.Host.Numeral
import Thumb.Host.Perform
import Thumb.Host.State
import Thumb.Host.Word
import Thumb.Proofs.AcceptedLine
import Thumb.Proofs.ByteReversal
import Thumb.Proofs.Calls
import Thumb.Proofs.Catalogue
import Thumb.Proofs.Comparison
import Thumb.Proofs.Computation
import Thumb.Proofs.CountingLoop
import Thumb.Proofs.DecodeTable
import Thumb.Proofs.Destinations
import Thumb.Proofs.Extensions
import Thumb.Proofs.Failure
import Thumb.Proofs.Feeding
import Thumb.Proofs.FlagAgreement
import Thumb.Proofs.ForwardPrograms
import Thumb.Proofs.Frame
import Thumb.Proofs.History
import Thumb.Proofs.Host.Actions
import Thumb.Proofs.Host.Assembly
import Thumb.Proofs.Host.Banks
import Thumb.Proofs.Host.Bytes
import Thumb.Proofs.Host.FlagWrites
import Thumb.Proofs.Host.Histories
import Thumb.Proofs.Host.NamedAccess
import Thumb.Proofs.Host.Numerals
import Thumb.Proofs.Host.Ranges
import Thumb.Proofs.Host.Residues
import Thumb.Proofs.Host.Sessions
import Thumb.Proofs.Host.Words
import Thumb.Proofs.LabelNames
import Thumb.Proofs.LifeCycle
import Thumb.Proofs.LimbChains
import Thumb.Proofs.LineAcceptance
import Thumb.Proofs.LineCutting
import Thumb.Proofs.LineGrammar
import Thumb.Proofs.Numerals
import Thumb.Proofs.OperandReading
import Thumb.Proofs.OperandTable
import Thumb.Proofs.Outcome
import Thumb.Proofs.ProgramCounter
import Thumb.Proofs.ProgramLabels
import Thumb.Proofs.RegisterNames
import Thumb.Proofs.Rendering
import Thumb.Proofs.Runs
import Thumb.Proofs.SavedFlags
import Thumb.Proofs.ShiftArithmetic
import Thumb.Proofs.Spelling
import Thumb.Proofs.TokenReading
import Thumb.Proofs.TokenValues
import Thumb.Proofs.Traces
import Thumb.Proofs.Trimming
import Thumb.Proofs.Verdicts
import Thumb.Proofs.WrittenMeaning
