import Thumb.Constraint
import Thumb.Mnemonic
import Thumb.Register
import Thumb.Text.Quoted

/-! Why a line, an instruction or a configuration is refused. Each cause is a constructor that holds
what its message names, and the message is a function of the cause. -/
namespace Thumb

/-- A line that does not have the form of an instruction. -/
inductive ParseError
  | invalidLabel (label : String)
  | registerAsLabel (label : String)
  | noInstruction (line : String)
  | operandsNotTaken (operands : String)
  | noOperands (arity : Nat)
  | unknownOperand (operand : String)
  | missingComma (before after : String)
  | extraOperands (extra : List String) (arity : Nat)
  | missingOperand (index : Nat)
  deriving DecidableEq

namespace ParseError

def ordinal : Nat → String
  | 0 => "first"
  | 1 => "second"
  | 2 => "third"
  | _ => "next"

def message : ParseError → String
  | invalidLabel label => label ++ " is not a valid label"
  | registerAsLabel label => label ++ " is a register name and cannot be a label"
  | noInstruction line => "No instruction found in " ++ Text.quote line
  | operandsNotTaken operands =>
    "Extra operands " ++ Text.quote operands ++ ": this instruction takes none"
  | noOperands arity => "Expected " ++ toString arity ++ " operand(s) but found None"
  | unknownOperand operand => "Unknown operand " ++ Text.quote operand
  | missingComma before after =>
    "Missing comma between " ++ Text.quote before ++ " and " ++ Text.quote after
  | extraOperands extra arity =>
    "Extra operand(s) " ++ Text.quote (", ".intercalate extra) ++ ": expected " ++ toString arity
  | missingOperand index => "Missing the " ++ ordinal index ++ " operand"

end ParseError

/-- An instruction or a label that is not known, or a label known already. -/
inductive NameError
  | unsupported (name : String)
  | labelDefined (label : String) (index : Nat)
  | labelUndefined (label : String)
  deriving DecidableEq

def NameError.message : NameError → String
  | unsupported name => name ++ " is not a supported instruction"
  | labelDefined label index =>
    "Label " ++ label ++ " is already defined at instruction " ++ toString index
  | labelUndefined label => "Label " ++ label ++ " is not defined"

/-- An operand that breaks a constraint, or operands that fit no form of their instruction. -/
inductive OperandError
  | notRegister (text : String)
  | registerDigits (text : String)
  | noSuchRegister (text : String) (registerCount : Nat)
  | outsideClass (text : String) (c : RegisterClass)
  | notSpecial (text : String)
  | notImmediate (text : String)
  | immediateDigits (text : String)
  | aboveMaximum (text : String) (high : Nat) (c : Constraint)
  | belowMinimum (text : String) (low : Nat) (c : Constraint)
  | misaligned (text : String) (step : Nat) (c : Constraint)
  | notMultiple (value step : Nat)
  | zeroStep (value : Nat)
  | operandCount (m : Mnemonic) (count : Nat)
  | labelNeeded (m : Mnemonic) (text : String)
  | destinationNotFirst (m : Mnemonic) (rd rn : Register)
  | destinationNotSource (m : Mnemonic) (rd rn rm : Register)
  | addImmediate (rn : Register)
  | moveImmediate (text : String) (rd : Register)
  | reverseSubtract (text : String)
  | subtract (rd rn : Register)
  deriving DecidableEq

def OperandError.message : OperandError → String
  | notRegister text => text ++ " is not a register"
  | registerDigits text => text ++ " is not a register: expected digits after 'R'"
  | noSuchRegister text count =>
    text ++ " is greater than the highest register R" ++ toString (count - 1)
  | outsideClass text c =>
    text ++ " is not " ++ c.noun ++ " (R" ++ toString c.low ++ " to R" ++ toString c.high ++ ")"
  | notSpecial text => text ++ " is not a special register"
  | notImmediate text => text ++ " is not an immediate"
  | immediateDigits text => text ++ " is not an immediate: expected digits after '#'"
  | aboveMaximum text high c =>
    text ++ " is greater than the maximum " ++ toString high ++ " allowed by " ++ c.name
  | belowMinimum text low c =>
    text ++ " is less than the minimum " ++ toString low ++ " allowed by " ++ c.name
  | misaligned text step c =>
    text ++ " is not a multiple of " ++ toString step ++ " for " ++ c.name
  | notMultiple value step => toString value ++ " is not a multiple of " ++ toString step
  | zeroStep value => toString value ++ " cannot be checked against a multiple of 0"
  | operandCount m count =>
    m.name ++ " takes " ++ toString m.arity ++ " operand(s), not " ++ toString count
  | labelNeeded m text => m.name ++ " needs a label, not " ++ text
  | destinationNotFirst m rd rn =>
    m.name ++ " requires the destination " ++ rd.name ++ " to be the same as the first source " ++
      rn.name
  | destinationNotSource m rd rn rm =>
    m.name ++ " requires the destination " ++ rd.name ++
      " to be the same as one of the sources " ++ rn.name ++ " or " ++ rm.name
  | addImmediate rn => "ADD only adds an immediate to SP or PC, not " ++ rn.name ++ "; use ADDS"
  | moveImmediate text rd =>
    "MOV cannot move the immediate " ++ text ++ " into " ++ rd.name ++ "; use MOVS"
  | reverseSubtract text => "RSBS only subtracts from #0, not " ++ text
  | subtract rd rn =>
    "SUB only operates as SUB SP, SP, #imm, not on " ++ rd.name ++ " and " ++ rn.name ++
      "; use SUBS"

inductive ConfigError
  | badWidth (bits : Nat)
  | tooFewRegisters (count : Nat)
  deriving DecidableEq

def ConfigError.message : ConfigError → String
  | badWidth bits => "bit width " ++ toString bits ++ " must be 16, 32, 48 or 64"
  | tooFewRegisters count =>
    toString count ++ " registers is not enough to hold R0 to R15"

/-- Any cause of refusal, by the stage that found it. -/
inductive Error
  | parsing (e : ParseError)
  | validation (e : NameError)
  | rule (e : OperandError)
  | config (e : ConfigError)
  deriving DecidableEq

inductive Error.Kind
  | parsing
  | validation
  | rule
  | config
  deriving DecidableEq

def Error.kind : Error → Error.Kind
  | parsing _ => .parsing
  | validation _ => .validation
  | rule _ => .rule
  | config _ => .config

/-- The message with the stage in front. -/
def Error.message : Error → String
  | parsing e => "parsing error: " ++ e.message
  | validation e => "validation error: " ++ e.message
  | rule e => "rule error: " ++ e.message
  | config e => "invalid configuration: " ++ e.message

end Thumb
