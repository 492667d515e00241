import Thumb.Token

/-! Checking a token against a constraint. What is accepted has a value, a register number, an
immediate or a special register; the first requirement that fails is the one reported. -/
namespace Thumb

inductive Value
  | register (n : Nat)
  | immediate (n : Nat)
  | special (r : SpecialRegister)
  deriving DecidableEq

/-- The text as a register of a class, on a machine with the given number of registers. -/
def RegisterClass.check (c : RegisterClass) (registerCount : Nat) (text : String) :
    Except OperandError Nat :=
  if !Token.isRegister text || (SpecialRegister.ofName? text).isSome then
    .error (.notRegister text)
  else do
    let n ← Token.registerNumber text
    if registerCount ≤ n then .error (.noSuchRegister text registerCount)
    else if c.admits n then .ok n
    else .error (.outsideClass text c)

/-- Accepts the multiples of a step; none is a multiple of zero. -/
def checkMultiple (value step : Nat) : Except OperandError Unit :=
  if step = 0 then .error (.zeroStep value)
  else if value % step = 0 then .ok ()
  else .error (.notMultiple value step)

/-- The text as an immediate of the range that the constraint `c` names. -/
def ImmediateRange.check (r : ImmediateRange) (c : Constraint) (text : String) :
    Except OperandError Nat :=
  if !Token.isImmediate text then .error (.notImmediate text)
  else do
    let n ← Token.immediateValue text
    if r.high < n then .error (.aboveMaximum text r.high c)
    else if n < r.low then .error (.belowMinimum text r.low c)
    else match checkMultiple n r.step with
      | .ok () => .ok n
      | .error _ => .error (.misaligned text r.step c)

namespace Constraint

def check (c : Constraint) (registerCount : Nat) (text : String) : Except OperandError Value :=
  let t := Text.trimmed text
  match c.domain with
  | .registers cls => (cls.check registerCount t).map .register
  | .immediates range => (range.check c t).map .immediate
  | .special =>
    match SpecialRegister.ofName? t with
    | some r => .ok (.special r)
    | none => .error (.notSpecial t)

def register (c : Constraint) (registerCount : Nat) (text : String) :
    Except OperandError Register := do
  match ← c.check registerCount text with
  | .register n => .ok (.ofIndex n)
  | _ => .error (.notRegister text)

def immediate (c : Constraint) (registerCount : Nat) (text : String) :
    Except OperandError Nat := do
  match ← c.check registerCount text with
  | .immediate n => .ok n
  | _ => .error (.notImmediate text)

def special (c : Constraint) (registerCount : Nat) (text : String) :
    Except OperandError SpecialRegister := do
  match ← c.check registerCount text with
  | .special r => .ok r
  | _ => .error (.notSpecial text)

/-- Checks groups of tokens, each group under its constraint, up to the first token that fails. -/
def checkGroups (registerCount : Nat) (groups : List (Constraint × List String)) :
    Except OperandError Unit :=
  groups.forM fun (c, texts) => texts.forM fun text => discard (c.check registerCount text)

end Constraint
end Thumb
