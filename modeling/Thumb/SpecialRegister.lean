import Thumb.Text.Case

/-! The status and control registers that only `MRS`, `MSR` and named access reach. -/
namespace Thumb

inductive SpecialRegister
  /-- The condition flags. -/
  | apsr
  /-- The condition flags together with the exception number. -/
  | iapsr
  /-- The condition flags together with the execution status. -/
  | eapsr
  /-- All three status registers together. -/
  | xpsr
  /-- The same as `xpsr`. -/
  | psr
  /-- The exception number. -/
  | ipsr
  /-- The execution status. -/
  | epsr
  /-- The exception number together with the execution status. -/
  | iepsr
  /-- The main stack pointer. -/
  | msp
  /-- The process stack pointer. -/
  | psp
  /-- The exception mask. -/
  | primask
  /-- Stack selection and privilege. -/
  | control
  deriving DecidableEq

namespace SpecialRegister

def all : List SpecialRegister :=
  [apsr, iapsr, eapsr, xpsr, psr, ipsr, epsr, iepsr, msp, psp, primask, control]

def name : SpecialRegister → String
  | apsr => "APSR"
  | iapsr => "IAPSR"
  | eapsr => "EAPSR"
  | xpsr => "XPSR"
  | psr => "PSR"
  | ipsr => "IPSR"
  | epsr => "EPSR"
  | iepsr => "IEPSR"
  | msp => "MSP"
  | psp => "PSP"
  | primask => "PRIMASK"
  | control => "CONTROL"

/-- The special register of the given name, in either case. -/
def ofName? (s : String) : Option SpecialRegister := Text.findNamed? name all s

def showsFlags : SpecialRegister → Bool
  | apsr | iapsr | eapsr | xpsr | psr => true
  | _ => false

/-- Whether writes to the register are ignored. -/
def isReadOnly : SpecialRegister → Bool
  | ipsr | epsr | iepsr => true
  | _ => false

theorem mem_all (r : SpecialRegister) : r ∈ all := by cases r <;> decide

@[simp] theorem ofName?_name (r : SpecialRegister) : ofName? r.name = some r := by
  cases r <;> decide +kernel

end SpecialRegister
end Thumb
