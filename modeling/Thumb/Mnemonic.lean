import Thumb.Condition

/-! The instruction names. Each one fixes how many operands are written after it, whether one of
them is a label, and whether the instruction changes the condition flags. -/
namespace Thumb

inductive Mnemonic
  | adcs | add | adds | ands | asrs
  /-- A branch under a condition. -/
  | b (cond : Condition)
  | bics | bl | blx | bx | cmn | cmp | eors | lsls | lsrs | mov | movs | mrs | msr | muls | mvns
  | nop | orrs | rev | rev16 | revsh | rors | rsbs | sbcs | sub | subs | sxtb | sxth | tst | uxtb
  | uxth
  deriving DecidableEq

namespace Mnemonic

/-- The name in capitals; a branch ends in the suffix of its condition. -/
def name : Mnemonic → String
  | adcs => "ADCS"
  | add => "ADD"
  | adds => "ADDS"
  | ands => "ANDS"
  | asrs => "ASRS"
  | b cond => "B" ++ cond.suffix
  | bics => "BICS"
  | bl => "BL"
  | blx => "BLX"
  | bx => "BX"
  | cmn => "CMN"
  | cmp => "CMP"
  | eors => "EORS"
  | lsls => "LSLS"
  | lsrs => "LSRS"
  | mov => "MOV"
  | movs => "MOVS"
  | mrs => "MRS"
  | msr => "MSR"
  | muls => "MULS"
  | mvns => "MVNS"
  | nop => "NOP"
  | orrs => "ORRS"
  | rev => "REV"
  | rev16 => "REV16"
  | revsh => "REVSH"
  | rors => "RORS"
  | rsbs => "RSBS"
  | sbcs => "SBCS"
  | sub => "SUB"
  | subs => "SUBS"
  | sxtb => "SXTB"
  | sxth => "SXTH"
  | tst => "TST"
  | uxtb => "UXTB"
  | uxth => "UXTH"

/-- The mnemonics without a condition suffix. -/
def plain : List Mnemonic :=
  [adcs, add, adds, ands, asrs, b .always, bics, bl, blx, bx, cmn, cmp, eors, lsls, lsrs, mov,
    movs, mrs, msr, muls, mvns, nop, orrs, rev, rev16, revsh, rors, rsbs, sbcs, sub, subs, sxtb,
    sxth, tst, uxtb, uxth]

def ofBranchName? (s : String) : Option Mnemonic :=
  match (Text.upper s).toList with
  | 'B' :: suffix => (Condition.ofSuffix? (String.ofList suffix)).map b
  | _ => none

/-- The mnemonic of the given name, in either case. -/
def ofName? (s : String) : Option Mnemonic := Text.findNamed? name plain s <|> ofBranchName? s

def arity : Mnemonic → Nat
  | nop => 0
  | b _ | bl | blx | bx => 1
  | cmn | cmp | mov | movs | mrs | msr | mvns | rev | rev16 | revsh | sxtb | sxth | tst | uxtb
  | uxth => 2
  | _ => 3

def takesLabel : Mnemonic → Bool
  | b _ | bl => true
  | _ => false

/-- Whether the instruction can change the condition flags. -/
def setsFlags : Mnemonic → Bool
  | adcs | adds | ands | asrs | bics | cmn | cmp | eors | lsls | lsrs | movs | msr | muls | mvns
  | orrs | rors | rsbs | sbcs | subs | tst => true
  | _ => false

@[simp] theorem ofName?_name (m : Mnemonic) : ofName? m.name = some m := by
  cases m with
  | b cond => cases cond <;> decide +kernel
  | _ => decide +kernel

end Mnemonic
end Thumb
