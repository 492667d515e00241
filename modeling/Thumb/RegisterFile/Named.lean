import Thumb.RegisterFile.Numbers
import Thumb.Token

/-! Access to registers by name. A name is that of a special register, an alias, or `R` and a
number, in either case and with blanks around it; it reaches every numbered register there is. -/
namespace Thumb

/-- The location that a name denotes. -/
def Location.ofName (s : Shape) (name : String) : Except OperandError (Location s) :=
  let t := Text.trimmed name
  match SpecialRegister.ofName? t with
  | some r => .ok (r.location s)
  | none => do
    let n ← Token.registerNumber t
    if h : n < s.registerCount then .ok (.slot ⟨n, h⟩)
    else .error (.noSuchRegister t s.registerCount)

namespace RegisterFile

variable {s : Shape}

def readNamed (f : RegisterFile s) (name : String) : Except OperandError Nat :=
  (Location.ofName s name).map f.read

def writeNamed (f : RegisterFile s) (name : String) (n : Nat) :
    Except OperandError (RegisterFile s) :=
  (Location.ofName s name).map fun l => f.write l n

end RegisterFile
end Thumb
