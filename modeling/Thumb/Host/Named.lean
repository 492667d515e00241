import Thumb.Host.Bank
import Thumb.Token

/-! Access to the registers of a bank by name. A name is looked for among the special registers first
and is then read as the number of a register; a name that is refused leaves the bank alone. -/
namespace Thumb
namespace Host

/-- What a name can stand for. -/
inductive Place
  | numbered (i : Nat)
  | special (r : SpecialRegister)

namespace Bank

def lookup (b : Bank) (name : String) : Except OperandError Place :=
  let t := Text.trimmed name
  match SpecialRegister.ofName? t with
  | some r => .ok (.special r)
  | none => do
    let i ← Token.registerNumber t
    if b.words.size ≤ i then .error (.noSuchRegister t b.words.size) else .ok (.numbered i)

def getNamed? (b : Bank) (name : String) : Option (Except OperandError Word) :=
  match b.lookup name with
  | .ok (.numbered i) => (b.read? i).map .ok
  | .ok (.special r) => (b.readSpecial? r).map .ok
  | .error e => some (.error e)

/-- Whether the name is accepted, and the bank with the word put into its register. -/
def setNamed? (b : Bank) (name : String) (v : Word) : Option (Except OperandError Unit × Bank) :=
  match b.lookup name with
  | .ok (.numbered i) => (b.write? i v).map fun b' => (.ok (), b')
  | .ok (.special r) => (b.writeSpecial? r v).map fun b' => (.ok (), b')
  | .error e => some (.error e, b)

end Bank
end Host
end Thumb
