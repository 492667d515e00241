import Thumb.Arithmetic
import Thumb.Register
import Thumb.SpecialRegister

/-! The register file. Every register name denotes a location, several names can denote the same
one, and a location keeps only the bits it has; writing one location leaves the others alone. -/
namespace Thumb

/-- A place that a register name can denote. -/
inductive Location (s : Shape)
  /-- A numbered register. -/
  | slot (i : Fin s.registerCount)
  /-- The status word. -/
  | flags
  /-- The process stack pointer. -/
  | psp
  /-- The exception mask, of one bit. -/
  | primask
  /-- Stack selection and privilege, of two bits. -/
  | control
  /-- A register that always reads as zero. -/
  | zero
  deriving DecidableEq

def Register.location (s : Shape) (r : Register) : Location s := .slot (s.slot r)

/-- The location of a special register: every register that shows the flags shows nothing else, and
the main stack pointer is `SP`. -/
def SpecialRegister.location (s : Shape) : SpecialRegister → Location s
  | apsr | iapsr | eapsr | xpsr | psr => .flags
  | ipsr | epsr | iepsr => .zero
  | msp => .slot (s.slot .sp)
  | psp => .psp
  | primask => .primask
  | control => .control

/-- The bits that a location keeps. -/
def Location.mask {s : Shape} : Location s → s.Word
  | slot _ | psp => BitVec.allOnes s.bits
  | flags => Flags.word s.bits ⟨true, true, true, true⟩
  | primask => (BitVec.allOnes 1).setWidth s.bits
  | control => (BitVec.allOnes 2).setWidth s.bits
  | zero => 0

structure RegisterFile (s : Shape) where
  slots : Vector s.Word s.registerCount
  flags : Flags
  psp : s.Word
  primask : BitVec 1
  control : BitVec 2
  deriving DecidableEq

/-- Narrowing a word to `k` bits and widening it again keeps its low `k` bits. -/
theorem setWidth_setWidth_eq_and {w k : Nat} (v : BitVec w) :
    (v.setWidth k).setWidth w = v &&& (BitVec.allOnes k).setWidth w := by
  ext i hi
  simp [BitVec.getElem_setWidth, hi, Bool.and_comm]

namespace RegisterFile

variable {s : Shape}

def zero (s : Shape) : RegisterFile s :=
  ⟨Vector.replicate s.registerCount 0, Flags.clear, 0, 0, 0⟩

def load (f : RegisterFile s) : Location s → s.Word
  | .slot i => f.slots[i]
  | .flags => f.flags.word s.bits
  | .psp => f.psp
  | .primask => f.primask.setWidth s.bits
  | .control => f.control.setWidth s.bits
  | .zero => 0

def store (f : RegisterFile s) (l : Location s) (v : s.Word) : RegisterFile s :=
  match l with
  | .slot i => { f with slots := f.slots.set i v }
  | .flags => { f with flags := Flags.ofWord v }
  | .psp => { f with psp := v }
  | .primask => { f with primask := v.setWidth 1 }
  | .control => { f with control := v.setWidth 2 }
  | .zero => f

/-- A location holds the bits it keeps of the word last written to it. -/
theorem load_store_self (f : RegisterFile s) (l : Location s) (v : s.Word) :
    (f.store l v).load l = v &&& l.mask := by
  have h := s.sixteen_le_bits
  cases l with
  | slot i => simp [load, store, Location.mask]
  | flags => exact Flags.word_ofWord (by omega) v
  | psp => simp [load, store, Location.mask]
  | primask => exact setWidth_setWidth_eq_and v
  | control => exact setWidth_setWidth_eq_and v
  | zero => simp [load, Location.mask]

@[simp] theorem load_store_of_ne {l l' : Location s} (h : l' ≠ l) (f : RegisterFile s)
    (v : s.Word) : (f.store l v).load l' = f.load l' := by
  cases l <;> cases l' <;> simp_all [store, load]
  rename_i i j
  exact Vector.getElem_set_ne _ _ (fun hij => h (Fin.ext hij.symm))

def get (f : RegisterFile s) (r : Register) : s.Word := f.slots[s.slot r]

def set (f : RegisterFile s) (r : Register) (v : s.Word) : RegisterFile s :=
  { f with slots := f.slots.set (s.slot r) v }

def setFlags (f : RegisterFile s) (flags : Flags) : RegisterFile s := { f with flags := flags }

@[simp] theorem load_location (f : RegisterFile s) (r : Register) :
    f.load (r.location s) = f.get r := rfl

@[simp] theorem store_location (f : RegisterFile s) (r : Register) (v : s.Word) :
    f.store (r.location s) v = f.set r v := rfl

@[simp] theorem get_zero (r : Register) : (zero s).get r = 0 := by
  simp [zero, get]

@[simp] theorem get_set_self (f : RegisterFile s) (r : Register) (v : s.Word) :
    (f.set r v).get r = v := by simp [get, set]

@[simp] theorem get_set_of_ne {r r' : Register} (h : r' ≠ r) (f : RegisterFile s) (v : s.Word) :
    (f.set r v).get r' = f.get r' := by
  simp only [get, set]
  exact Vector.getElem_set_ne _ _ fun hij => h (Register.index_injective hij.symm)

@[simp] theorem flags_set (f : RegisterFile s) (r : Register) (v : s.Word) :
    (f.set r v).flags = f.flags := rfl

@[simp] theorem get_setFlags (f : RegisterFile s) (flags : Flags) (r : Register) :
    (f.setFlags flags).get r = f.get r := rfl

@[simp] theorem flags_setFlags (f : RegisterFile s) (flags : Flags) :
    (f.setFlags flags).flags = flags := rfl

end RegisterFile
end Thumb
