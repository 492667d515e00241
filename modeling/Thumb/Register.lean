import Thumb.Shape

/-! The architectural registers. `SP`, `LR` and `PC` are names for the numbered registers 13, 14 and
15; a machine may have further numbered registers, which only named access reaches. -/
namespace Thumb

inductive Register
  | r0 | r1 | r2 | r3 | r4 | r5 | r6 | r7 | r8 | r9 | r10 | r11 | r12
  /-- The stack pointer. -/
  | sp
  /-- The link register, which holds return addresses. -/
  | lr
  /-- The program counter. -/
  | pc
  deriving DecidableEq

namespace Register

def all : List Register :=
  [r0, r1, r2, r3, r4, r5, r6, r7, r8, r9, r10, r11, r12, sp, lr, pc]

def index : Register → Nat
  | r0 => 0
  | r1 => 1
  | r2 => 2
  | r3 => 3
  | r4 => 4
  | r5 => 5
  | r6 => 6
  | r7 => 7
  | r8 => 8
  | r9 => 9
  | r10 => 10
  | r11 => 11
  | r12 => 12
  | sp => 13
  | lr => 14
  | pc => 15

/-- The register that the low four bits of a number select. -/
def ofIndex (n : Nat) : Register := (all[n % 16]?).getD pc

theorem index_lt (r : Register) : r.index < 16 := by cases r <;> decide

@[simp] theorem ofIndex_index (r : Register) : ofIndex r.index = r := by cases r <;> rfl

theorem index_injective {r r' : Register} (h : r.index = r'.index) : r = r' := by
  rw [← ofIndex_index r, h, ofIndex_index]

@[simp] theorem index_ofIndex (n : Nat) : (ofIndex n).index = n % 16 := by
  have h : ∀ k < 16, ((all[k]?).getD pc).index = k := by decide
  exact h _ (Nat.mod_lt n (by decide))

/-- Whether the register is one of `R0` to `R7`, which most encodings are limited to. -/
def isLow (r : Register) : Bool := r.index < 8

def name : Register → String
  | sp => "SP"
  | lr => "LR"
  | pc => "PC"
  | r => "R" ++ toString r.index

end Register

def Shape.slot (s : Shape) (r : Register) : Fin s.registerCount :=
  ⟨r.index, Nat.lt_of_lt_of_le r.index_lt s.sixteen_le⟩

@[simp] theorem Shape.slot_val (s : Shape) (r : Register) : (s.slot r).val = r.index := rfl

@[simp] theorem Shape.slot_inj {s : Shape} {r r' : Register} : s.slot r = s.slot r' ↔ r = r' :=
  ⟨fun h => Register.index_injective (congrArg Fin.val h), fun h => h ▸ rfl⟩

end Thumb
