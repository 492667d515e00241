/-! The shape of a machine: how wide its registers are and how many it has. Register values are bit
vectors of that width, so a machine cannot hold anything wider. -/
namespace Thumb

inductive Width
  | w16
  | w32
  | w48
  | w64
  deriving DecidableEq

namespace Width

def bits : Width → Nat
  | w16 => 16
  | w32 => 32
  | w48 => 48
  | w64 => 64

def ofBits? : Nat → Option Width
  | 16 => some w16
  | 32 => some w32
  | 48 => some w48
  | 64 => some w64
  | _ => none

@[simp] theorem ofBits?_bits (w : Width) : ofBits? w.bits = some w := by cases w <;> rfl

theorem ofBits?_eq_some_iff {n : Nat} {w : Width} : ofBits? n = some w ↔ n = w.bits := by
  constructor
  · intro h
    unfold ofBits? at h
    split at h <;> simp at h <;> subst h <;> rfl
  · rintro rfl
    exact ofBits?_bits w

end Width

/-- A register width and a number of numbered registers, at least sixteen. -/
structure Shape where
  width : Width
  registerCount : Nat
  sixteen_le : 16 ≤ registerCount

namespace Shape

def bits (s : Shape) : Nat := s.width.bits

def architectural (width : Width) : Shape := ⟨width, 16, Nat.le_refl 16⟩

theorem sixteen_le_bits (s : Shape) : 16 ≤ s.bits := by
  unfold bits
  cases s.width <;> decide

abbrev Word (s : Shape) : Type := BitVec s.bits

/-- The register contents that a number is stored as: its residue modulo `2 ^ s.bits`. -/
def word (s : Shape) (n : Nat) : s.Word := BitVec.ofNat s.bits n

@[simp] theorem word_toNat (s : Shape) (v : s.Word) : s.word v.toNat = v := by
  simp [word]

end Shape
end Thumb
