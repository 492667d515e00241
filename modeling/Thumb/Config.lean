import Thumb.Error
import Thumb.Shape

/-! Configurations, and the machine shapes they describe. Only the register width and the register
count matter; the other settings are reserved for a data memory. -/
namespace Thumb

structure Config where
  bitWidth : Nat := 32
  registerCount : Nat := 16
  memorySize : Nat := 1024
  wordSize : Nat := 8
  strict : Bool := false
  deriving DecidableEq

/-- The shape with the given register width and count; a bad width is reported first. -/
def Shape.ofSizes (bits count : Nat) : Except ConfigError Shape :=
  match Width.ofBits? bits with
  | none => .error (.badWidth bits)
  | some width =>
    if h : 16 ≤ count then .ok ⟨width, count, h⟩ else .error (.tooFewRegisters count)

def Config.shape (c : Config) : Except ConfigError Shape :=
  Shape.ofSizes c.bitWidth c.registerCount

@[simp] theorem Shape.ofSizes_self (s : Shape) : ofSizes s.bits s.registerCount = .ok s := by
  simp [ofSizes, bits, s.sixteen_le]

theorem Shape.eq_of_ofSizes {bits count : Nat} {s : Shape} (h : ofSizes bits count = .ok s) :
    s.bits = bits ∧ s.registerCount = count := by
  unfold ofSizes at h
  split at h
  · cases h
  · next width hw =>
    split at h
    · cases h
      exact ⟨(Width.ofBits?_eq_some_iff.mp hw).symm, rfl⟩
    · cases h

end Thumb
