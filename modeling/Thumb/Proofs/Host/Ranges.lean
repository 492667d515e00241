import Thumb.Proofs.Extensions
import Thumb.Proofs.Host.FlagWrites
import Thumb.Proofs.Traces

/-! Ranges of machine arithmetic. The computer traps on a shift by 64 bits or more, on a difference
below zero, on a count or a sum that does not fit, on a remainder by zero and on a register past the
last. Every amount is tested before it is used, whatever word it is used on, so that on a machine of
one of the register widths none of this ever happens. -/
namespace Thumb
namespace Host

section Words

variable {w : ℕ} (hw : w ≤ 64)

include hw

theorem isSome_move? (hpos : 0 < w) (k : Moving) (u mask : Word) (n : ℕ) :
    (move? k u n w mask).isSome := by
  rw [Option.isSome_iff_exists]
  cases k with
  | shift op =>
    cases op with
    | lsl => exact ⟨_, lsl?_eq hw u mask n⟩
    | lsr => exact ⟨_, lsr?_eq hw u n⟩
    | asr => exact ⟨_, asr?_eq hw hpos u mask n⟩
  | rotate =>
    change ∃ a, ror? u n w mask = some a
    unfold ror?
    split
    · exact ⟨_, rfl⟩
    · rw [mod?, if_neg (Nat.ne_of_gt hpos), minus?_of_le hpos]
      simp only [Option.bind_eq_bind, Option.bind_some, turn?_eq hw (Nat.mod_lt n hpos),
        bit?_of_lt (show w - 1 < 64 by omega)]
      exact ⟨_, rfl⟩

theorem isSome_reverseBytes? (u : Word) : (reverseBytes? u w).isSome :=
  Option.isSome_iff_exists.mpr ⟨_, reverseBytes?_eq hw u⟩

theorem isSome_reverseHalfwords? (u : Word) : (reverseHalfwords? u w).isSome :=
  Option.isSome_iff_exists.mpr ⟨_, reverseHalfwords?_eq hw u⟩

end Words

/-- A sum in a word of 128 bits. -/
def wide? (n : ℕ) : Option ℕ := if n < 2 ^ 128 then some n else none

theorem wide?_sum (x y : Word) (carry : Bool) :
    wide? (x.toNat + y.toNat + carry.toNat) = some (x.toNat + y.toNat + carry.toNat) := by
  have hx := x.isLt
  have hy := y.isLt
  have hcarry := carry.toNat_le
  exact if_pos (by omega)

namespace Bank

def wideCarry? (b : Bank) (op : Arith) (x y : Word) : Option Bool := do
  let mask ← b.mask?
  let x := x &&& mask
  let y := y &&& mask
  match op with
  | .add => return mask.toNat < (← wide? (x.toNat + y.toNat))
  | .sub => return y ≤ x

def wideAddWithCarry? (b : Bank) (x y : Word) (carry : Bool) : Option (Word × Bool × Bool) := do
  let mask ← b.mask?
  let x := x &&& mask
  let y := y &&& mask
  let sum ← wide? ((← wide? (x.toNat + y.toNat)) + carry.toNat)
  let result := BitVec.ofNat 64 sum &&& mask
  let xSign ← b.isNegative? x
  let ySign ← b.isNegative? y
  let sign ← b.isNegative? result
  return (result, mask.toNat < sum, xSign == ySign && sign != xSign)

theorem wideCarry?_eq (b : Bank) (op : Arith) (x y : Word) :
    b.wideCarry? op x y = b.carry? op x y := by
  unfold wideCarry? carry?
  congr 1
  funext mask
  have hsum := wide?_sum (x &&& mask) (y &&& mask) false
  rw [Bool.toNat_false, Nat.add_zero] at hsum
  cases op with
  | add => simp only [hsum, Option.bind_eq_bind, Option.bind_some]
  | sub => rfl

theorem wideAddWithCarry?_eq (b : Bank) (x y : Word) (carry : Bool) :
    b.wideAddWithCarry? x y carry = b.addWithCarry? x y carry := by
  unfold wideAddWithCarry? addWithCarry?
  congr 1
  funext mask
  have hsum := wide?_sum (x &&& mask) (y &&& mask) false
  rw [Bool.toNat_false, Nat.add_zero] at hsum
  simp only [hsum, wide?_sum, Option.bind_eq_bind, Option.bind_some]

/-- No operation on the registers traps, but for the extension of a field of no bits. There is a
last register, the number of which a refusal of a higher one reports. -/
structure NeverTraps (b : Bank) : Prop where
  mask : b.mask?.isSome
  read : ∀ r : Register, (b.read? r.index).isSome
  write : ∀ (r : Register) u, (b.write? r.index u).isSome
  getNamed : ∀ name, (b.getNamed? name).isSome
  setNamed : ∀ name u, (b.setNamed? name u).isSome
  last : (minus? b.words.size 1).isSome
  readSpecial : ∀ r, (b.readSpecial? r).isSome
  writeSpecial : ∀ r u, (b.writeSpecial? r u).isSome
  flagMask : ∀ flag, (b.flagMask? flag).isSome
  isSet : ∀ flag, (b.isSet? flag).isSome
  setFlag : ∀ flag value, (b.setFlag? flag value).isSome
  setFlags : ∀ flags, (b.setFlags? flags).isSome
  setFrom : ∀ op x y result flag, (b.setFrom? op x y result flag).isSome
  setNZ : ∀ result, (b.setNZ? result).isSome
  setNZCV : ∀ op x y result, (b.setNZCV? op x y result).isSome
  isNegative : ∀ u, (b.isNegative? u).isSome
  addWithCarry : ∀ x y carry, (b.addWithCarry? x y carry).isSome
  signExtend : ∀ u bits, (b.signExtend? u bits).isSome ↔ 0 < bits

end Bank

variable {s : Shape}

theorem neverTraps_pack (f : RegisterFile s) : (pack f).NeverTraps where
  mask := by simp
  read := fun r => Option.isSome_iff_exists.mpr ⟨_, read?_pack f (s.slot r)⟩
  write := fun r u => Option.isSome_iff_exists.mpr ⟨_, write?_pack f (s.slot r) u⟩
  getNamed := by simp [getNamed?_pack]
  setNamed := by simp [setNamed?_pack]
  last := by
    have hs := s.sixteen_le
    rw [size_pack, minus?_of_le (by omega)]
    rfl
  readSpecial := by simp
  writeSpecial := by simp
  flagMask := by simp
  isSet := by simp
  setFlag := by simp
  setFlags := by simp
  setFrom := by
    intro op x y result flag
    cases flag <;> simp [Bank.setFrom?]
  setNZ := by simp
  setNZCV := by simp
  isNegative := by simp
  addWithCarry := by simp [addWithCarry?_pack]
  signExtend := by
    intro u bits
    constructor
    · intro h
      by_contra hzero
      obtain rfl : bits = 0 := by omega
      rw [Bank.signExtend?_pack_zero] at h
      cases h
    · intro hpos
      rw [Bank.signExtend?_pack f hpos]
      rfl

/-- Whatever has been done to a new machine, no call traps, be it an operation on its registers, an
instruction with any registers and numbers, a step or a run, nor does any shift, rotation or reversal
of any word by any amount. A sum checked to fit is the sum. A step counts one at most. -/
theorem nothing_traps {c : Config} (hc : c.shape = .ok s) (calls : List (Call s)) :
    ∃ h, (State.new c).afterAll calls = some h ∧ h.bank.NeverTraps ∧
      (∀ i, ∃ outcome h', h.execute i = some (outcome, h') ∧ h'.executed = h.executed) ∧
      (∃ outcome h', h.step = some (outcome, h') ∧ h'.executed ≤ h.executed + 1) ∧
      (∀ fuel, (h.run fuel).isSome) ∧
      (∀ (k : Moving) u n mask, (move? k u n c.bitWidth mask).isSome) ∧
      (∀ u, (reverseBytes? u c.bitWidth).isSome ∧ (reverseHalfwords? u c.bitWidth).isSome ∧
        (reverseHalfwords? u 16).isSome) ∧
      ∀ (b : Bank) x y, (∀ op, b.wideCarry? op x y = b.carry? op x y) ∧
        ∀ carry, b.wideAddWithCarry? x y carry = b.addWithCarry? x y carry := by
  obtain ⟨hbits, -⟩ := Shape.eq_of_ofSizes hc
  have hw := s.bits_le
  have hpos : 0 < s.bits := lt_of_lt_of_le (by decide) s.sixteen_le_bits
  rw [new_eq_embed hc, ← hbits, afterAll_embed]
  refine ⟨_, rfl, neverTraps_pack _, ?_, ?_, ?_, ?_, ?_, ?_⟩
  · intro i
    rw [execute_embed]
    cases hx : ((Machine.new s).afterAll calls).execute i with
    | error e => exact ⟨_, _, rfl, rfl⟩
    | ok m' =>
      obtain ⟨target, -, rfl⟩ := Machine.eq_of_execute hx
      exact ⟨_, _, rfl, rfl⟩
  · rw [step_embed]
    cases hstep : ((Machine.new s).afterAll calls).step with
    | error e => exact ⟨_, _, rfl, Nat.le_succ _⟩
    | ok next =>
      cases next with
      | none => exact ⟨_, _, rfl, Nat.le_succ _⟩
      | some m' => exact ⟨_, _, rfl, (Machine.executed_step hstep).le⟩
  · intro fuel
    rw [run_embed]
    rfl
  · intro k u n mask
    exact isSome_move? hw hpos k u mask n
  · intro u
    exact ⟨isSome_reverseBytes? hw u, isSome_reverseHalfwords? hw u,
      isSome_reverseHalfwords? (by decide) u⟩
  · intro b x y
    exact ⟨fun op => b.wideCarry?_eq op x y, b.wideAddWithCarry?_eq x y⟩

/-- Registers as wide as the words that hold them, one of them full and one with an amount that is
the width. -/
def brimful : List (Call (.architectural .w64)) :=
  [.edit (.named "R0" 0xffffffffffffffff), .edit (.named "R1" 64), .edit (.flag .c true)]

theorem nothing_traps_brimful :
    Config.shape { bitWidth := 64 } = .ok (.architectural .w64) ∧ ∃ h : State,
      (State.new { bitWidth := 64 }).afterAll brimful = some h ∧
      (∃ outcome h', h.execute (.shiftBy .lsl .r0 .r1) = some (outcome, h')) ∧
      (∃ outcome h', h.execute (.addCarry .add .r0 .r0) = some (outcome, h')) ∧
      (h.bank.signExtend? 0xffffffffffffffff 64).isSome ∧
      (move? (.shift .asr) 0x8000000000000000 0xffffffffffffffff 64 0).isSome := by
  have hc : Config.shape { bitWidth := 64 } = .ok (.architectural .w64) := rfl
  obtain ⟨h, hafter, hbank, hexecute, -, -, hmove, -⟩ := nothing_traps hc brimful
  obtain ⟨outcome, h', hshift, -⟩ := hexecute (.shiftBy .lsl .r0 .r1)
  obtain ⟨outcome', h'', hsum, -⟩ := hexecute (.addCarry .add .r0 .r0)
  exact ⟨hc, h, hafter, ⟨outcome, h', hshift⟩, ⟨outcome', h'', hsum⟩,
    (hbank.signExtend _ 64).mpr (by decide), hmove (.shift .asr) _ _ _⟩

end Host
end Thumb
