import Mathlib.Data.Nat.ModEq
import Thumb.Proofs.Extensions
import Thumb.Proofs.Host.FlagWrites

/-! Numbers with more bits than a register. Of a number that is written, compared, added or extended
only the residue modulo two to the register width counts: replacing it by a congruent one changes
neither what is returned nor what is left behind, in a single operation as in a history of any
length. -/
namespace Thumb

variable {s : Shape}

def Operand.reduce (w : ℕ) : Operand → Operand
  | .register r => .register r
  | .immediate n => .immediate (n % 2 ^ w)

/-- The instruction, the number that it moves, adds, subtracts or compares with cut to `w` bits. -/
def Instruction.reduce (w : ℕ) : Instruction → Instruction
  | .add rd rn source => .add rd rn (source.reduce w)
  | .arith op rd rn source => .arith op rd rn (source.reduce w)
  | .moveSet rd source => .moveSet rd (source.reduce w)
  | .compare rn source => .compare rn (source.reduce w)
  | .subSp n => .subSp (n % 2 ^ w)
  -- the amount of a shift is no such number: it counts as a whole
  | i => i

def Edit.reduce (w : ℕ) : Edit s → Edit s
  | .location l n => .location l (n % 2 ^ w)
  | .named name n => .named name (n % 2 ^ w)
  | .negative r => .negative (r % 2 ^ w)
  | .zero r => .zero (r % 2 ^ w)
  | .carry op a b => .carry op (a % 2 ^ w) (b % 2 ^ w)
  | .overflow op a b r => .overflow op (a % 2 ^ w) (b % 2 ^ w) (r % 2 ^ w)
  | .result r => .result (r % 2 ^ w)
  | .arith op a b r => .arith op (a % 2 ^ w) (b % 2 ^ w) (r % 2 ^ w)
  | e => e

def Call.reduce (w : ℕ) : Call s → Call s
  | .execute i => .execute (i.reduce w)
  | .edit e => .edit (e.reduce w)
  | call => call

@[simp] theorem Shape.word_mod (s : Shape) (n : ℕ) : s.word (n % 2 ^ s.bits) = s.word n := by
  apply BitVec.eq_of_toNat_eq
  simp [word]

@[simp] theorem Instruction.label?_reduce (w : ℕ) (i : Instruction) :
    (i.reduce w).label? = i.label? := by cases i <;> rfl

namespace RegisterFile

variable (f : RegisterFile s)

@[simp] theorem value_reduce (source : Operand) : f.value (source.reduce s.bits) = f.value source := by
  cases source with
  | register r => rfl
  | immediate n => exact s.word_mod n

theorem effect_reduce (target : ℕ) (i : Instruction) :
    f.effect target (i.reduce s.bits) = f.effect target i := by
  cases i <;> simp [Instruction.reduce, effect]

@[simp] theorem write_mod (l : Location s) (n : ℕ) : f.write l (n % 2 ^ s.bits) = f.write l n := by
  simp [write]

theorem edit_reduce (e : Edit s) : f.edit (e.reduce s.bits) = f.edit e := by
  cases e <;> simp [Edit.reduce, edit, writeNamed, setN, setZ, setC, setV, setNZ, setNZCV,
    Shape.isNegative]

end RegisterFile

namespace Machine

variable (m : Machine s)

theorem execute_reduce (i : Instruction) : m.execute (i.reduce s.bits) = m.execute i := by
  simp only [execute, target, Instruction.label?_reduce, RegisterFile.perform,
    RegisterFile.effect_reduce]

theorem after_reduce (call : Call s) : m.after (call.reduce s.bits) = m.after call := by
  cases call with
  | execute i => rw [Call.reduce, after, execute_reduce, after]
  | edit e => rw [Call.reduce, after, RegisterFile.edit_reduce, after]
  | assemble | step | run => rfl

theorem afterAll_map_reduce (calls : List (Call s)) :
    m.afterAll (calls.map (Call.reduce s.bits)) = m.afterAll calls := by
  induction calls generalizing m with
  | nil => rfl
  | cons call calls ih =>
    rw [List.map_cons, afterAll_cons, afterAll_cons, after_reduce]
    exact ih _

end Machine

namespace Host

/-- A register of `w` bits cannot tell the words apart. -/
def Alike (w : ℕ) (u u' : Word) : Prop := u.toNat ≡ u'.toNat [MOD 2 ^ w]

theorem alike_iff {w : ℕ} {u u' : Word} : Alike w u u' ↔ narrow w u = narrow w u' := by
  rw [Alike, Nat.ModEq, ← toNat_narrow, ← toNat_narrow]
  exact BitVec.toNat_inj

theorem Alike.of_le {w k : ℕ} {u u' : Word} (h : Alike w u u') (hk : k ≤ w) : Alike k u u' :=
  Nat.ModEq.of_dvd (Nat.pow_dvd_pow 2 hk) h

/-- Both have an outcome, and it is the same. -/
def Same {α : Type} (x y : Option α) : Prop := ∃ a, x = some a ∧ y = some a

theorem same_of_eq {α : Type} {x y : Option α} {a : α} (hx : x = some a) (h : x = y) : Same x y :=
  ⟨a, hx, h ▸ hx⟩

/-- What a word has beyond `w` bits does not count: words that are alike have the same outcome
wherever they are tested, written, added or extended, and where they set flags. -/
structure Bank.IgnoresExcess (b : Bank) (w : ℕ) : Prop where
  negative : ∀ u u', Alike w u u' → Same (b.isNegative? u) (b.isNegative? u')
  single : ∀ op x x' y y' r r' flag, Alike w x x' → Alike w y y' → Alike w r r' →
    Same (b.setFrom? op x y r flag) (b.setFrom? op x' y' r' flag)
  result : ∀ r r', Alike w r r' → Same (b.setNZ? r) (b.setNZ? r')
  together : ∀ op x x' y y' r r', Alike w x x' → Alike w y y' → Alike w r r' →
    Same (b.setNZCV? op x y r) (b.setNZCV? op x' y' r')
  sum : ∀ x x' y y' carry, Alike w x x' → Alike w y y' →
    Same (b.addWithCarry? x y carry) (b.addWithCarry? x' y' carry)
  numbered : ∀ i u u', i < b.words.size → Alike w u u' → Same (b.write? i u) (b.write? i u')
  special : ∀ r u u', Alike w u u' → Same (b.writeSpecial? r u) (b.writeSpecial? r u')
  named : ∀ name u u', Alike w u u' → Same (b.setNamed? name u) (b.setNamed? name u')
  extended : ∀ bits u u', bits ≤ w → Alike w u u' →
    b.signExtend? u bits = b.signExtend? u' bits ∧ (0 < bits → ∃ v, b.signExtend? u bits = some v)

theorem ignoresExcess_pack (f : RegisterFile s) : (pack f).IgnoresExcess s.bits where
  negative := by
    intro u u' hu
    refine same_of_eq (isNegative?_pack f u) ?_
    rw [isNegative?_pack, isNegative?_pack, alike_iff.mp hu]
  single := by
    intro op x x' y y' r r' flag hx hy hr
    rw [alike_iff] at hx hy hr
    cases flag with
    | n => exact ⟨_, setN?_pack f r, hr ▸ setN?_pack f r'⟩
    | z => exact ⟨_, setZ?_pack f r, hr ▸ setZ?_pack f r'⟩
    | c => exact ⟨_, setC?_pack f op x y, hx ▸ hy ▸ setC?_pack f op x' y'⟩
    | v => exact ⟨_, setV?_pack f op x y r, hx ▸ hy ▸ hr ▸ setV?_pack f op x' y' r'⟩
  result := by
    intro r r' hr
    refine same_of_eq (setNZ?_pack f r) ?_
    rw [setNZ?_pack, setNZ?_pack, alike_iff.mp hr]
  together := by
    intro op x x' y y' r r' hx hy hr
    refine same_of_eq (setNZCV?_pack f op x y r) ?_
    rw [setNZCV?_pack, setNZCV?_pack, alike_iff.mp hx, alike_iff.mp hy, alike_iff.mp hr]
  sum := by
    intro x x' y y' carry hx hy
    refine same_of_eq (addWithCarry?_pack f x y carry) ?_
    rw [addWithCarry?_pack, addWithCarry?_pack, alike_iff.mp hx, alike_iff.mp hy]
  numbered := by
    intro i u u' hi hu
    rw [size_pack] at hi
    refine same_of_eq (write?_pack f ⟨i, hi⟩ u) ?_
    rw [write?_pack f ⟨i, hi⟩, write?_pack f ⟨i, hi⟩, alike_iff.mp hu]
  special := by
    intro r u u' hu
    refine same_of_eq (writeSpecial?_pack f r u) ?_
    rw [writeSpecial?_pack, writeSpecial?_pack, alike_iff.mp hu]
  named := by
    intro name u u' hu
    refine same_of_eq (setNamed?_pack f name u) ?_
    have hword : s.word u.toNat = s.word u'.toNat := by
      rw [word_toNat_eq, word_toNat_eq, alike_iff.mp hu]
    simp only [setNamed?_pack, RegisterFile.writeNamed, RegisterFile.write, hword]
  extended := by
    intro bits u u' hbits hu
    rcases Nat.eq_zero_or_pos bits with rfl | hpos
    · refine ⟨?_, fun h => absurd h (lt_irrefl 0)⟩
      rw [Bank.signExtend?_pack_zero, Bank.signExtend?_pack_zero]
    · -- A field that lies within the register is the same in both words.
      have hfield : narrow (min bits 64) u = narrow (min bits 64) u' :=
        alike_iff.mp (hu.of_le (le_trans (Nat.min_le_left bits 64) hbits))
      refine ⟨?_, fun _ => ⟨_, Bank.signExtend?_pack f hpos u⟩⟩
      rw [Bank.signExtend?_pack f hpos, Bank.signExtend?_pack f hpos, hfield]

/-- Whatever has been done to a new machine, it takes numbers modulo two to the register width: in
every operation on its registers, in the immediates of the instructions it executes, and in what has
been done to it, which leaves the same machine with any other numbers congruent to those given. -/
theorem excess_is_ignored {c : Config} (hc : c.shape = .ok s) (calls : List (Call s)) :
    ∃ h, (State.new c).afterAll calls = some h ∧ h.bank.IgnoresExcess c.bitWidth ∧
      (∀ i : Instruction, Same (h.execute i) (h.execute (i.reduce c.bitWidth))) ∧
      ∀ calls' : List (Call s),
        calls'.map (Call.reduce c.bitWidth) = calls.map (Call.reduce c.bitWidth) →
        (State.new c).afterAll calls' = some h := by
  obtain ⟨hbits, -⟩ := Shape.eq_of_ofSizes hc
  rw [new_eq_embed hc, ← hbits, afterAll_embed]
  refine ⟨_, rfl, ignoresExcess_pack _, ?_, ?_⟩
  · intro i
    refine same_of_eq (execute_embed _ i) ?_
    rw [execute_embed, execute_embed, Machine.execute_reduce]
  · intro calls' hcalls
    rw [afterAll_embed, ← Machine.afterAll_map_reduce, hcalls, Machine.afterAll_map_reduce]

theorem excess_is_ignored_overfull :
    Config.shape { bitWidth := 16 } = .ok (.architectural .w16) ∧ ∃ h : State,
      (State.new { bitWidth := 16 }).afterAll overfull = some h ∧
      (State.new { bitWidth := 16 }).afterAll (overfull.map (Call.reduce 16)) = some h ∧
      h.bank.words[1]? = some 1 ∧
      Same (h.bank.addWithCarry? 0x1ffff 0x30001 true) (h.bank.addWithCarry? 0xffff 1 true) ∧
      Same (h.execute (.compare .r1 (.immediate 0x10002)))
        (h.execute (.compare .r1 (.immediate 2))) := by
  have hc : Config.shape { bitWidth := 16 } = .ok (.architectural .w16) := rfl
  obtain ⟨h, hafter, hignores, hexecute, hcongruent⟩ := excess_is_ignored hc overfull
  have hreduced := hcongruent (overfull.map (Call.reduce 16)) rfl
  have hone : ((State.new { bitWidth := 16 }).afterAll overfull).bind (·.bank.words[1]?) =
      some 1 := by decide +kernel
  rw [hafter] at hone
  exact ⟨hc, h, hafter, hreduced, hone, hignores.sum _ _ _ _ _ rfl rfl, hexecute _⟩

end Host
end Thumb
