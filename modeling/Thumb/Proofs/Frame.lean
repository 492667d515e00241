import Thumb.Proofs.Comparison
import Thumb.Proofs.Computation
import Thumb.Proofs.DecodeTable
import Thumb.Proofs.ProgramLabels

/-! Frames and flags: the locations that an instruction leaves alone, and what it makes of the flags.
The instructions that change the flags are those whose name says so; they take two flags from a
result, three from a shift, or all four from a sum or difference. -/
namespace Thumb

/-- The locations that an instruction may change. -/
inductive Instruction.Touches {s : Shape} (i : Instruction) : Location s → Prop
  | counter : Touches i (Register.pc.location s)
  | destination {rd : Register} (h : i.destination? = some rd) : Touches i (rd.location s)
  | link (h : i.mnemonic = .bl ∨ i.mnemonic = .blx) : Touches i (Register.lr.location s)
  | special {special : SpecialRegister} {rn : Register} (h : i = .writeSpecial special rn) :
    Touches i (special.location s)
  | flags (h : i.mnemonic.setsFlags = true) (hm : i.mnemonic ≠ .msr) : Touches i .flags

namespace RegisterFile

variable {s : Shape} {f : RegisterFile s} {l : Location s} {rd : Register} {v : s.Word}

theorem load_set (h : l ≠ rd.location s) : (f.set rd v).load l = f.load l := by
  rw [← store_location, load_store_of_ne h]

theorem load_setFlags {flags : Flags} (h : l ≠ .flags) :
    (f.setFlags flags).load l = f.load l := by
  cases l with
  | flags => exact absurd rfl h
  | _ => rfl

theorem load_put (h : l ≠ rd.location s) : (f.put rd v).registers.load l = f.load l := by
  by_cases hrd : rd = .pc
  · rw [hrd]
    rfl
  · rw [put_of_ne hrd]
    exact load_set h

theorem load_putResult (h : l ≠ rd.location s) (hf : l ≠ .flags) :
    (f.putResult rd v).registers.load l = f.load l :=
  (load_put h).trans (load_setFlags hf)

theorem load_putShifted {v : Shifted s.bits} (h : l ≠ rd.location s) (hf : l ≠ .flags) :
    (f.putShifted rd v).registers.load l = f.load l :=
  (load_putResult h hf).trans (load_setFlags hf)

theorem load_putArith {op : Arith} {a b : s.Word} (h : l ≠ rd.location s) (hf : l ≠ .flags) :
    (f.putArith op rd a b).registers.load l = f.load l :=
  (load_put h).trans (load_setFlags hf)

/-- What an instruction does not touch it leaves as it was. -/
theorem load_effect (f : RegisterFile s) (target : ℕ) {i : Instruction} (h : ¬i.Touches l) :
    (f.effect target i).registers.load l = f.load l := by
  have hd : ∀ {rd}, i.destination? = some rd → l ≠ rd.location s := by
    rintro rd hrd rfl
    exact h (.destination hrd)
  have hf : i.mnemonic.setsFlags = true → i.mnemonic ≠ .msr → l ≠ .flags := by
    rintro hset hm rfl
    exact h (.flags hset hm)
  have hlink : i.mnemonic = .bl ∨ i.mnemonic = .blx → l ≠ Register.lr.location s := by
    rintro hm rfl
    exact h (.link hm)
  cases i with
  | add | subSp | move | reverse | extend | readSpecial => exact load_put (hd rfl)
  | multiply | moveSet | moveNot => exact load_putResult (hd rfl) (hf rfl nofun)
  | bitwise op => cases op <;> exact load_putResult (hd rfl) (hf rfl nofun)
  | shift op | shiftBy op => cases op <;> exact load_putShifted (hd rfl) (hf rfl nofun)
  | rotateBy => exact load_putShifted (hd rfl) (hf rfl nofun)
  | arith op => cases op <;> exact load_putArith (hd rfl) (hf rfl nofun)
  | negate => exact load_putArith (hd rfl) (hf rfl nofun)
  | addCarry op =>
    cases op <;> exact (load_setFlags (hf rfl nofun)).trans (load_set (hd rfl))
  | compare | compareSum | test => exact load_setFlags (hf rfl nofun)
  | writeSpecial special =>
    refine load_store_of_ne ?_ _ _
    rintro rfl
    exact h (.special rfl)
  | branch cond => cases hc : cond.holds f.flags <;> simp [effect, hc, jump, stay]
  | branchLink => exact load_set (hlink (.inl rfl))
  | branchLinkExchange => exact load_set (hlink (.inr rfl))
  | branchExchange | nop => rfl

theorem load_perform (f : RegisterFile s) (target : ℕ) {i : Instruction} (h : ¬i.Touches l) :
    (f.perform target i).load l = f.load l := by
  have hpc : l ≠ Register.pc.location s := by
    rintro rfl
    exact h .counter
  exact (load_set hpc).trans (load_effect f target h)

end RegisterFile

section Locations

variable {s : Shape} {i : Instruction}

/-- The numbered registers that an instruction may change are named by it, or are `PC`, or `LR` for
a branch with link, or `SP` under its name of main stack pointer. -/
theorem Instruction.Touches.exists_register {k : Fin s.registerCount} (h : i.Touches (.slot k)) :
    ∃ r, k = s.slot r ∧ (r = .pc ∨ i.destination? = some r ∨
      r = .lr ∧ (i.mnemonic = .bl ∨ i.mnemonic = .blx) ∨
      r = .sp ∧ ∃ rn, i = .writeSpecial .msp rn) := by
  generalize hl : Location.slot k = l at h
  cases h with
  | counter =>
    cases hl
    exact ⟨.pc, rfl, .inl rfl⟩
  | @destination rd h =>
    cases hl
    exact ⟨rd, rfl, .inr (.inl h)⟩
  | link h =>
    cases hl
    exact ⟨.lr, rfl, .inr (.inr (.inl ⟨rfl, h⟩))⟩
  | @special special rn h =>
    cases special <;> cases hl
    exact ⟨.sp, rfl, .inr (.inr (.inr ⟨rfl, rn, h⟩))⟩
  | flags => cases hl

/-- The registers that only `MSR` reaches are changed by no other instruction. -/
theorem Instruction.Touches.eq_writeSpecial {special : SpecialRegister}
    (hs : special = .psp ∨ special = .primask ∨ special = .control)
    (h : i.Touches (special.location s)) : ∃ rn, i = .writeSpecial special rn := by
  generalize hl : special.location s = l at h
  cases h with
  | counter | destination | link | flags => rcases hs with rfl | rfl | rfl <;> cases hl
  | @special other rn h =>
    refine ⟨rn, ?_⟩
    rcases hs with rfl | rfl | rfl <;> cases other <;> cases hl <;> exact h

theorem Instruction.Touches.setsFlags (h : i.Touches (.flags : Location s)) :
    i.mnemonic.setsFlags = true := by
  generalize hl : Location.flags = l at h
  cases h with
  | counter | destination | link => cases hl
  | special h => rw [h]; rfl
  | flags h => exact h

theorem Instruction.Touches.showsFlags {special : SpecialRegister} {rn : Register}
    (h : (Instruction.writeSpecial special rn).Touches (.flags : Location s)) :
    special.showsFlags = true := by
  generalize hl : Location.flags = l at h
  cases h with
  | counter | destination | link => cases hl
  | special h => cases h; cases special <;> cases hl <;> rfl
  | flags _ hm => exact absurd rfl hm

theorem Instruction.eq_writeSpecial_of_mnemonic (h : i.mnemonic = .msr) :
    ∃ special rn, i = .writeSpecial special rn := by
  cases i with
  | writeSpecial special rn => exact ⟨special, rn, rfl⟩
  | addCarry op | arith op | bitwise op | shift op | shiftBy op | reverse op | extend op =>
    cases op <;> cases h
  | _ => cases h

end Locations

namespace Mnemonic

/-- The instructions that take `N` and `Z` from a result and keep `C` and `V`. -/
def logical : List Mnemonic := [ands, bics, eors, orrs, mvns, movs, muls, tst]

def shifting : List Mnemonic := [lsls, lsrs, asrs, rors]

def arithmetic : List Mnemonic := [adds, adcs, subs, sbcs, rsbs, cmp, cmn]

end Mnemonic

namespace RegisterFile

variable {s : Shape}

/-- The word that an instruction of logic, a move or `MULS` comes to. -/
def logical? (f : RegisterFile s) : Instruction → Option s.Word
  | .multiply rdm rn => some (f.get rdm * f.get rn)
  | .bitwise op rdn rm => some (op.eval (f.get rdn) (f.get rm))
  | .moveSet _ source => some (f.value source)
  | .moveNot _ rm => some (~~~f.get rm)
  | .test rn rm => some (f.get rn &&& f.get rm)
  | _ => none

/-- The amount of a shift or rotate, and the shifted word with the bit it loses. -/
def shifted? (f : RegisterFile s) : Instruction → Option (ℕ × Shifted s.bits)
  | .shift op _ rm amount => some (amount, op.eval (f.get rm) amount)
  | .shiftBy op rdn rm => some (f.lowByte rm, op.eval (f.get rdn) (f.lowByte rm))
  | .rotateBy rdn rm => some (f.lowByte rm, rotateRight (f.get rdn) (f.lowByte rm))
  | _ => none

def arithFlags? (f : RegisterFile s) : Instruction → Option Flags
  | .addCarry op rdn rm =>
    some (Thumb.addWithCarry (f.get rdn) (op.addend (f.get rm)) f.flags.c).flags
  | .arith op _ rn source =>
    some (.ofArith op (f.get rn) (f.value source) (op.eval (f.get rn) (f.value source)))
  | .negate _ rn => some (.ofArith .sub 0 (f.get rn) (0 - f.get rn))
  | .compare rn source =>
    some (.ofArith .sub (f.get rn) (f.value source) (f.get rn - f.value source))
  | .compareSum rn rm => some (.ofArith .add (f.get rn) (f.get rm) (f.get rn + f.get rm))
  | _ => none

theorem flags_putResult (f : RegisterFile s) (rd : Register) (v : s.Word) :
    (f.putResult rd v).registers.flags = f.flags.withResult v := flags_put _ rd v

theorem flags_putArith (f : RegisterFile s) (op : Arith) (rd : Register) (a b : s.Word) :
    (f.putArith op rd a b).registers.flags = .ofArith op a b (op.eval a b) := flags_put _ rd _

theorem logical_flags (f : RegisterFile s) (target : ℕ) {i : Instruction}
    (h : i.mnemonic ∈ Mnemonic.logical) :
    ∃ v, f.logical? i = some v ∧
      (∀ rd, i.destination? = some rd → (f.perform target i).get rd = v) ∧
      (f.perform target i).flags = f.flags.withResult v := by
  cases i with
  | multiply | bitwise | moveSet | moveNot =>
    refine ⟨_, rfl, ?_, flags_putResult f _ _⟩
    rintro rd ⟨⟩
    exact get_perform_of_put rfl
  | test => exact ⟨_, rfl, nofun, rfl⟩
  | addCarry op | arith op | shift op | shiftBy op | reverse op | extend op =>
    cases op <;> simp [Instruction.mnemonic, Mnemonic.logical] at h
  | _ => simp [Instruction.mnemonic, Mnemonic.logical] at h

theorem shifting_flags (f : RegisterFile s) (target : ℕ) {i : Instruction}
    (h : i.mnemonic ∈ Mnemonic.shifting) :
    ∃ rd n v, i.destination? = some rd ∧ f.shifted? i = some (n, v) ∧
      (f.perform target i).get rd = v.value ∧
      (f.perform target i).flags =
        { f.flags with n := v.value.msb, z := v.value == 0, c := v.carry.getD f.flags.c } := by
  cases i with
  | shift | shiftBy | rotateBy =>
    exact ⟨_, _, _, rfl, rfl, get_perform_of_put rfl, flags_put _ _ _⟩
  | addCarry op | arith op | bitwise op | reverse op | extend op =>
    cases op <;> simp [Instruction.mnemonic, Mnemonic.shifting] at h
  | _ => simp [Instruction.mnemonic, Mnemonic.shifting] at h

theorem arithmetic_flags (f : RegisterFile s) (target : ℕ) {i : Instruction}
    (h : i.mnemonic ∈ Mnemonic.arithmetic) :
    f.arithFlags? i = some (f.perform target i).flags := by
  cases i with
  | arith | negate => exact congrArg some (flags_putArith f _ _ _ _).symm
  | addCarry | compare | compareSum => rfl
  | bitwise op | shift op | shiftBy op | reverse op | extend op =>
    cases op <;> simp [Instruction.mnemonic, Mnemonic.arithmetic] at h
  | _ => simp [Instruction.mnemonic, Mnemonic.arithmetic] at h

theorem isSome_carry_iff {f : RegisterFile s} {i : Instruction} {n : ℕ} {v : Shifted s.bits}
    (h : f.shifted? i = some (n, v)) : v.carry.isSome = true ↔ n ≠ 0 := by
  have hshift : ∀ (op : Shift) (x : s.Word) (n : ℕ), (op.eval x n).carry.isSome = true ↔ n ≠ 0 := by
    intro op x n
    by_cases hn : n = 0
    · simp [hn]
    · cases op <;> simp only [Shift.eval, if_neg hn] <;> (try split) <;> simpa using hn
  cases i with
  | shift | shiftBy => cases h; exact hshift _ _ _
  | rotateBy rdn rm =>
    cases h
    by_cases hn : f.lowByte rm = 0 <;> simp [rotateRight, hn]
  | _ => cases h

end RegisterFile

namespace Machine

variable {s : Shape}

/-- The name an accepted line is written with is that of its instruction. -/
theorem Reachable.mnemonic_eq {m : Machine s} (h : m.Reachable) {i : ℕ} {e : Entry}
    (he : m.program.get? i = some e) : e.instruction.mnemonic = e.mnemonic := by
  obtain ⟨-, parts, texts, tokens, -, -, -, -, htokens, hi⟩ :=
    Entry.parse_eq_ok_iff.mp (h.consistent.parse_source i e he)
  have hclassified : ∀ t ∈ tokens, t.IsClassified := by
    intro t ht
    exact ⟨_, exists_of_mem_results htokens ht⟩
  exact ((Instruction.decode_eq_ok_iff s.sixteen_le hclassified).mp hi).1

/-- What a step leaves alone and what it makes of the flags. Of the numbered registers only those
change that the instruction names as its destination, `PC`, `LR` in a branch with link, and `SP`
written as the main stack pointer; of the special ones only the one that `MSR` names; and of the
flags only those that the name of the instruction says: `N` and `Z` by the result, in a shift by a
positive amount also `C`, all four by a sum or difference, and by `MSR` only if the register it
names shows them. -/
theorem step_frame {m m' : Machine s} (h : m.Reachable) {e : Entry}
    (he : m.program.get? m.pc = some e) (hs : m.step = .ok (some m')) :
    (∀ k : Fin s.registerCount, m'.registers.slots.get k ≠ m.registers.slots.get k →
      ∃ r, k = s.slot r ∧ (r = .pc ∨ e.instruction.destination? = some r ∨
        r = .lr ∧ (e.mnemonic = .bl ∨ e.mnemonic = .blx) ∨
        r = .sp ∧ ∃ rn, e.instruction = .writeSpecial .msp rn)) ∧
    (∀ k : Fin s.registerCount, 16 ≤ k.val → m'.registers.slots.get k = m.registers.slots.get k) ∧
    m'.program = m.program ∧
    (∀ special, special = .psp ∨ special = .primask ∨ special = .control →
      m'.registers.load (special.location s) ≠ m.registers.load (special.location s) →
      e.mnemonic = .msr ∧ ∃ rn, e.instruction = .writeSpecial special rn) ∧
    (e.mnemonic.setsFlags = false → m'.registers.flags = m.registers.flags) ∧
    (e.mnemonic ∈ Mnemonic.logical → ∃ v, m.registers.logical? e.instruction = some v ∧
      (∀ rd, e.instruction.destination? = some rd → m'.registers.get rd = v) ∧
      m'.registers.flags = ⟨v.msb, v == 0, m.registers.flags.c, m.registers.flags.v⟩) ∧
    (e.mnemonic ∈ Mnemonic.shifting → ∃ rd n v, e.instruction.destination? = some rd ∧
      m.registers.shifted? e.instruction = some (n, v) ∧ m'.registers.get rd = v.value ∧
      (n = 0 → m'.registers.flags =
        ⟨v.value.msb, v.value == 0, m.registers.flags.c, m.registers.flags.v⟩) ∧
      (n ≠ 0 → ∃ c, v.carry = some c ∧
        m'.registers.flags = ⟨v.value.msb, v.value == 0, c, m.registers.flags.v⟩)) ∧
    (e.mnemonic ∈ Mnemonic.arithmetic →
      m.registers.arithFlags? e.instruction = some m'.registers.flags) ∧
    (e.mnemonic = .msr → ∃ special rn, e.instruction = .writeSpecial special rn ∧
      (m'.registers.flags ≠ m.registers.flags → special.showsFlags = true)) := by
  obtain ⟨e', m₁, he', hx, rfl⟩ := eq_of_step hs
  cases he.symm.trans he'
  obtain ⟨target, -, rfl⟩ := eq_of_execute hx
  have hm := h.mnemonic_eq he
  have htouch : ∀ l, (m.registers.perform target e.instruction).load l ≠ m.registers.load l →
      e.instruction.Touches l := by
    intro l hl
    by_contra hno
    exact hl (m.registers.load_perform target hno)
  have hslot : ∀ k : Fin s.registerCount,
      (m.registers.perform target e.instruction).slots.get k ≠ m.registers.slots.get k →
      ∃ r, k = s.slot r ∧ (r = .pc ∨ e.instruction.destination? = some r ∨
        r = .lr ∧ (e.mnemonic = .bl ∨ e.mnemonic = .blx) ∨
        r = .sp ∧ ∃ rn, e.instruction = .writeSpecial .msp rn) := by
    intro k hk
    rw [← hm]
    exact (htouch (.slot k) hk).exists_register
  have hflags : (m.registers.perform target e.instruction).flags ≠ m.registers.flags →
      e.instruction.Touches (.flags : Location s) := by
    intro hne
    refine htouch .flags fun heq => hne ?_
    have hbits : 4 ≤ s.bits := le_trans (by decide) s.sixteen_le_bits
    rw [← Flags.ofWord_word hbits (m.registers.perform target e.instruction).flags]
    exact (congrArg Flags.ofWord heq).trans (Flags.ofWord_word hbits _)
  refine ⟨hslot, ?_, rfl, ?_, ?_, ?_, ?_, ?_, ?_⟩
  · intro k hk
    by_contra hne
    obtain ⟨r, rfl, -⟩ := hslot k hne
    exact absurd r.index_lt (Nat.not_lt.mpr hk)
  · intro special hspecial hne
    obtain ⟨rn, hi⟩ := (htouch _ hne).eq_writeSpecial hspecial
    rw [← hm, hi]
    exact ⟨rfl, rn, rfl⟩
  · intro hset
    by_contra hne
    rw [← hm, (hflags hne).setsFlags] at hset
    cases hset
  · intro hlogical
    exact m.registers.logical_flags target (hm ▸ hlogical)
  · intro hshifting
    obtain ⟨rd, n, v, hrd, hv, hget, hnew⟩ := m.registers.shifting_flags target (hm ▸ hshifting)
    refine ⟨rd, n, v, hrd, hv, hget, ?_, ?_⟩
    · intro hn
      have hcarry : v.carry = none := by
        rw [← Option.not_isSome_iff_eq_none, RegisterFile.isSome_carry_iff hv, not_not]
        exact hn
      rw [hcarry] at hnew
      exact hnew
    · intro hn
      obtain ⟨c, hcarry⟩ := Option.isSome_iff_exists.mp ((RegisterFile.isSome_carry_iff hv).mpr hn)
      rw [hcarry] at hnew
      exact ⟨c, hcarry, hnew⟩
  · intro harith
    exact m.registers.arithmetic_flags target (hm ▸ harith)
  · intro hmsr
    obtain ⟨special, rn, hi⟩ : ∃ special rn, e.instruction = .writeSpecial special rn :=
      Instruction.eq_writeSpecial_of_mnemonic (hm.trans hmsr)
    refine ⟨special, rn, hi, ?_⟩
    intro hne
    exact (hi ▸ hflags hne).showsFlags

/-- A machine of sixteen bits about to rotate by an amount whose low byte is zero. -/
def rotating : Machine (.architectural .w16) :=
  (new _).afterAll [.assemble " RORS R1, R1, R2", .edit (.named "R1" 0x8001),
    .edit (.named "R2" 0x100), .edit (.flag .c true)]

theorem step_frame_rotating : rotating.Reachable ∧ ∃ m', rotating.step = .ok (some m') ∧
    m'.registers.flags = ⟨true, false, true, false⟩ ∧
    ∀ k : Fin 16, m'.registers.slots[k] ≠ rotating.registers.slots[k] → k.val = 15 ∨ k.val = 1 := by
  have h : rotating.Reachable := Reachable.new.afterAll _
  have he : rotating.program.get? rotating.pc =
      some ⟨" RORS R1, R1, R2", none, .rors, .rotateBy .r1 .r2⟩ := by decide +kernel
  have hs : rotating.step = .ok (some (rotating.after .step)) := by decide +kernel
  have hamount : rotating.registers.shifted? (.rotateBy .r1 .r2) = some (0, ⟨0x8001, none⟩) := by
    decide +kernel
  obtain ⟨hslots, -, -, -, -, -, hshifts, -, -⟩ := step_frame h he hs
  obtain ⟨rd, n, v, -, hv, -, hzero, -⟩ := hshifts (by decide)
  cases hamount.symm.trans hv
  have hflags : rotating.registers.flags = ⟨false, false, true, false⟩ := by decide +kernel
  refine ⟨h, _, hs, ?_, ?_⟩
  · rw [hzero rfl, hflags]
    rfl
  · intro k hk
    obtain ⟨r, rfl, rfl | hr | ⟨-, hr | hr⟩ | ⟨-, rn, hr⟩⟩ := hslots k hk
    · exact .inl rfl
    · cases hr
      exact .inr rfl
    all_goals cases hr

end Machine
end Thumb
