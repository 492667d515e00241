import Mathlib.Data.Nat.Digits.Defs
import Thumb.Proofs.Comparison
import Thumb.Proofs.Computation

/-! Arithmetic on numbers of several words. `ADCS` and `SBCS` take the carry that the pair of limbs
before them left, so that a chain of them adds or subtracts numbers of any length, and the flags
after the last pair are those of the whole sum or difference. -/
namespace Thumb

/-- The number `r` and the flags `f` are what adding `a`, `b` and a carry leaves in `n` bits. -/
structure WideSum (n a b : ℕ) (carry : Bool) (r : ℕ) (f : Flags) : Prop where
  lt_left : a < 2 ^ n
  lt_right : b < 2 ^ n
  lt_result : r < 2 ^ n
  sum : r + 2 ^ n * f.c.toNat = a + b + carry.toNat
  negative : f.n = true ↔ 2 ^ (n - 1) ≤ r
  overflow : f.v = true ↔
    (2 ^ (n - 1) ≤ a ↔ 2 ^ (n - 1) ≤ b) ∧ ¬(2 ^ (n - 1) ≤ r ↔ 2 ^ (n - 1) ≤ a)

theorem wideSum_addWithCarry {w : ℕ} (a b : BitVec w) (carry : Bool) :
    WideSum w a.toNat b.toNat carry (addWithCarry a b carry).result.toNat
      (addWithCarry a b carry).flags := by
  refine ⟨a.isLt, b.isLt, (addWithCarry a b carry).result.isLt, ?_, ?_, ?_⟩
  · have ha := a.isLt
    have hb := b.isLt
    have hbit := carry.toNat_le
    have hresult : (addWithCarry a b carry).result.toNat =
        (a.toNat + b.toNat + carry.toNat) % 2 ^ w := by
      simp [addWithCarry, BitVec.toNat_add]
    have hcarry : (addWithCarry a b carry).flags.c =
        decide (2 ^ w ≤ a.toNat + b.toNat + carry.toNat) := by
      simp [CarrySum.flags, addWithCarry, BitVec.carry, Nat.mod_eq_of_lt ha, Nat.mod_eq_of_lt hb]
    rw [hresult, hcarry]
    by_cases hle : 2 ^ w ≤ a.toNat + b.toNat + carry.toNat
    · have hmod : (a.toNat + b.toNat + carry.toNat) % 2 ^ w =
          a.toNat + b.toNat + carry.toNat - 2 ^ w := by
        rw [Nat.mod_eq_sub_mod hle, Nat.mod_eq_of_lt (by omega)]
      rw [hmod, decide_eq_true hle, Bool.toNat_true, Nat.mul_one]
      omega
    · rw [Nat.mod_eq_of_lt (by omega), decide_eq_false hle, Bool.toNat_false, Nat.mul_zero,
        Nat.add_zero]
  · simp [CarrySum.flags, BitVec.msb_eq_decide]
  · simp [CarrySum.flags, addWithCarry, Arith.overflow, BitVec.msb_eq_decide]

/-- Whether the top bit is set is decided by the limbs above the first. -/
theorem half_le_iff {w n d x : ℕ} (hn : 0 < n) (hd : d < 2 ^ w) :
    2 ^ (w + n - 1) ≤ d + 2 ^ w * x ↔ 2 ^ (n - 1) ≤ x := by
  have hexp : w + n - 1 = w + (n - 1) := by omega
  rw [hexp, pow_add]
  constructor
  · intro h
    by_contra hlt
    have hle : 2 ^ w * (x + 1) ≤ 2 ^ w * 2 ^ (n - 1) := Nat.mul_le_mul_left _ (by omega)
    rw [Nat.mul_succ] at hle
    omega
  · intro h
    exact (Nat.mul_le_mul_left _ h).trans (Nat.le_add_left _ _)

theorem lt_two_pow_add {w n d x : ℕ} (hd : d < 2 ^ w) (hx : x < 2 ^ n) :
    d + 2 ^ w * x < 2 ^ (w + n) := by
  have hle : 2 ^ w * (x + 1) ≤ 2 ^ w * 2 ^ n := Nat.mul_le_mul_left _ hx
  rw [Nat.mul_succ] at hle
  rw [pow_add]
  omega

/-- A sum that takes the carry of the limbs below it completes the sum of the whole numbers. -/
theorem WideSum.chain {w n a b r a' b' r' : ℕ} {carry : Bool} {f f' : Flags} (hn : 0 < n)
    (h : WideSum w a b carry r f) (h' : WideSum n a' b' f.c r' f') :
    WideSum (w + n) (a + 2 ^ w * a') (b + 2 ^ w * b') carry (r + 2 ^ w * r') f' := by
  refine ⟨lt_two_pow_add h.lt_left h'.lt_left, lt_two_pow_add h.lt_right h'.lt_right,
    lt_two_pow_add h.lt_result h'.lt_result, ?_, ?_, ?_⟩
  · calc r + 2 ^ w * r' + 2 ^ (w + n) * f'.c.toNat
        = r + 2 ^ w * (r' + 2 ^ n * f'.c.toNat) := by ring
      _ = r + 2 ^ w * (a' + b' + f.c.toNat) := by rw [h'.sum]
      _ = (r + 2 ^ w * f.c.toNat) + 2 ^ w * a' + 2 ^ w * b' := by ring
      _ = a + 2 ^ w * a' + (b + 2 ^ w * b') + carry.toNat := by rw [h.sum]; ring
  · rw [half_le_iff hn h.lt_result]
    exact h'.negative
  · rw [half_le_iff hn h.lt_left, half_le_iff hn h.lt_right, half_le_iff hn h.lt_result]
    exact h'.overflow

section Meaning

variable {n a b r : ℕ} {carry : Bool} {f : Flags}

theorem WideSum.result_eq (h : WideSum n a b carry r f) : r = (a + b + carry.toNat) % 2 ^ n := by
  rw [← h.sum, Nat.add_mul_mod_self_left, Nat.mod_eq_of_lt h.lt_result]

theorem WideSum.sum_cases (h : WideSum n a b carry r f) :
    f.c = false ∧ r = a + b + carry.toNat ∨ f.c = true ∧ r + 2 ^ n = a + b + carry.toNat := by
  have hsum := h.sum
  cases hc : f.c
  · rw [hc, Bool.toNat_false, Nat.mul_zero, Nat.add_zero] at hsum
    exact .inl ⟨rfl, hsum⟩
  · rw [hc, Bool.toNat_true, Nat.mul_one] at hsum
    exact .inr ⟨rfl, hsum⟩

theorem WideSum.carry_iff (h : WideSum n a b carry r f) :
    f.c = true ↔ 2 ^ n ≤ a + b + carry.toNat := by
  have hlt := h.lt_result
  obtain ⟨hc, hsum⟩ | ⟨hc, hsum⟩ := h.sum_cases
  · simp only [hc, Bool.false_eq_true, false_iff]
    omega
  · simp only [hc, true_iff]
    omega

/-- Overflow is set when the exact signed sum has no place in `n` bits. -/
theorem WideSum.overflow_iff (hn : 0 < n) (h : WideSum n a b carry r f) :
    f.v = true ↔ ¬FitsSigned n (signed n a + signed n b + carry.toNat) := by
  have hpow := two_pow_eq hn
  have ha := h.lt_left
  have hb := h.lt_right
  have hr := h.lt_result
  have hin := carry.toNat_le
  have hsum := h.sum_cases
  rw [h.overflow, fitsSigned_iff, signed_eq, signed_eq]
  generalize 2 ^ n = top at *
  generalize 2 ^ (n - 1) = half at *
  split <;> split <;> omega

theorem WideSum.difference_eq {c : ℕ} (h : WideSum n a b carry r f) (hc : b + c + 1 = 2 ^ n) :
    (r : ℤ) = ((a : ℤ) - c - 1 + carry.toNat) % 2 ^ n := by
  have hsum : (r : ℤ) + 2 ^ n * f.c.toNat = a + b + carry.toNat := by exact_mod_cast h.sum
  have hpow : (b : ℤ) + c + 1 = 2 ^ n := by exact_mod_cast hc
  have hlt : (r : ℤ) < 2 ^ n := by exact_mod_cast h.lt_result
  have hexact : (a : ℤ) - c - 1 + carry.toNat = r + 2 ^ n * (f.c.toNat - 1) := by
    rw [mul_sub, mul_one]
    omega
  rw [hexact, Int.add_mul_emod_self_left, Int.emod_eq_of_lt (Int.natCast_nonneg r) hlt]

/-- Without a borrow coming in the carry says that nothing was borrowed. -/
theorem WideSum.difference_carry_iff {c : ℕ} (h : WideSum n a b true r f)
    (hc : b + c + 1 = 2 ^ n) : f.c = true ↔ c ≤ a := by
  rw [h.carry_iff, Bool.toNat_true]
  omega

/-- Without a borrow coming in `N` and `V` differ when the exact signed difference is negative. -/
theorem WideSum.difference_lt_iff {c : ℕ} (hn : 0 < n) (h : WideSum n a b true r f)
    (hc : b + c + 1 = 2 ^ n) : f.n ≠ f.v ↔ signed n a < signed n c := by
  have hpow := two_pow_eq hn
  have ha := h.lt_left
  have hb := h.lt_right
  have hr := h.lt_result
  have hsum := h.sum_cases
  rw [Bool.toNat_true] at hsum
  rw [Ne, Bool.eq_iff_iff, h.negative, h.overflow, signed_eq, signed_eq]
  generalize 2 ^ n = top at *
  generalize 2 ^ (n - 1) = half at *
  split <;> split <;> omega

end Meaning

variable {s : Shape}

/-- The number whose words, from the lowest on, are the given ones. -/
def joined (ws : List s.Word) : ℕ := Nat.ofDigits (2 ^ s.bits) (ws.map BitVec.toNat)

@[simp] theorem joined_nil : joined ([] : List s.Word) = 0 := rfl

@[simp] theorem joined_cons (w : s.Word) (ws : List s.Word) :
    joined (w :: ws) = w.toNat + 2 ^ s.bits * joined ws := by
  simp [joined, Nat.ofDigits_cons]

/-- Complementing every word of a number takes it from the largest number of its length. -/
theorem joined_complement (ws : List s.Word) :
    joined (ws.map (~~~·)) + joined ws + 1 = 2 ^ (ws.length * s.bits) := by
  induction ws with
  | nil => simp
  | cons w ws ih =>
    have hw : (~~~w).toNat + w.toNat + 1 = 2 ^ s.bits := by
      have hlt := w.isLt
      rw [BitVec.toNat_not]
      omega
    rw [List.map_cons, joined_cons, joined_cons, List.length_cons, Nat.succ_mul, Nat.add_comm _ s.bits,
      pow_add, ← ih]
    calc (~~~w).toNat + 2 ^ s.bits * joined (ws.map (~~~·)) + (w.toNat + 2 ^ s.bits * joined ws) + 1
        = ((~~~w).toNat + w.toNat + 1) +
            2 ^ s.bits * (joined (ws.map (~~~·)) + joined ws) := by ring
      _ = 2 ^ s.bits + 2 ^ s.bits * (joined (ws.map (~~~·)) + joined ws) := by rw [hw]
      _ = 2 ^ s.bits * (joined (ws.map (~~~·)) + joined ws + 1) := by ring

/-- Two limbs and the low registers that they are put into. -/
structure LimbPair (s : Shape) where
  rdn : Register
  rm : Register
  left : s.Word
  right : s.Word
  isLow_rdn : rdn.isLow = true
  isLow_rm : rm.isLow = true
  ne : rm ≠ rdn

namespace Machine

def writeLimbs (m : Machine s) (p : LimbPair s) : Machine s :=
  m.afterAll [.edit (.location (p.rdn.location s) p.left.toNat),
    .edit (.location (p.rm.location s) p.right.toNat)]

/-- Takes pairs of limbs one after the other, writing each to its registers and executing `ADCS` or
`SBCS` on them, and collects the words that are left in the destinations. -/
def chain (op : Arith) : Machine s → List (LimbPair s) → Except Error (Machine s × List s.Word)
  | m, [] => .ok (m, [])
  | m, p :: ps => do
    let m₁ ← (m.writeLimbs p).execute (.addCarry op p.rdn p.rm)
    let (m', ws) ← chain op m₁ ps
    return (m', m₁.registers.get p.rdn :: ws)

/-- One pair is added with the carry that the flags hold. -/
theorem execute_limbs (m : Machine s) (op : Arith) (p : LimbPair s) :
    ∃ m₁, (m.writeLimbs p).execute (.addCarry op p.rdn p.rm) = .ok m₁ ∧
      m₁.registers.get p.rdn =
        (addWithCarry p.left (op.addend p.right) m.registers.flags.c).result ∧
      m₁.registers.flags = (addWithCarry p.left (op.addend p.right) m.registers.flags.c).flags := by
  have hleft : (m.writeLimbs p).registers.get p.rdn = p.left := by
    change (((m.registers.set p.rdn (s.word p.left.toNat)).set p.rm (s.word p.right.toNat)).get
      p.rdn) = _
    rw [RegisterFile.get_set_of_ne p.ne.symm, RegisterFile.get_set_self, s.word_toNat]
  have hright : (m.writeLimbs p).registers.get p.rm = p.right := by
    change (((m.registers.set p.rdn (s.word p.left.toNat)).set p.rm (s.word p.right.toNat)).get
      p.rm) = _
    rw [RegisterFile.get_set_self, s.word_toNat]
  refine ⟨_, rfl, ?_, ?_⟩
  · change ((m.writeLimbs p).registers.perform 0 (.addCarry op p.rdn p.rm)).get p.rdn = _
    rw [RegisterFile.get_perform_of_ne (RegisterFile.Register.ne_pc_of_isLow p.isLow_rdn)]
    change ((((m.writeLimbs p).registers.set p.rdn _).setFlags _).get p.rdn) = _
    rw [RegisterFile.get_setFlags, RegisterFile.get_set_self, hleft, hright]
    rfl
  · change (addWithCarry ((m.writeLimbs p).registers.get p.rdn)
      (op.addend ((m.writeLimbs p).registers.get p.rm)) m.registers.flags.c).flags = _
    rw [hleft, hright]

/-- The words that a chain leaves are those of the sum, and so are the flags, as soon as there is one
pair of limbs. -/
theorem chain_wideSum (m : Machine s) (op : Arith) (p : LimbPair s) (ps : List (LimbPair s)) :
    ∃ m' ws, chain op m (p :: ps) = .ok (m', ws) ∧ ws.length = (p :: ps).length ∧
      WideSum ((p :: ps).length * s.bits) (joined ((p :: ps).map LimbPair.left))
        (joined ((p :: ps).map fun p => op.addend p.right)) m.registers.flags.c (joined ws)
        m'.registers.flags := by
  induction ps generalizing m p with
  | nil =>
    obtain ⟨m₁, hm₁, hword, hflags⟩ := m.execute_limbs op p
    refine ⟨m₁, [m₁.registers.get p.rdn], ?_, rfl, ?_⟩
    · rw [chain, hm₁]
      rfl
    · rw [hword, hflags]
      simpa using wideSum_addWithCarry p.left (op.addend p.right) m.registers.flags.c
  | cons q ps ih =>
    obtain ⟨m₁, hm₁, hword, hflags⟩ := m.execute_limbs op p
    obtain ⟨m', ws, hchain, hlength, hrest⟩ := ih m₁ q
    refine ⟨m', m₁.registers.get p.rdn :: ws, ?_, ?_, ?_⟩
    · rw [chain, hm₁]
      change (chain op m₁ (q :: ps) >>= _) = _
      rw [hchain]
      rfl
    · rw [List.length_cons, hlength]
      rfl
    · have hfirst := wideSum_addWithCarry p.left (op.addend p.right) m.registers.flags.c
      rw [← hword, ← hflags] at hfirst
      have hpos : 0 < (q :: ps).length * s.bits := by
        have hbits := s.sixteen_le_bits
        exact Nat.mul_pos (Nat.succ_pos _) (by omega)
      have hwhole := hfirst.chain hpos hrest
      rw [List.length_cons, Nat.succ_mul, Nat.add_comm _ s.bits, List.map_cons, List.map_cons,
        joined_cons, joined_cons, joined_cons]
      exact hwhole

/-- Arithmetic on numbers of any length by chaining carries is exact. Pairs of limbs, the lowest
first, are written to two low registers each and `ADCS` is executed on them; the words it leaves are
those of the sum of the two numbers and the carry at the start, the last carry says whether the sum
has a place in as many words, and the last overflow whether the signed sum has. With `SBCS` the words
are those of the difference; if no borrow comes in, the last carry says that the first number is not
below the second, and `N` and `V` differ when it is as a signed number. -/
theorem chain_exact (m : Machine s) {ps : List (LimbPair s)} (hne : ps ≠ []) :
    (∃ m' ws, chain .add m ps = .ok (m', ws) ∧ ws.length = ps.length ∧
      joined ws = (joined (ps.map LimbPair.left) + joined (ps.map LimbPair.right) +
        m.registers.flags.c.toNat) % 2 ^ (ps.length * s.bits) ∧
      (m'.registers.flags.c = true ↔ 2 ^ (ps.length * s.bits) ≤
        joined (ps.map LimbPair.left) + joined (ps.map LimbPair.right) +
          m.registers.flags.c.toNat) ∧
      (m'.registers.flags.v = true ↔ ¬FitsSigned (ps.length * s.bits)
        (signed (ps.length * s.bits) (joined (ps.map LimbPair.left)) +
          signed (ps.length * s.bits) (joined (ps.map LimbPair.right)) +
            m.registers.flags.c.toNat))) ∧
    ∃ m' ws, chain .sub m ps = .ok (m', ws) ∧ ws.length = ps.length ∧
      (joined ws : ℤ) = ((joined (ps.map LimbPair.left) : ℤ) - joined (ps.map LimbPair.right) - 1 +
        m.registers.flags.c.toNat) % 2 ^ (ps.length * s.bits) ∧
      (m.registers.flags.c = true →
        (m'.registers.flags.c = true ↔
          joined (ps.map LimbPair.right) ≤ joined (ps.map LimbPair.left)) ∧
        (m'.registers.flags.n ≠ m'.registers.flags.v ↔
          signed (ps.length * s.bits) (joined (ps.map LimbPair.left)) <
            signed (ps.length * s.bits) (joined (ps.map LimbPair.right)))) := by
  obtain ⟨p, ps, rfl⟩ := List.exists_cons_of_ne_nil hne
  have hpos : 0 < (p :: ps).length * s.bits := by
    have hbits := s.sixteen_le_bits
    exact Nat.mul_pos (Nat.succ_pos _) (by omega)
  constructor
  · obtain ⟨m', ws, hchain, hlength, hsum⟩ := m.chain_wideSum .add p ps
    exact ⟨m', ws, hchain, hlength, hsum.result_eq, hsum.carry_iff, hsum.overflow_iff hpos⟩
  · obtain ⟨m', ws, hchain, hlength, hsum⟩ := m.chain_wideSum .sub p ps
    have hcomplement := joined_complement ((p :: ps).map LimbPair.right)
    rw [List.map_map, List.length_map] at hcomplement
    refine ⟨m', ws, hchain, hlength, hsum.difference_eq hcomplement, ?_⟩
    intro hc
    rw [hc] at hsum
    exact ⟨hsum.difference_carry_iff hcomplement, hsum.difference_lt_iff hpos hcomplement⟩

def carrying : Machine (.architectural .w16) := (new _).after (.edit (.flag .c true))

def limbs (a b : ℕ) : LimbPair (.architectural .w16) :=
  ⟨.r0, .r1, BitVec.ofNat 16 a, BitVec.ofNat 16 b, rfl, rfl, by decide⟩

/-- A carry runs through a full limb, and so does a borrow through an empty one. -/
theorem chain_exact_running :
    (∃ m' ws, chain .add carrying [limbs 65535 0, limbs 65535 0] = .ok (m', ws) ∧
      joined ws = 0 ∧ m'.registers.flags.c = true) ∧
    ∃ m' ws, chain .sub carrying [limbs 0 1, limbs 1 0] = .ok (m', ws) ∧
      joined ws = 65535 ∧ m'.registers.flags.c = true ∧
        m'.registers.flags.n = m'.registers.flags.v := by
  have hc : carrying.registers.flags.c = true := rfl
  have hsums : [limbs 65535 0, limbs 65535 0] ≠ [] := List.cons_ne_nil _ _
  have hdifferences : [limbs 0 1, limbs 1 0] ≠ [] := List.cons_ne_nil _ _
  obtain ⟨m₁, ws₁, hadd, -, hjoined₁, hcarry₁, -⟩ := (chain_exact carrying hsums).1
  obtain ⟨m₂, ws₂, hsub, -, hjoined₂, hflags⟩ := (chain_exact carrying hdifferences).2
  obtain ⟨hcarry₂, hsign⟩ := hflags hc
  refine ⟨⟨m₁, ws₁, hadd, ?_, ?_⟩, m₂, ws₂, hsub, ?_, ?_, ?_⟩
  · rw [hjoined₁]
    decide +kernel
  · rw [hcarry₁]
    decide +kernel
  · have hvalue : (joined ws₂ : ℤ) = 65535 := by
      rw [hjoined₂]
      decide +kernel
    exact_mod_cast hvalue
  · rw [hcarry₂]
    decide +kernel
  · by_contra hne
    have hlt := hsign.mp hne
    revert hlt
    decide +kernel

end Machine
end Thumb
