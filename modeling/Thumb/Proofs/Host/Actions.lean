import Thumb.Host.Perform
import Thumb.Proofs.Host.Banks
import Thumb.Proofs.Host.Bytes
import Thumb.RegisterFile.Perform

/-! Instructions executed in place do what they do to the register file. Each part of an instruction
gives a value and leaves the bank of a register file; only the label it names can fail, and it is
looked up before anything is changed. -/
namespace Thumb
namespace Host
namespace Action

variable {s : Shape}

/-- From the bank of a register file the action gives a value and the bank of another. -/
def Gives {α : Type} (x : Action α) (f : RegisterFile s) (a : α) (f' : RegisterFile s) : Prop :=
  x (pack f) = some (.ok a, pack f')

/-- From the bank of a register file the action gives an effect. The word to go to is not masked. -/
def Yields (x : Action (Option Word)) (f : RegisterFile s) (e : Effect s) : Prop :=
  ∃ next, Gives x f next e.registers ∧ next.map (narrow s.bits) = e.target?

variable {α β : Type} {f f' f'' : RegisterFile s} {e : Effect s}

theorem Gives.bind_eq {x : Action α} {a : α} (h : Gives x f a f') (g : α → Action β) :
    (x >>= g) (pack f) = g a (pack f') := by
  change Option.bind (x (pack f)) _ = _
  rw [h]
  rfl

theorem Gives.bind {x : Action α} {g : α → Action β} {a : α} {b : β} (h : Gives x f a f')
    (hg : Gives (g a) f' b f'') : Gives (x >>= g) f b f'' := (h.bind_eq g).trans hg

theorem Gives.yields {x : Action α} {g : α → Action (Option Word)} {a : α} (h : Gives x f a f')
    (hg : Yields (g a) f' e) : Yields (x >>= g) f e := by
  obtain ⟨next, hnext, htarget⟩ := hg
  exact ⟨next, h.bind hnext, htarget⟩

/-- From the bank of a register file the action fails, having changed nothing. -/
def Fails {α : Type} (x : Action α) (f : RegisterFile s) (err : Error) : Prop :=
  x (pack f) = some (.error err, pack f)

theorem Fails.bind {x : Action α} {err : Error} (h : Fails x f err) (g : α → Action β) :
    Fails (x >>= g) f err := by
  change Option.bind (x (pack f)) _ = _
  rw [h]
  rfl

theorem Gives.fails {x : Action α} {g : α → Action β} {a : α} {err : Error}
    (h : Gives x f a f) (hg : Fails (g a) f err) : Fails (x >>= g) f err := (h.bind_eq g).trans hg

theorem gives_pure (f : RegisterFile s) (a : α) : Gives (pure a) f a f := rfl

theorem gives_ask {q : Bank → Option α} {a : α} (h : q (pack f) = some a) : Gives (ask q) f a f := by
  rw [Gives, ask, h]
  rfl

theorem gives_change {q : Bank → Option Bank} (h : q (pack f) = some (pack f')) :
    Gives (change q) f () f' := by
  rw [Gives, change, h]
  rfl

theorem gives_mask (f : RegisterFile s) : Gives (ask Bank.mask?) f (lowMask s.bits) f :=
  gives_ask (mask?_pack f)

theorem gives_read (f : RegisterFile s) (r : Register) : Gives (read r) f (widen (f.get r)) f :=
  gives_ask (read?_pack f (s.slot r))

theorem gives_write (f : RegisterFile s) (r : Register) {u : Word} {v : s.Word}
    (h : narrow s.bits u = v) : Gives (write r u) f () (f.set r v) := by
  subst h
  exact gives_change (write?_pack f (s.slot r) u)

/-- The word of a second source; that of an immediate is not masked. -/
def operandWord (f : RegisterFile s) : Operand → Word
  | .register r => widen (f.get r)
  | .immediate n => BitVec.ofNat 64 n

@[simp] theorem narrow_operandWord (f : RegisterFile s) (src : Operand) :
    narrow s.bits (operandWord f src) = f.value src := by
  cases src with
  | register r => exact narrow_widen s.bits_le _
  | immediate n => exact narrow_ofNat s.bits_le n

theorem gives_source (f : RegisterFile s) (src : Operand) :
    Gives (source src) f (operandWord f src) f := by
  cases src with
  | register r => exact gives_read f r
  | immediate n => exact gives_pure f _

theorem yields_stay (f : RegisterFile s) : Yields (pure none) f f.stay := ⟨none, gives_pure f _, rfl⟩

theorem yields_jump (f : RegisterFile s) {u : Word} {v : s.Word} (h : narrow s.bits u = v) :
    Yields (pure (some u)) f (f.jump v) := ⟨some u, gives_pure f _, congrArg some h⟩

theorem yields_put (f : RegisterFile s) (rd : Register) {u : Word} {v : s.Word}
    (h : narrow s.bits u = v) : Yields (put rd u) f (f.put rd v) := by
  by_cases hrd : rd = .pc
  · rw [put, if_pos hrd, hrd, RegisterFile.put_pc]
    exact (gives_mask f).yields (yields_jump f (by simp [h]))
  · rw [put, if_neg hrd, RegisterFile.put_of_ne hrd]
    exact (gives_write f rd h).yields (yields_stay _)

theorem yields_putResult (f : RegisterFile s) (rd : Register) {u : Word} {v : s.Word}
    (h : narrow s.bits u = v) : Yields (putResult rd u) f (f.putResult rd v) := by
  subst h
  exact (gives_change (setNZ?_pack f u)).yields (yields_put _ rd rfl)

theorem yields_putShifted (f : RegisterFile s) (rd : Register) (v : Shifted s.bits) :
    Yields (putShifted rd (widen v.value, v.carry)) f (f.putShifted rd v) := by
  have hvalue := narrow_widen s.bits_le v.value
  rw [putShifted, RegisterFile.putShifted]
  cases v.carry with
  | none => exact yields_putResult f rd hvalue
  | some carry =>
    exact (gives_change (setFlag?_pack f .c carry)).yields (yields_putResult _ rd hvalue)

theorem gives_setArithFlags (f : RegisterFile s) (op : Arith) {x y : Word} {a b : s.Word}
    (hx : narrow s.bits x = a) (hy : narrow s.bits y = b) :
    Gives (setArithFlags op x y) f (widen (op.eval a b)) (f.setArithFlags op a b) := by
  have hresult : op.eval x y &&& lowMask s.bits = widen (op.eval a b) := by
    rw [and_lowMask]
    cases op <;> simp [Arith.eval, hx, hy]
  have hflags := setNZCV?_pack f op x y (widen (op.eval a b))
  rw [hx, hy, narrow_widen s.bits_le] at hflags
  rw [setArithFlags]
  refine (gives_mask f).bind ?_
  dsimp only
  rw [hresult]
  exact (gives_change hflags).bind (gives_pure _ _)

/-- The flags are set after the result has been written, from the result as it was computed. -/
theorem gives_addCarry (f : RegisterFile s) (rdn : Register) {x y : Word} {a b : s.Word}
    (hx : narrow s.bits x = a) (hy : narrow s.bits y = b) :
    let sum := addWithCarry a b f.flags.c
    Gives (addCarry rdn x y) f () ((f.set rdn sum.result).setFlags sum.flags) := by
  intro sum
  have hsum := addWithCarry?_pack f x y f.flags.c
  rw [hx, hy] at hsum
  rw [addCarry]
  refine (gives_ask (isSet?_pack f .c)).bind ((gives_ask hsum).bind ?_)
  refine (gives_write f rdn (narrow_widen s.bits_le sum.result)).bind ?_
  refine (gives_ask (isNegative?_pack _ _)).bind (gives_change ?_)
  rw [setFlags?_pack, widen_beq_zero s.bits_le, narrow_widen s.bits_le]
  rfl

theorem gives_amount (f : RegisterFile s) (r : Register) : Gives (amount r) f (f.lowByte r) f := by
  have hs := s.sixteen_le_bits
  have hbyte : (widen (f.get r) &&& 0xff).toNat = f.lowByte r := by
    rw [byte_mask, and_lowMask, toNat_widen (by decide), narrow_widen_of_le (by omega) s.bits_le]
    rfl
  rw [← hbyte]
  exact (gives_read f r).bind (gives_pure f _)

theorem gives_holds (f : RegisterFile s) (cond : Condition) :
    Gives (holds cond) f (cond.holds f.flags) f :=
  (gives_ask (isSet?_pack f .n)).bind <| (gives_ask (isSet?_pack f .z)).bind <|
    (gives_ask (isSet?_pack f .c)).bind <| (gives_ask (isSet?_pack f .v)).bind (gives_pure f _)

theorem gives_resolve (f : RegisterFile s) {p : Program} {label : String} {target : ℕ}
    (h : p.index? label = some target) :
    Gives (resolve p label) f (BitVec.ofNat 64 target) f := by
  rw [resolve, h]
  exact gives_pure f _

theorem narrow_following (f : RegisterFile s) :
    narrow s.bits (widen (f.get .pc) + 1) = f.following := by
  rw [narrow_add s.bits_le, narrow_widen s.bits_le]
  exact congrArg _ (narrow_ofNat s.bits_le 1)

theorem yields_effect (f : RegisterFile s) (p : Program) (i : Instruction) (target : ℕ)
    (h : ∀ label, i.label? = some label → p.index? label = some target) :
    Yields (effect p (widen (f.get .pc)) i) f (f.effect target i) := by
  have hs := s.sixteen_le_bits
  have hpos : 0 < s.bits := by omega
  have h8 : 8 ∣ s.bits := Dvd.dvd.trans (by decide) s.sixteen_dvd_bits
  have hfollowing := narrow_following f
  have hbyte := narrow_widen_of_le (show 8 ≤ s.bits by omega) s.bits_le
  have hhalf := narrow_widen_of_le (show 16 ≤ s.bits by omega) s.bits_le
  unfold effect
  refine (gives_mask f).yields ((gives_ask rfl).yields ?_)
  cases i with
  | addCarry op rdn rm =>
    refine (gives_read f rdn).yields ((gives_read f rm).yields ?_)
    cases op with
    | add => exact (gives_addCarry f rdn (by simp) (by simp [Arith.addend])).yields (yields_stay _)
    | sub => exact (gives_addCarry f rdn (by simp) (by simp [Arith.addend])).yields (yields_stay _)
  | add rd rn src =>
    exact (gives_read f rn).yields ((gives_source f src).yields (yields_put f rd (by simp)))
  | arith op rd rn src =>
    refine (gives_read f rn).yields ((gives_source f src).yields ?_)
    exact (gives_setArithFlags f op (by simp) (by simp)).yields (yields_put _ rd (by simp))
  | negate rd rn =>
    refine (gives_read f rn).yields ?_
    exact (gives_setArithFlags f .sub (by simp) (by simp)).yields (yields_put _ rd (by simp))
  | subSp n => exact (gives_read f .sp).yields (yields_put f .sp (by simp [Shape.word]))
  | multiply rdm rn =>
    exact (gives_read f rdm).yields ((gives_read f rn).yields (yields_putResult f rdm (by simp)))
  | bitwise op rdn rm =>
    refine (gives_read f rdn).yields ((gives_read f rm).yields ?_)
    cases op with
    | and => exact yields_putResult f rdn (by simp [Bitwise.eval])
    | bic => exact yields_putResult f rdn (by simp [Bitwise.eval])
    | eor => exact yields_putResult f rdn (by simp [Bitwise.eval])
    | orr => exact yields_putResult f rdn (by simp [Bitwise.eval])
  | shift op rd rm n =>
    refine (gives_read f rm).yields ?_
    exact (gives_ask (shift?_widen op s.bits_le hpos (f.get rm) n)).yields (yields_putShifted f rd _)
  | shiftBy op rdn rm =>
    refine (gives_amount f rm).yields ((gives_read f rdn).yields ?_)
    exact (gives_ask (shift?_widen op s.bits_le hpos (f.get rdn) _)).yields
      (yields_putShifted f rdn _)
  | rotateBy rdn rm =>
    refine (gives_amount f rm).yields ((gives_read f rdn).yields ?_)
    exact (gives_ask (ror?_widen s.bits_le hpos (f.get rdn) _)).yields (yields_putShifted f rdn _)
  | move rd rm => exact (gives_read f rm).yields (yields_put f rd (by simp))
  | moveSet rd src =>
    cases src with
    | register rm =>
      exact (gives_read f rm).yields (yields_putResult f rd (by simp [RegisterFile.value]))
    | immediate n => exact yields_putResult f rd (by simp [RegisterFile.value, Shape.word])
  | moveNot rd rm => exact (gives_read f rm).yields (yields_putResult f rd (by simp))
  | compare rn src =>
    refine (gives_read f rn).yields ((gives_source f src).yields ?_)
    exact (gives_setArithFlags f .sub (by simp) (by simp)).yields (yields_stay _)
  | compareSum rn rm =>
    refine (gives_read f rn).yields ((gives_read f rm).yields ?_)
    exact (gives_setArithFlags f .add (by simp) (by simp)).yields (yields_stay _)
  | test rn rm =>
    refine (gives_read f rn).yields ((gives_read f rm).yields ?_)
    have hset := setNZ?_pack f (widen (f.get rn) &&& widen (f.get rm))
    rw [narrow_and, narrow_widen s.bits_le, narrow_widen s.bits_le] at hset
    exact (gives_change hset).yields (yields_stay _)
  | reverse op rd rm =>
    refine (gives_read f rm).yields ?_
    cases op with
    | word =>
      exact (gives_ask (reverseBytes?_widen s.bits_le h8 (f.get rm))).yields
        (yields_put f rd (by simp))
    | halfwords =>
      exact (gives_ask (reverseHalfwords?_widen s.bits_le s.sixteen_dvd_bits (f.get rm))).yields
        (yields_put f rd (by simp))
    | signedHalfword =>
      refine (gives_ask (reverseHalfwords?_halfword (widen (f.get rm)))).yields ?_
      refine (gives_ask (signExtend?_eq s.bits_le (by decide) (by decide) _)).yields ?_
      exact yields_put f rd (by simp [Reversal.eval, hhalf])
  | extend op rd rm =>
    refine (gives_read f rm).yields ?_
    cases op with
    | sxtb =>
      refine (gives_ask (signExtend?_eq s.bits_le (by decide) (by decide) _)).yields ?_
      exact yields_put f rd (by simp [Extension.eval, hbyte])
    | sxth =>
      refine (gives_ask (signExtend?_eq s.bits_le (by decide) (by decide) _)).yields ?_
      exact yields_put f rd (by simp [Extension.eval, hhalf])
    | uxtb =>
      rw [byte_mask]
      exact yields_put f rd (narrow_and_lowMask (by omega) s.bits_le _)
    | uxth =>
      rw [halfword_mask]
      exact yields_put f rd (narrow_and_lowMask (by omega) s.bits_le _)
  | readSpecial rd special =>
    exact (gives_ask (readSpecial?_pack f special)).yields (yields_put f rd (by simp))
  | writeSpecial special rn =>
    refine (gives_read f rn).yields ?_
    have hwrite := writeSpecial?_pack f special (widen (f.get rn))
    rw [narrow_widen s.bits_le] at hwrite
    exact (gives_change hwrite).yields (yields_stay _)
  | branch cond label =>
    refine (gives_resolve f (h label rfl)).yields ((gives_holds f cond).yields ?_)
    change Yields _ f (if cond.holds f.flags then _ else _)
    cases cond.holds f.flags
    · exact yields_stay f
    · exact yields_jump f (narrow_ofNat s.bits_le target)
  | branchLink label =>
    refine (gives_resolve f (h label rfl)).yields ((gives_write f .lr hfollowing).yields ?_)
    exact yields_jump _ (narrow_ofNat s.bits_le target)
  | branchLinkExchange rm =>
    refine (gives_read f rm).yields ((gives_write f .lr hfollowing).yields ?_)
    exact yields_jump _ (by simp)
  | branchExchange rm => exact (gives_read f rm).yields (yields_jump f (by simp))
  | nop => exact yields_stay f

/-- In place, an instruction does to the bank of a register file what it does to the register file. -/
theorem gives_perform (f : RegisterFile s) (p : Program) (i : Instruction) (target : ℕ)
    (h : ∀ label, i.label? = some label → p.index? label = some target) :
    Gives (perform p i) f () (f.perform target i) := by
  obtain ⟨next, hnext, htarget⟩ := yields_effect f p i target h
  refine (gives_read f .pc).bind (hnext.bind (gives_write _ .pc ?_))
  rw [← htarget]
  cases next with
  | none => exact narrow_following f
  | some u => rfl

/-- An instruction fails at the label that the program does not have, before it changes anything. -/
theorem fails_perform (f : RegisterFile s) {p : Program} {i : Instruction} {label : String}
    (hlabel : i.label? = some label) (h : p.index? label = none) :
    Fails (perform p i) f (.validation (.labelUndefined label)) := by
  have hresolve : Fails (resolve p label) f (.validation (.labelUndefined label)) := by
    rw [resolve, h]
    rfl
  -- What is read before the label changes nothing, so that the failure finds the bank as it was.
  refine (gives_read f .pc).fails (Fails.bind ?_ _)
  unfold effect
  refine (gives_mask f).fails ((gives_ask rfl).fails ?_)
  cases i with
  | branch cond _ =>
    cases hlabel
    exact hresolve.bind _
  | branchLink _ =>
    cases hlabel
    exact hresolve.bind _
  | _ => cases hlabel

end Action
end Host
end Thumb
