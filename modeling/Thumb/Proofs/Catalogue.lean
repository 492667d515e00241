import Thumb.Proofs.TokenValues

/-! The catalogue of constraints. A constraint accepts exactly the tokens that denote a register or an
immediate of its set, or a special register, and yields what they denote, on machines with any number
of registers; groups of tokens pass up to the first one that does not. -/
namespace Thumb

open Text (trimmed upper)

namespace Constraint

def AdmitsRegister : Constraint → ℕ → Prop
  | lowRegisters, i => i ≤ 7
  | highRegisters, i => 8 ≤ i ∧ i ≤ 12
  | generalRegisters, i => i ≤ 12
  | anyRegisters, i => i ≤ 15
  | linkOrGeneralRegisters, i => i ≤ 12 ∨ i = 14
  | _, _ => False

def AdmitsImmediate : Constraint → ℕ → Prop
  | imm3, n => n ≤ 7
  | imm5, n => n ≤ 31
  | imm5Counting, n => 1 ≤ n ∧ n ≤ 32
  | imm6By2, n => n ≤ 62 ∧ 2 ∣ n
  | imm7By4, n => n ≤ 124 ∧ 4 ∣ n
  | imm8, n => n ≤ 255
  | imm9By4, n => n ≤ 508 ∧ 4 ∣ n
  | imm10By4, n => n ≤ 1020 ∧ 4 ∣ n
  | _, _ => False

/-- The values that a text has under a constraint, on a machine with `count` registers: the number of
a register that the machine has, an immediate, or a special register. -/
inductive Accepts (c : Constraint) (count : ℕ) (text : String) : Value → Prop
  | register {i : ℕ}
    (hname : (upper (trimmed text), i) ∈ [("SP", 13), ("LR", 14), ("PC", 15)] ∨
      Text.IsNumbered (trimmed text).toList i)
    (hspecial : ∀ r : SpecialRegister, upper (trimmed text) ≠ r.name) (hcount : i < count)
    (hi : c.AdmitsRegister i) : Accepts c count text (.register i)
  | immediate {n : ℕ} (hliteral : Text.IsLiteral (trimmed text).toList n)
    (hn : c.AdmitsImmediate n) : Accepts c count text (.immediate n)
  | special {r : SpecialRegister} (hname : upper (trimmed text) = r.name)
    (hc : c = specialRegisters) : Accepts c count text (.special r)

variable {c : Constraint} {count : ℕ} {text : String}

theorem admitsRegister_iff {i : ℕ} :
    c.AdmitsRegister i ↔ ∃ cls, c.domain = .registers cls ∧ cls.admits i = true := by
  cases c <;> simp [AdmitsRegister, domain, RegisterClass.admits_iff, or_comm]

theorem admitsImmediate_iff {n : ℕ} : c.AdmitsImmediate n ↔
    ∃ range, c.domain = .immediates range ∧ range.admits n = true := by
  cases c <;> simp [AdmitsImmediate, domain, ImmediateRange.admits_iff, Nat.dvd_iff_mod_eq_zero,
    Nat.mod_one]

theorem eq_specialRegisters_iff : c = specialRegisters ↔ c.domain = .special := by
  cases c <;> simp [domain]

theorem AdmitsRegister.lt {i : ℕ} (h : c.AdmitsRegister i) : i < 16 := by
  cases c <;> simp only [AdmitsRegister] at h <;> omega

theorem AdmitsImmediate.lt {n : ℕ} (h : c.AdmitsImmediate n) : n < 1024 := by
  cases c <;> simp only [AdmitsImmediate] at h <;> omega

theorem step_ne_zero {range : ImmediateRange} (h : c.domain = .immediates range) :
    range.step ≠ 0 := by
  cases c <;> cases h <;> decide

theorem accepts_register_iff {i : ℕ} : c.Accepts count text (.register i) ↔
    Token.registerNumber text = .ok i ∧ i < count ∧ c.AdmitsRegister i := by
  rw [Token.registerNumber_eq_ok_iff_names]
  constructor
  · intro h
    cases h with
    | register hname _ hcount hi =>
      have hlt : i < UInt64.size := hi.lt.trans (by decide)
      exact ⟨hname.imp_right fun h => ⟨h, hlt⟩, hcount, hi⟩
  · rintro ⟨hname, hcount, hi⟩
    refine .register (hname.imp_right And.left) (fun r hr => ?_) hcount hi
    have hnone := Token.ofName?_eq_none_of_registerNumber
      (Token.registerNumber_eq_ok_iff_names.mpr hname)
    rw [SpecialRegister.ofName?_eq_some_iff.mpr hr] at hnone
    cases hnone

theorem accepts_immediate_iff {n : ℕ} : c.Accepts count text (.immediate n) ↔
    Token.immediateValue text = .ok n ∧ c.AdmitsImmediate n := by
  rw [Token.immediateValue_eq_ok_iff_literal]
  constructor
  · intro h
    cases h with
    | immediate hliteral hn => exact ⟨⟨hliteral, hn.lt.trans (by decide)⟩, hn⟩
  · rintro ⟨⟨hliteral, -⟩, hn⟩
    exact .immediate hliteral hn

theorem accepts_special_iff {r : SpecialRegister} : c.Accepts count text (.special r) ↔
    SpecialRegister.ofName? (trimmed text) = some r ∧ c = specialRegisters := by
  rw [SpecialRegister.ofName?_eq_some_iff]
  constructor
  · intro h
    cases h with
    | special hname hc => exact ⟨hname, hc⟩
  · rintro ⟨hname, hc⟩
    exact .special hname hc

/-- A constraint accepts what the catalogue says, as what it denotes. -/
theorem check_eq_ok_iff {v : Value} :
    c.check count text = .ok v ↔ c.Accepts count text v := by
  rw [check]
  cases hdomain : c.domain with
  | registers cls =>
    have hadmits {i : ℕ} : c.AdmitsRegister i ↔ cls.admits i = true := by
      rw [admitsRegister_iff, hdomain]
      simp
    rw [map_eq_ok_iff]
    simp only [RegisterClass.check_eq_ok_iff_lt, ← hadmits]
    cases v with
    | register i => simp [accepts_register_iff]
    | immediate n => simp [accepts_immediate_iff, admitsImmediate_iff, hdomain]
    | special r => simp [accepts_special_iff, eq_specialRegisters_iff, hdomain]
  | immediates range =>
    have hadmits {n : ℕ} : c.AdmitsImmediate n ↔ range.admits n = true := by
      rw [admitsImmediate_iff, hdomain]
      simp
    rw [map_eq_ok_iff]
    simp only [ImmediateRange.check_eq_ok_iff (step_ne_zero hdomain), ← hadmits]
    cases v with
    | register i => simp [accepts_register_iff, admitsRegister_iff, hdomain]
    | immediate n => simp [accepts_immediate_iff]
    | special r => simp [accepts_special_iff, eq_specialRegisters_iff, hdomain]
  | special =>
    cases v with
    | register i =>
      cases h : SpecialRegister.ofName? (trimmed text) <;>
        simp [accepts_register_iff, admitsRegister_iff, hdomain]
    | immediate n =>
      cases h : SpecialRegister.ofName? (trimmed text) <;>
        simp [accepts_immediate_iff, admitsImmediate_iff, hdomain]
    | special r =>
      cases h : SpecialRegister.ofName? (trimmed text) <;>
        simp [accepts_special_iff, eq_specialRegisters_iff, hdomain, h]

/-- A register is accepted with its own number: no other number is cut down to it. -/
theorem register_eq_ok_iff_accepts {r : Register} :
    c.register count text = .ok r ↔ c.Accepts count text (.register r.index) := by
  rw [register, bind_eq_ok_iff, ← check_eq_ok_iff]
  constructor
  · rintro ⟨v, hv, h⟩
    cases v with
    | register n =>
      have hlt := (accepts_register_iff.mp (check_eq_ok_iff.mp hv)).2.2.lt
      rw [← Except.ok.inj h, Register.index_ofIndex, Nat.mod_eq_of_lt hlt]
      exact hv
    | immediate n => cases h
    | special r => cases h
  · intro h
    exact ⟨_, h, congrArg Except.ok r.ofIndex_index⟩

end Constraint

def Text.Continues (t s : String) : Prop := ∃ rest, s = t ++ rest

theorem Text.continues_append (t rest : String) : Continues t (t ++ rest) := ⟨rest, rfl⟩

theorem Text.Continues.append {t s : String} (h : Continues t s) (rest : String) :
    Continues t (s ++ rest) := by
  obtain ⟨start, rfl⟩ := h
  exact ⟨start ++ rest, String.append_assoc⟩

namespace OperandError

/-- The cause in words starts with the text that is refused. -/
def Names (e : OperandError) (text : String) : Prop := Text.Continues text e.message

variable (text : String)

theorem names_notRegister : (notRegister text).Names text := Text.continues_append _ _

theorem names_notImmediate : (notImmediate text).Names text := Text.continues_append _ _

theorem names_notSpecial : (notSpecial text).Names text := Text.continues_append _ _

theorem names_noSuchRegister (count : ℕ) : (noSuchRegister text count).Names text :=
  (Text.continues_append _ _).append _

theorem names_outsideClass (c : RegisterClass) : (outsideClass text c).Names text :=
  ((((((Text.continues_append _ _).append _).append _).append _).append _).append _).append _

theorem names_aboveMaximum (high : ℕ) (c : Constraint) : (aboveMaximum text high c).Names text :=
  (((Text.continues_append _ _).append _).append _).append _

theorem names_belowMinimum (low : ℕ) (c : Constraint) : (belowMinimum text low c).Names text :=
  (((Text.continues_append _ _).append _).append _).append _

theorem names_misaligned (step : ℕ) (c : Constraint) : (misaligned text step c).Names text :=
  (((Text.continues_append _ _).append _).append _).append _

end OperandError

variable {text : String} {e : OperandError}

theorem Token.names_of_registerNumber (h : registerNumber text = .error e) :
    e.Names (trimmed text) := by
  rw [registerNumber_eq_error (by simp [h])] at h
  rw [← Except.error.inj h]
  split
  · exact Text.continues_append _ _
  · exact OperandError.names_notRegister _

theorem Token.names_of_immediateValue (h : immediateValue text = .error e) :
    e.Names (trimmed text) := by
  rw [immediateValue_eq_error (by simp [h])] at h
  rw [← Except.error.inj h]
  split
  · exact Text.continues_append _ _
  · exact OperandError.names_notImmediate _

theorem RegisterClass.names_of_check {c : RegisterClass} {count : ℕ}
    (h : c.check count (trimmed text) = .error e) : e.Names (trimmed text) := by
  unfold check at h
  split at h
  · rw [← Except.error.inj h]
    exact OperandError.names_notRegister _
  · obtain h | ⟨n, -, h⟩ := bind_eq_error_iff.mp h
    · rw [Token.registerNumber_trimmed] at h
      exact Token.names_of_registerNumber h
    · split at h
      · rw [← Except.error.inj h]
        exact OperandError.names_noSuchRegister _ _
      · split at h
        · cases h
        · rw [← Except.error.inj h]
          exact OperandError.names_outsideClass _ _

theorem ImmediateRange.names_of_check {range : ImmediateRange} {c : Constraint}
    (h : range.check c (trimmed text) = .error e) : e.Names (trimmed text) := by
  unfold check at h
  split at h
  · rw [← Except.error.inj h]
    exact OperandError.names_notImmediate _
  · obtain h | ⟨n, -, h⟩ := bind_eq_error_iff.mp h
    · rw [Token.immediateValue_trimmed] at h
      exact Token.names_of_immediateValue h
    · split at h
      · rw [← Except.error.inj h]
        exact OperandError.names_aboveMaximum _ _ _
      · split at h
        · rw [← Except.error.inj h]
          exact OperandError.names_belowMinimum _ _ _
        · split at h
          · cases h
          · rw [← Except.error.inj h]
            exact OperandError.names_misaligned _ _ _

namespace Constraint

variable {c : Constraint} {count : ℕ}

/-- A constraint that refuses a token says which one. -/
theorem names_of_check (h : c.check count text = .error e) : e.Names (trimmed text) := by
  rw [check] at h
  cases hdomain : c.domain with
  | registers cls =>
    rw [hdomain] at h
    exact RegisterClass.names_of_check (map_eq_error_iff.mp h)
  | immediates range =>
    rw [hdomain] at h
    exact ImmediateRange.names_of_check (map_eq_error_iff.mp h)
  | special =>
    rw [hdomain] at h
    cases hname : SpecialRegister.ofName? (trimmed text) with
    | some r =>
      rw [hname] at h
      cases h
    | none =>
      rw [hname] at h
      rw [← Except.error.inj h]
      exact OperandError.names_notSpecial _

/-- The tokens of groups in order, each with its constraint. -/
def tokens (groups : List (Constraint × List String)) : List (Constraint × String) :=
  groups.flatMap fun (c, texts) => texts.map fun text => (c, text)

def passes (count : ℕ) (token : Constraint × String) : Except OperandError Unit :=
  discard (token.1.check count token.2)

theorem passes_eq_ok_iff {token : Constraint × String} :
    passes count token = .ok () ↔ ∃ v, token.1.check count token.2 = .ok v := by
  rw [passes]
  cases token.1.check count token.2 <;> simp [discard, Functor.discard, Functor.mapConst, Except.map]

theorem passes_eq_error_iff {token : Constraint × String} :
    passes count token = .error e ↔ token.1.check count token.2 = .error e :=
  map_eq_error_iff

theorem checkGroups_eq (groups : List (Constraint × List String)) :
    checkGroups count groups = (tokens groups).forM (passes count) := by
  induction groups with
  | nil => rfl
  | cons group groups ih =>
    rw [tokens, List.flatMap_cons, List.forM_eq_forM, List.forM_append, List.forM_map]
    rw [checkGroups, List.forM_eq_forM] at ih ⊢
    rw [List.forM_cons, ih]
    rfl

theorem forall_tokens_iff (groups : List (Constraint × List String))
    (P : Constraint → String → Prop) :
    (∀ token ∈ tokens groups, P token.1 token.2) ↔
      ∀ group ∈ groups, ∀ text ∈ group.2, P group.1 text := by
  simp only [tokens, List.mem_flatMap, List.mem_map]
  constructor
  · intro h group hgroup text htext
    exact h (group.1, text) ⟨group, hgroup, text, htext, rfl⟩
  · rintro h - ⟨group, hgroup, text, htext, rfl⟩
    exact h group hgroup text htext

/-- Constraints accept exactly what the catalogue lists, on a machine with any number of registers, as
what it denotes; what they refuse they refuse by a rule that names the token. A register is the one
whose number the token has. Groups pass exactly when every token does, and otherwise the first token
that does not is the one reported. -/
theorem catalogue_is_exact (c : Constraint) (count : ℕ) (text : String)
    (groups : List (Constraint × List String)) :
    (∀ v, c.check count text = .ok v ↔ c.Accepts count text v) ∧
      ((∀ v, ¬c.Accepts count text v) → ∃ e, e.Names (trimmed text) ∧
        (c.check count text).mapError Error.rule = .error (.rule e)) ∧
      (∀ r, c.register count text = .ok r ↔ c.Accepts count text (.register r.index)) ∧
      (∀ r, c.register count text = .ok r → Token.registerNumber text = .ok r.index) ∧
      (checkGroups count groups = .ok () ↔
        ∀ group ∈ groups, ∀ text ∈ group.2, ∃ v, group.1.Accepts count text v) ∧
      ∀ e, checkGroups count groups = .error e ↔ ∃ pre c text post,
        tokens groups = pre ++ (c, text) :: post ∧
          (∀ token ∈ pre, ∃ v, token.1.Accepts count token.2 v) ∧ c.check count text = .error e := by
  refine ⟨fun v => check_eq_ok_iff, ?_, fun r => register_eq_ok_iff_accepts, ?_, ?_, ?_⟩
  · intro hnone
    obtain ⟨e, he⟩ := exists_error_of_forall_ne_ok fun v hv => hnone v (check_eq_ok_iff.mp hv)
    exact ⟨e, names_of_check he, mapError_eq_error_iff.mpr ⟨e, he, rfl⟩⟩
  · intro r hr
    exact (accepts_register_iff.mp (register_eq_ok_iff_accepts.mp hr)).1
  · rw [checkGroups_eq, forM_eq_ok_iff]
    simp only [passes_eq_ok_iff, check_eq_ok_iff]
    exact forall_tokens_iff groups fun c text => ∃ v, c.Accepts count text v
  · intro e
    rw [checkGroups_eq, forM_eq_error_iff]
    simp only [passes_eq_ok_iff, check_eq_ok_iff, passes_eq_error_iff, Prod.exists]

/-- On a machine with three hundred registers no number above fifteen is taken for a register below
it, and of two groups the first token that is not aligned is reported. -/
theorem catalogue_is_exact_wrapping :
    (∃ e, e.Names "R256" ∧
      (lowRegisters.check 300 " R256").mapError Error.rule = .error (.rule e)) ∧
      (linkOrGeneralRegisters.check 300 "r0xE" = .ok (.register 14)) ∧
      checkGroups 300 [(imm3, ["#1"]), (imm7By4, ["#4", "#5", "#x"])] =
        .error (.misaligned "#5" 4 imm7By4) := by
  refine ⟨?_, ?_, ?_⟩
  · have hnone (v : Value) : ¬lowRegisters.Accepts 300 " R256" v := by
      have hrefused : (lowRegisters.check 300 " R256").toOption = none := by decide +kernel
      intro hv
      rw [((catalogue_is_exact lowRegisters 300 " R256" []).1 v).mpr hv] at hrefused
      cases hrefused
    have htrimmed : trimmed " R256" = "R256" := by decide +kernel
    have hrefused := (catalogue_is_exact lowRegisters 300 " R256" []).2.1 hnone
    rwa [htrimmed] at hrefused
  · refine ((catalogue_is_exact _ 300 "r0xE" []).1 _).mpr (.register (.inr ?_) ?_ (by decide) ?_)
    · exact Token.afterR?_bind_eq_some_iff.mp (by decide +kernel)
    · intro r
      cases r <;> decide +kernel
    · exact .inr rfl
  · refine ((catalogue_is_exact .imm3 300 "" _).2.2.2.2.2 _).mpr
      ⟨[(imm3, "#1"), (imm7By4, "#4")], imm7By4, "#5", [(imm7By4, "#x")], rfl, ?_, by decide +kernel⟩
    intro token htoken
    rcases List.mem_cons.mp htoken with rfl | htoken
    · exact ⟨_, ((catalogue_is_exact imm3 300 "#1" []).1 (.immediate 1)).mp (by decide +kernel)⟩
    · rw [List.mem_singleton.mp htoken]
      exact ⟨_, ((catalogue_is_exact imm7By4 300 "#4" []).1 (.immediate 4)).mp (by decide +kernel)⟩

end Constraint
end Thumb
