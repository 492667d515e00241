import Thumb.Proofs.AcceptedLine
import Thumb.Proofs.History

/-! The table of labels and the entries of a program. A label is accepted only while the table does
not have it, so that the table always says where each label is written; and a program only grows, so
that what an index or a label stands for never changes. -/
namespace Thumb
namespace Program

theorem get?_push (p : Program) (e : Entry) (i : Nat) :
    (p.push e).get? i = if i = p.size then some e else p.get? i := Array.getElem?_push

/-- An entry is accepted exactly when the table does not have its label. -/
theorem append_eq_ok_iff {p q : Program} {e : Entry} :
    p.append e = .ok q ↔ (∀ label, e.label = some label → p.index? label = none) ∧ q = p.push e := by
  constructor
  · intro h
    refine ⟨?_, eq_push_of_append h⟩
    intro label hl
    cases hi : p.index? label with
    | none => rfl
    | some i => simp [append, hl, hi] at h
  · rintro ⟨hnew, rfl⟩
    unfold append
    cases hl : e.label with
    | none => rfl
    | some label => simp only [hnew label hl]

/-- The table says of each label exactly where it is written, and each entry is what its line makes
on a machine with the given number of registers. -/
structure Consistent (registerCount : Nat) (p : Program) : Prop where
  index?_eq_some_iff : ∀ label i,
    p.index? label = some i ↔ (p.get? i).bind Entry.label = some label
  parse_source : ∀ i e, p.get? i = some e → Entry.parse registerCount e.source = .ok e

theorem consistent_empty (registerCount : Nat) : Consistent registerCount empty :=
  ⟨fun label i => by simp, fun i e h => by simp at h⟩

/-- The induction step: a new label points to the index that its entry is about to take, and no
label in the table points there yet. -/
theorem Consistent.append {registerCount : Nat} {p q : Program} {e : Entry} {line : String}
    (h : Consistent registerCount p) (he : Entry.parse registerCount line = .ok e)
    (hq : p.append e = .ok q) : Consistent registerCount q := by
  obtain ⟨hnew, rfl⟩ := append_eq_ok_iff.mp hq
  have hsize : p.get? p.size = none := get?_eq_none_iff.mpr (Nat.le_refl _)
  constructor
  · intro label i
    rw [index?_push, get?_push]
    by_cases hl : e.label = some label
    · have hnone := hnew label hl
      by_cases hi : i = p.size
      · simp [hl, hi]
      · have hold := h.index?_eq_some_iff label i
        rw [hnone] at hold
        simpa [hl, hi, Ne.symm hi] using hold
    · by_cases hi : i = p.size
      · have hold := h.index?_eq_some_iff label i
        rw [hi, hsize] at hold
        simpa [hl, hi] using hold
      · simpa [hl, hi] using h.index?_eq_some_iff label i
  · intro i e' hi
    rw [get?_push] at hi
    split at hi
    · cases hi
      rw [(Entry.parse_eq_ok_iff.mp he).1]
      exact he
    · exact h.parse_source i e' hi

theorem Consistent.index?_eq_none_iff {registerCount : Nat} {p : Program} {label : String}
    (h : Consistent registerCount p) :
    p.index? label = none ↔ ∀ i e, p.get? i = some e → e.label ≠ some label := by
  constructor
  · intro hnone i e hi hl
    have hsome := (h.index?_eq_some_iff label i).mpr (by simp [hi, hl])
    rw [hnone] at hsome
    cases hsome
  · intro hall
    cases hi : p.index? label with
    | none => rfl
    | some i =>
      obtain ⟨e, he, hl⟩ := Option.bind_eq_some_iff.mp ((h.index?_eq_some_iff label i).mp hi)
      exact absurd hl (hall i e he)

theorem Consistent.eq_of_label_eq {registerCount : Nat} {p : Program} {i j : Nat} {e e' : Entry}
    {label : String} (h : Consistent registerCount p) (hi : p.get? i = some e)
    (hj : p.get? j = some e') (hl : e.label = some label) (hl' : e'.label = some label) : i = j := by
  have hpi : p.index? label = some i := (h.index?_eq_some_iff label i).mpr (by simp [hi, hl])
  have hpj : p.index? label = some j := (h.index?_eq_some_iff label j).mpr (by simp [hj, hl'])
  rw [hpi] at hpj
  exact Option.some.inj hpj

/-- Whatever an index or a label stands for in the first program it stands for in the second. -/
structure Extends (p q : Program) : Prop where
  get? : ∀ i e, p.get? i = some e → q.get? i = some e
  index? : ∀ label i, p.index? label = some i → q.index? label = some i

theorem Extends.refl (p : Program) : p.Extends p := ⟨fun _ _ => id, fun _ _ => id⟩

theorem Extends.trans {p q r : Program} (hpq : p.Extends q) (hqr : q.Extends r) : p.Extends r :=
  ⟨fun i e h => hqr.get? i e (hpq.get? i e h), fun l i h => hqr.index? l i (hpq.index? l i h)⟩

theorem extends_of_append {p q : Program} {e : Entry} (h : p.append e = .ok q) : p.Extends q := by
  obtain ⟨hnew, rfl⟩ := append_eq_ok_iff.mp h
  constructor
  · intro i e' hi
    have hne : i ≠ p.size := by
      rintro rfl
      rw [get?_eq_none_iff.mpr (Nat.le_refl _)] at hi
      cases hi
    rw [get?_push, if_neg hne]
    exact hi
  · intro label i hi
    have hne : e.label ≠ some label := by
      intro hl
      rw [hnew label hl] at hi
      cases hi
    rw [index?_push, if_neg hne]
    exact hi

theorem lt_size_of_get? {p : Program} {i : Nat} {e : Entry} (h : p.get? i = some e) :
    i < p.size := by
  by_contra hle
  rw [get?_eq_none_iff.mpr (Nat.not_lt.mp hle)] at h
  cases h

end Program

namespace Machine

variable {s : Shape}

theorem program_execute {m m' : Machine s} {i : Instruction} (h : m.execute i = .ok m') :
    m'.program = m.program := by
  obtain ⟨target, -, rfl⟩ := eq_of_execute h
  rfl

theorem program_step {m m' : Machine s} (h : m.step = .ok (some m')) : m'.program = m.program := by
  obtain ⟨e, m₁, -, hx, rfl⟩ := eq_of_step h
  change m₁.program = m.program
  exact program_execute hx

theorem append_of_assemble {m m' : Machine s} {line : String} (h : m.assemble line = .ok m') :
    ∃ e, Entry.parse s.registerCount line = .ok e ∧ m.program.append e = .ok m'.program ∧
      m' = { m with program := m'.program } := by
  obtain ⟨p, hp, h⟩ := bind_eq_ok_iff.mp h
  obtain ⟨e, he, happ⟩ := bind_eq_ok_iff.mp hp
  cases pure_eq_ok_iff.mp h
  exact ⟨e, he, mapError_eq_ok_iff.mp happ, rfl⟩

/-- A line is accepted if it makes an entry whose label, if it has one, is new. -/
theorem assemble_of_parse {m : Machine s} {line : String} {e : Entry}
    (he : Entry.parse s.registerCount line = .ok e)
    (hnew : ∀ label, e.label = some label → m.program.index? label = none) :
    m.assemble line = .ok { m with program := m.program.push e } := by
  have haccept : m.program.accept s.registerCount line = .ok (m.program.push e) := by
    rw [Program.accept_of_parse he]
    exact mapError_eq_ok_iff.mpr (Program.append_eq_ok_iff.mpr ⟨hnew, rfl⟩)
  rw [assemble, haccept]
  rfl

theorem program_after_of_line?_eq_none (m : Machine s) {call : Call s} (h : call.line? = none) :
    (m.after call).program = m.program := by
  cases call with
  | assemble line => cases h
  | step =>
    cases h : m.step with
    | error e => simp [after, h, Except.toOption]
    | ok o =>
      cases o with
      | none => simp [after, h, Except.toOption]
      | some m' => simpa [after, h, Except.toOption] using program_step h
  | run fuel =>
    cases h : (m.run fuel).final? with
    | none => simp [after, h]
    | some m' =>
      have keep : ∀ m₁ m₂ : Machine s, m₁.step = .ok (some m₂) → m₁.program = m.program →
          m₂.program = m.program := fun m₁ m₂ hs h₁ => (program_step hs).trans h₁
      simpa [after, h] using run_induction keep rfl h
  | execute i =>
    cases h : m.execute i with
    | error e => simp [after, h, Except.toOption]
    | ok m' => simpa [after, h, Except.toOption] using program_execute h
  | edit e => rfl

/-- Only an accepted line changes the program, and only by the entry it makes. -/
theorem program_after (m : Machine s) (call : Call s) :
    (m.after call).program = m.program ∨ ∃ line e,
      Entry.parse s.registerCount line = .ok e ∧ m.program.append e = .ok (m.after call).program := by
  cases call with
  | assemble line =>
    cases h : m.assemble line with
    | error e => left; simp [after, h, Except.toOption]
    | ok m' =>
      obtain ⟨e, he, happ, -⟩ := append_of_assemble h
      exact .inr ⟨line, e, he, by simpa [after, h, Except.toOption] using happ⟩
  | step | run | execute | edit => exact .inl (program_after_of_line?_eq_none m rfl)

theorem extends_after (m : Machine s) (call : Call s) :
    m.program.Extends (m.after call).program := by
  rcases program_after m call with h | ⟨line, e, -, h⟩
  · rw [h]
    exact .refl _
  · exact Program.extends_of_append h

theorem extends_afterAll (m : Machine s) (calls : List (Call s)) :
    m.program.Extends (m.afterAll calls).program :=
  afterAll_induction (P := fun m' => m.program.Extends m'.program)
    (fun m' call h => h.trans (extends_after m' call)) (.refl _) calls

theorem Reachable.consistent {m : Machine s} (h : m.Reachable) :
    m.program.Consistent s.registerCount := by
  induction h with
  | new => exact Program.consistent_empty s.registerCount
  | after h call ih =>
    rcases program_after _ call with hp | ⟨line, e, he, hp⟩
    · rw [hp]
      exact ih
    · exact ih.append he hp

/-- On every machine that calls lead to, the table of labels and the entries tell the same: a label
stands for an index exactly when the entry there bears it, so no two entries share a label. Labels
are identifiers and no registers, instructions come from decoding, and no further call changes an
entry or what a label stands for. -/
theorem label_table_agrees {m : Machine s} (h : m.Reachable) :
    (∀ label i, m.program.index? label = some i ↔
      i < m.program.size ∧ (m.program.get? i).bind Entry.label = some label) ∧
    (∀ i j e e' label, m.program.get? i = some e → m.program.get? j = some e' →
      e.label = some label → e'.label = some label → i = j) ∧
    (∀ i e, m.program.get? i = some e →
      (∀ label, e.label = some label →
        Token.isLabel label = true ∧ Token.isRegister label = false) ∧
      ∃ tokens : List Token,
        (∀ t ∈ tokens, ∃ text, Token.classify e.mnemonic.takesLabel text = .ok t) ∧
        Instruction.decode e.mnemonic s.registerCount tokens = .ok e.instruction) ∧
    (∀ calls : List (Call s),
      (∀ i e, m.program.get? i = some e → (m.afterAll calls).program.get? i = some e) ∧
      ∀ label i, m.program.index? label = some i →
        (m.afterAll calls).program.index? label = some i) := by
  have hc := h.consistent
  refine ⟨?_, fun i j e e' label => hc.eq_of_label_eq, ?_, ?_⟩
  · intro label i
    rw [hc.index?_eq_some_iff label i]
    constructor
    · intro hl
      obtain ⟨e, he, -⟩ := Option.bind_eq_some_iff.mp hl
      exact ⟨Program.lt_size_of_get? he, hl⟩
    · exact And.right
  · intro i e he
    obtain ⟨-, parts, texts, tokens, hparts, hlabel, -, -, htokens, hi⟩ :=
      Entry.parse_eq_ok_iff.mp (hc.parse_source i e he)
    exact ⟨fun label hl => SourceLine.isLabel_of_parse hparts (hlabel.trans hl), tokens,
      fun t ht => exists_of_mem_results htokens ht, hi⟩
  · intro calls
    have hext := extends_afterAll m calls
    exact ⟨hext.get?, hext.index?⟩

/-- A loop that counts `R0` down, entered after one of its steps; a second `loop` was refused. -/
def countdown : Machine (.architectural .w32) :=
  (new _).afterAll [.assemble "loop SUBS R0, R0, #1", .assemble " BNE loop ; until zero",
    .assemble "loop NOP", .step]

theorem label_table_agrees_countdown : countdown.Reachable ∧ countdown.program.size = 2 ∧
    countdown.program.index? "loop" = some 0 ∧
    ∀ calls, (countdown.afterAll calls).program.index? "loop" = some 0 := by
  have h : countdown.Reachable := Reachable.new.afterAll _
  have hl : countdown.program.index? "loop" = some 0 := by decide +kernel
  refine ⟨h, by decide +kernel, hl, ?_⟩
  intro calls
  exact ((label_table_agrees h).2.2.2 calls).2 "loop" 0 hl

end Machine
end Thumb
