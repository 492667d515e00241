import Thumb.Proofs.Feeding
import Thumb.Proofs.Frame

/-! The program counter as an index. Control goes to the next entry, or to the one that bears the
label of a branch, as long as the index of that entry fits a register; beyond that `PC` and the
return address wrap around, for a register holds no more than a word. -/
namespace Thumb

variable {s : Shape}

namespace Instruction

/-- The label that control goes to under the given flags. -/
def takenLabel? (f : Flags) : Instruction → Option String
  | branch cond label => if cond.holds f then some label else none
  | branchLink label => some label
  | _ => none

/-- Under the given flags control does not go on to the next entry: it goes to a label or to the
value of a register, or it is moved by a write to `PC`. -/
def Jumps (i : Instruction) (f : Flags) : Prop :=
  (i.takenLabel? f).isSome ∨ i.mnemonic = .bx ∨ i.mnemonic = .blx ∨ i.destination? = some .pc

theorem takenLabel?_eq_some_iff {i : Instruction} {f : Flags} {label : String} :
    i.takenLabel? f = some label ↔
      (∃ cond, cond.holds f = true ∧ i = .branch cond label) ∨ i = .branchLink label := by
  cases i <;> simp [takenLabel?]

theorem label?_eq_of_taken {i : Instruction} {f : Flags} {label : String}
    (h : i.takenLabel? f = some label) : i.label? = some label := by
  obtain ⟨cond, -, rfl⟩ | rfl := takenLabel?_eq_some_iff.mp h <;> rfl

end Instruction

namespace RegisterFile

variable (f : RegisterFile s) (target : ℕ) {i : Instruction}

theorem target?_effect_of_not_jumps (h : ¬i.Jumps f.flags) :
    (f.effect target i).target? = none := by
  have hput : ∀ {g : RegisterFile s} {rd : Register} {v : s.Word},
      i.destination? = some rd → (g.put rd v).target? = none := by
    intro g rd v hd
    have hrd : rd ≠ .pc := by
      rintro rfl
      exact h (.inr (.inr (.inr hd)))
    rw [put_of_ne hrd]
    rfl
  cases i with
  | branch cond label =>
    have hcond : cond.holds f.flags = false := by
      by_contra hc
      exact h (.inl (by simp [Instruction.takenLabel?, hc]))
    simp [effect, hcond, stay]
  | branchLink => exact absurd (.inl rfl) h
  | branchLinkExchange => exact absurd (.inr (.inr (.inl rfl))) h
  | branchExchange => exact absurd (.inr (.inl rfl)) h
  | addCarry | compare | compareSum | test | writeSpecial | nop => rfl
  | _ => exact hput rfl

theorem target?_effect_of_taken {label : String} (h : i.takenLabel? f.flags = some label) :
    (f.effect target i).target? = some (s.word target) := by
  obtain ⟨cond, hcond, rfl⟩ | rfl := Instruction.takenLabel?_eq_some_iff.mp h
  · rw [effect, if_pos hcond]
    rfl
  · rfl

/-- A branch with link keeps the index of the following instruction. -/
theorem get_lr_perform (h : i.mnemonic = .bl ∨ i.mnemonic = .blx) :
    (f.perform target i).get .lr = f.following := by
  rw [get_perform_of_ne (by decide)]
  cases i with
  | branchLink | branchLinkExchange => exact get_set_self _ _ _
  | addCarry op | arith op | bitwise op | shift op | shiftBy op | reverse op | extend op =>
    cases op <;> simp [Instruction.mnemonic] at h
  | _ => simp [Instruction.mnemonic] at h

theorem toNat_following : f.following.toNat = ((f.get .pc).toNat + 1) % 2 ^ s.bits := by
  have hone : (1 : s.Word).toNat = 1 :=
    Nat.mod_eq_of_lt (Nat.one_lt_two_pow (by have := s.sixteen_le_bits; omega))
  rw [following, BitVec.toNat_add, hone]

end RegisterFile

namespace Machine

/-- Where a step leaves control and the return address, when the index `n` of an entry is kept as the
number `index n`. -/
structure Counts (m m' : Machine s) (i : Instruction) (index : ℕ → ℕ) : Prop where
  next : ¬i.Jumps m.registers.flags → m'.pc = index (m.pc + 1)
  taken : ∀ label j e, i.takenLabel? m.registers.flags = some label → m.program.get? j = some e →
    e.label = some label → m'.pc = index j
  link : i.mnemonic = .bl ∨ i.mnemonic = .blx →
    (m'.registers.get .lr).toNat = index (m.pc + 1)

variable {m m' : Machine s} {e : Entry}

/-- Indices are kept as their residues. -/
theorem counts_of_consistent (h : m.program.Consistent s.registerCount)
    (he : m.program.get? m.pc = some e) (hs : m.step = .ok (some m')) :
    m.Counts m' e.instruction (· % 2 ^ s.bits) := by
  obtain ⟨e₁, m₁, he₁, hx, rfl⟩ := eq_of_step hs
  cases he.symm.trans he₁
  obtain ⟨target, ht, rfl⟩ := eq_of_execute hx
  constructor
  · intro hnot
    change ((m.registers.perform target e.instruction).get .pc).toNat = _
    rw [RegisterFile.get_pc_perform, RegisterFile.target?_effect_of_not_jumps _ _ hnot]
    exact m.registers.toNat_following
  · intro label j e' htaken hj hlabel
    have hindex := (h.index?_eq_some_iff label j).mpr (by simp [hj, hlabel])
    have htarget := index?_of_target ht (Instruction.label?_eq_of_taken htaken)
    obtain rfl : j = target := Option.some.inj (hindex.symm.trans htarget)
    change ((m.registers.perform j e.instruction).get .pc).toNat = _
    rw [RegisterFile.get_pc_perform, RegisterFile.target?_effect_of_taken _ _ htaken]
    exact BitVec.toNat_ofNat _ _
  · intro hlink
    change ((m.registers.perform target e.instruction).get .lr).toNat = _
    rw [RegisterFile.get_lr_perform _ _ hlink]
    exact m.registers.toNat_following

theorem counts_of_step (h : m.Reachable) (he : m.program.get? m.pc = some e)
    (hs : m.step = .ok (some m')) : m.Counts m' e.instruction (· % 2 ^ s.bits) :=
  counts_of_consistent h.consistent he hs

/-- In a program that leaves a word to spare indices are kept as they are. -/
theorem Counts.exact (h : m.Counts m' e.instruction (· % 2 ^ s.bits))
    (he : m.program.get? m.pc = some e) (hsize : m.program.size < 2 ^ s.bits) :
    m.Counts m' e.instruction id := by
  have hpc := Program.lt_size_of_get? he
  have hnext : (m.pc + 1) % 2 ^ s.bits = m.pc + 1 := Nat.mod_eq_of_lt (by omega)
  refine ⟨fun hnot => (h.next hnot).trans hnext, ?_, fun hlink => (h.link hlink).trans hnext⟩
  intro label j e' htaken hj hlabel
  have hlt := Program.lt_size_of_get? hj
  exact (h.taken label j e' htaken hj hlabel).trans (Nat.mod_eq_of_lt (by omega))

/-- The program counter is the index of an entry modulo the range of a word. A step that does not jump
moves it to the next index, a taken branch moves it to the index of the entry that bears the label,
and a branch with link keeps the next index in `LR`, all of them reduced. If the program has fewer
entries than there are words the indices themselves are kept, so that the entry with the label is
the one to be executed next. -/
theorem step_counts (h : m.Reachable) (he : m.program.get? m.pc = some e)
    (hs : m.step = .ok (some m')) :
    m.Counts m' e.instruction (· % 2 ^ s.bits) ∧
    (m.program.size < 2 ^ s.bits → m.Counts m' e.instruction id ∧
      ∀ label j e', e.instruction.takenLabel? m.registers.flags = some label →
        m.program.get? j = some e' → e'.label = some label →
        m'.program.get? m'.pc = some e') := by
  have hcounts := counts_of_step h he hs
  refine ⟨hcounts, ?_⟩
  intro hsize
  have hexact := hcounts.exact he hsize
  refine ⟨hexact, ?_⟩
  intro label j e' htaken hj hlabel
  rw [program_step hs, hexact.taken label j e' htaken hj hlabel]
  exact hj

/-- Lines without labels that make entries are all accepted, and no label gets another index. -/
theorem feed_unlabelled {lines : List String} (h : ∀ line ∈ lines, ∃ e,
    Entry.parse s.registerCount line = .ok e ∧ e.label = none) (m : Machine s) :
    ∃ p, m.feed lines = { m with program := p } ∧ p.size = m.program.size + lines.length ∧
      m.program.Extends p ∧ ∀ label, p.index? label = m.program.index? label := by
  induction lines generalizing m with
  | nil => exact ⟨m.program, rfl, rfl, .refl _, fun _ => rfl⟩
  | cons line lines ih =>
    obtain ⟨⟨e, he, hlabel⟩, hlines⟩ := List.forall_mem_cons.mp h
    have hassemble := assemble_of_parse (m := m) he (by simp [hlabel])
    obtain ⟨p, hp, hsize, hext, hindex⟩ := ih hlines { m with program := m.program.push e }
    refine ⟨p, ?_, ?_, ?_, ?_⟩
    · rw [feed_cons, after, hassemble]
      exact hp
    · rw [hsize, Program.size_push, List.length_cons]
      omega
    · refine Program.Extends.trans (Program.extends_of_append (e := e) ?_) hext
      exact Program.append_eq_ok_iff.mpr ⟨by simp [hlabel], rfl⟩
    · intro label
      rw [hindex, Program.index?_push, hlabel, if_neg (Option.some_ne_none label).symm]

/-- A machine of sixteen bits with a call across `n` entries to the last one. -/
def callAcross (n : ℕ) : Machine (.architectural .w16) :=
  (new _).feed (" BL far" :: (List.replicate n " NOP" ++ ["far NOP"]))

theorem reachable_callAcross (n : ℕ) : (callAcross n).Reachable := Reachable.new.afterAll _

theorem callAcross_eq (n : ℕ) : ∃ p, callAcross n = { new _ with program := p } ∧
    p.size = n + 2 ∧ p.get? 0 = some ⟨" BL far", none, .bl, .branchLink "far"⟩ ∧
    p.get? (n + 1) = some ⟨"far NOP", some "far", .nop, .nop⟩ ∧ p.index? "far" = some (n + 1) := by
  have hcall : Entry.parse 16 " BL far" = .ok ⟨" BL far", none, .bl, .branchLink "far"⟩ := by
    decide +kernel
  have hnop : Entry.parse 16 " NOP" = .ok ⟨" NOP", none, .nop, .nop⟩ := by decide +kernel
  have hfar : Entry.parse 16 "far NOP" = .ok ⟨"far NOP", some "far", .nop, .nop⟩ := by
    decide +kernel
  have hnops : ∀ line ∈ List.replicate n " NOP", ∃ e,
      Entry.parse (Shape.architectural .w16).registerCount line = .ok e ∧ e.label = none := by
    intro line hline
    rw [List.eq_of_mem_replicate hline]
    exact ⟨_, hnop, rfl⟩
  have hfirst := assemble_of_parse (m := new (.architectural .w16)) hcall nofun
  obtain ⟨p, hp, hsize, hext, hindex⟩ := feed_unlabelled hnops
    { new (.architectural .w16) with
      program := Program.empty.push ⟨" BL far", none, .bl, .branchLink "far"⟩ }
  rw [List.length_replicate, Program.size_push, Program.size_empty, Nat.add_comm] at hsize
  have hnone : p.index? "far" = none := hindex "far"
  have hlast := assemble_of_parse (m := { new (.architectural .w16) with program := p }) hfar
    (by rintro label ⟨⟩; exact hnone)
  refine ⟨p.push ⟨"far NOP", some "far", .nop, .nop⟩, ?_, ?_, ?_, ?_, ?_⟩
  · rw [callAcross, feed_cons, after, hfirst, feed_append]
    change (feed { new _ with program := Program.empty.push _ } _).feed _ = _
    rw [hp, feed_cons, feed_nil, after, hlast]
    rfl
  · rw [Program.size_push, hsize]
  · rw [Program.get?_push_of_lt (by omega)]
    exact hext.get? 0 _ rfl
  · rw [← hsize, Program.get?_push_size]
  · rw [Program.index?_push, if_pos rfl, hsize]

theorem step_callAcross (n : ℕ) : ∃ e e' m', (callAcross n).program.get? (callAcross n).pc = some e ∧
    e.instruction = .branchLink "far" ∧ (callAcross n).program.get? (n + 1) = some e' ∧
    e'.label = some "far" ∧ (callAcross n).step = .ok (some m') ∧ m'.pc = (n + 1) % 2 ^ 16 := by
  obtain ⟨p, hp, -, hcall, hfar, hindex⟩ := callAcross_eq n
  have hpc : (callAcross n).pc = 0 := by
    rw [hp]
    rfl
  have hget : (callAcross n).program.get? (callAcross n).pc =
      some ⟨" BL far", none, .bl, .branchLink "far"⟩ := by
    rw [hpc, hp]
    exact hcall
  have hlast : (callAcross n).program.get? (n + 1) = some ⟨"far NOP", some "far", .nop, .nop⟩ := by
    rw [hp]
    exact hfar
  have htarget : (callAcross n).target (.branchLink "far") = .ok (n + 1) := by
    rw [hp]
    simp [target, Instruction.label?, hindex]
  obtain ⟨m', hstep⟩ : ∃ m', (callAcross n).step = .ok (some m') := by
    rw [step, hget]
    dsimp only
    rw [execute, htarget]
    exact ⟨_, rfl⟩
  have hcounts := counts_of_step (reachable_callAcross n) hget hstep
  exact ⟨_, _, m', hget, rfl, hlast, rfl, hstep, hcounts.taken "far" (n + 1) _ rfl hlast rfl⟩

/-- The last of 65537 entries has an index that does not fit in sixteen bits: the call to it goes to
the first entry, itself, instead. -/
theorem step_counts_overlong : (callAcross 65535).Reachable ∧ ∃ e e' m',
    (callAcross 65535).program.get? (callAcross 65535).pc = some e ∧
    e.instruction = .branchLink "far" ∧ (callAcross 65535).program.get? 65536 = some e' ∧
    e'.label = some "far" ∧ (callAcross 65535).step = .ok (some m') ∧ m'.pc = 0 ∧
    ¬(callAcross 65535).Counts m' e.instruction id := by
  obtain ⟨e, e', m', he, hi, he', hlabel, hstep, hpc⟩ := step_callAcross 65535
  refine ⟨reachable_callAcross _, e, e', m', he, hi, he', hlabel, hstep, hpc, ?_⟩
  intro hcounts
  have hj := hcounts.taken "far" 65536 e' (by rw [hi]; rfl) he' hlabel
  rw [hpc] at hj
  cases hj

theorem step_counts_short : (callAcross 1).Reachable ∧ ∃ e e' m',
    (callAcross 1).program.get? (callAcross 1).pc = some e ∧
    (callAcross 1).step = .ok (some m') ∧ (callAcross 1).program.get? 2 = some e' ∧
    (callAcross 1).program.size < 2 ^ 16 ∧ m'.pc = 2 ∧ (m'.registers.get .lr).toNat = 1 ∧
    m'.program.get? m'.pc = some e' := by
  obtain ⟨e, e', m', he, hi, he', hlabel, hstep, -⟩ := step_callAcross 1
  have hsize : (callAcross 1).program.size = 3 := by
    obtain ⟨p, hp, hsize, -⟩ := callAcross_eq 1
    rw [hp]
    exact hsize
  have hpc : (callAcross 1).pc = 0 := by
    obtain ⟨p, hp, -⟩ := callAcross_eq 1
    rw [hp]
    rfl
  have hfits : (callAcross 1).program.size < 2 ^ 16 := by
    rw [hsize]
    decide
  have htaken : e.instruction.takenLabel? (callAcross 1).registers.flags = some "far" := by
    rw [hi]
    rfl
  obtain ⟨hcounts, hnext⟩ := (step_counts (reachable_callAcross 1) he hstep).2 hfits
  have hlr := hcounts.link (by rw [hi]; exact .inl rfl)
  rw [hpc] at hlr
  exact ⟨reachable_callAcross 1, e, e', m', he, hstep, he', hfits,
    hcounts.taken "far" 2 e' htaken he' hlabel, hlr, hnext "far" 2 e' htaken he' hlabel⟩

end Machine
end Thumb
