import Thumb.Proofs.Computation
import Thumb.Proofs.DecodeTable
import Thumb.Proofs.LineCutting
import Thumb.Proofs.ProgramLabels
import Thumb.Proofs.RegisterNames

/-! The meaning of an accepted line of arithmetic, logic or moves, in terms of what is written on it.
The line is taken apart by its grammar, the sources are read as written, and the written destination
holds the result after one step. -/
namespace Thumb

variable {s : Shape}

namespace RegisterFile

/-- The number that the text of a source stands for: that in the register it names, or its own. -/
def Reads (f : RegisterFile s) (text : String) (n : ℕ) : Prop :=
  f.readNamed text = .ok n ∨ Token.immediateValue text = .ok n

theorem readNamed_eq_get (f : RegisterFile s) {text : String} {r : Register}
    (h : Token.registerNumber text = .ok r.index) : f.readNamed text = .ok (f.get r).toNat := by
  have hlt : r.index < s.registerCount := Nat.lt_of_lt_of_le r.index_lt s.sixteen_le
  have hlocation : Location.ofName s text = .ok (.slot (s.slot r)) := by
    unfold Location.ofName
    dsimp only
    rw [Token.ofName?_eq_none_of_registerNumber h, Token.registerNumber_trimmed, h]
    exact dif_pos hlt
  rw [readNamed, hlocation]
  rfl

theorem isRegister_of_readNamed {f : RegisterFile s} {text : String} {n : ℕ}
    (h : f.readNamed text = .ok n) : Token.isRegister text = true := by
  obtain ⟨l, hl, -⟩ := map_eq_ok_iff.mp h
  exact Location.isRegister_of_ofName hl

theorem Reads.unique {f : RegisterFile s} {text : String} {n k : ℕ} (hn : f.Reads text n)
    (hk : f.Reads text k) : n = k := by
  have hno : ∀ {i j}, f.readNamed text = .ok i → Token.immediateValue text ≠ .ok j := by
    intro i j hi hj
    have hregister := isRegister_of_readNamed hi
    have himmediate := Token.isImmediate_of_immediateValue hj
    rw [Token.isRegister_eq_false_of_isImmediate himmediate] at hregister
    cases hregister
  rcases hn with hn | hn
  · rcases hk with hk | hk
    · exact Except.ok.inj (hn.symm.trans hk)
    · exact absurd hk (hno hn)
  · rcases hk with hk | hk
    · exact absurd hn (hno hk)
    · exact Except.ok.inj (hn.symm.trans hk)

theorem reads_of_holds {f : RegisterFile s} {t : Token} {w : Written} {n : ℕ} (ht : t.Says w)
    (hn : f.Holds w n) : f.Reads t.text n := by
  cases hn with
  | register r =>
    cases ht with
    | register h => exact .inl (f.readNamed_eq_get h)
  | literal n =>
    cases ht with
    | literal h => exact .inr h

/-- Sources are read off their texts as their tokens say. -/
theorem reads_of_tokens {f : RegisterFile s} {allowLabel : Bool} {texts : List String}
    {tokens : List Token} {ws : List Written} {values : List ℕ}
    (hclass : List.Forall₂ (fun text t => Token.classify allowLabel text = .ok t) texts tokens)
    (hsaid : List.Forall₂ Token.Says tokens ws) (hholds : List.Forall₂ f.Holds ws values) :
    List.Forall₂ f.Reads texts values := by
  induction hholds generalizing texts tokens with
  | nil =>
    cases hsaid
    cases hclass
    exact .nil
  | cons hn _ ih =>
    obtain _ | ⟨ht, hsaid⟩ := hsaid
    obtain _ | ⟨htext, hclass⟩ := hclass
    refine .cons ?_ (ih hclass hsaid)
    rw [← Token.text_of_classify htext]
    exact reads_of_holds ht hn

end RegisterFile

namespace Machine

theorem step_eq_of_label?_eq_none {m : Machine s} {e : Entry} (he : m.program.get? m.pc = some e)
    (h : e.instruction.label? = none) :
    m.step = .ok (some { m with
      registers := m.registers.perform 0 e.instruction, executed := m.executed + 1 }) :=
  step_eq_of_target he (by rw [target, h])

/-- What an accepted line of arithmetic, logic or moves means. On every machine that calls lead to,
with such a line at `PC`, the line is written as a label, a name and operands. However it is written
so, the step succeeds and leaves in the first operand the residue of what the name means, applied to
the values of the other operands as written; if the first operand is `PC`, control goes there. -/
theorem step_computes {m : Machine s} (h : m.Reachable) {e : Entry}
    (he : m.program.get? m.pc = some e) (hm : e.mnemonic ∈ Mnemonic.computing) :
    (∃ label name operands, SourceLine.Spells e.source label name operands) ∧
    ∀ label name operands, SourceLine.Spells e.source label name operands →
      Mnemonic.ofName? name = some e.mnemonic ∧
      ∃ rd sources values z m', operands = rd :: sources ∧
        List.Forall₂ m.registers.Reads sources values ∧
        e.mnemonic.meaning? m.registers.flags.c values = some z ∧
        m.step = .ok (some m') ∧
        m'.registers.readNamed rd = .ok (z % 2 ^ s.bits).toNat ∧
        (Token.registerNumber rd = .ok Register.pc.index → m'.pc = (z % 2 ^ s.bits).toNat) := by
  obtain ⟨-, parts, texts, tokens, hparts, hlabel, hname, htexts, htokens, hi⟩ :=
    Entry.parse_eq_ok_iff.mp (h.consistent.parse_source _ e he)
  refine ⟨⟨_, _, _, SourceLine.spells_of_parse hparts htexts⟩, ?_⟩
  intro label name operands hspells
  obtain ⟨-, rfl, rfl⟩ := SourceLine.parts_of_spells hspells hparts htexts
  refine ⟨hname, ?_⟩
  have hclassified : ∀ t ∈ tokens, t.IsClassified := by
    intro t ht
    exact ⟨_, exists_of_mem_results htokens ht⟩
  obtain ⟨hmnemonic, ws, hsaid, hform⟩ :=
    (Instruction.decode_eq_ok_iff s.sixteen_le hclassified).mp hi
  rw [← hmnemonic] at hm
  obtain ⟨rd, sources, values, z, rfl, hholds, hz, hget⟩ :=
    RegisterFile.computes_of_hasForm m.registers 0 hform hm
  obtain _ | ⟨hrd, hsaid⟩ := hsaid
  obtain _ | @⟨text, t, _, _, htext, hclass⟩ := htokens
  have hnumber : Token.registerNumber text = .ok rd.index := by
    rw [← Token.text_of_classify htext]
    cases hrd with
    | register hnumber => exact hnumber
  have hread : (m.registers.perform 0 e.instruction).readNamed text =
      .ok (z % 2 ^ s.bits).toNat := by
    rw [RegisterFile.readNamed_eq_get _ hnumber, hget, BitVec.toNat_ofInt, Nat.cast_pow,
      Nat.cast_ofNat]
  refine ⟨text, _, values, z, _, rfl, RegisterFile.reads_of_tokens hclass hsaid hholds, ?_,
    step_eq_of_label?_eq_none he (Instruction.label?_eq_none hm), hread, ?_⟩
  · rw [← hmnemonic]
    exact hz
  · intro hpc
    rw [RegisterFile.readNamed_eq_get _ hpc] at hread
    exact Except.ok.inj hread

def borrowing : Machine (.architectural .w16) :=
  (new _).afterAll [.assemble " SUBS R1, R2, R1 ; wraps", .edit (.named "R1" 5),
    .edit (.named "r2" 3)]

theorem step_computes_borrowing : borrowing.Reachable ∧
    (∃ e, borrowing.program.get? borrowing.pc = some e ∧ e.mnemonic ∈ Mnemonic.computing) ∧
    SourceLine.Spells " SUBS R1, R2, R1 ; wraps" none "SUBS" ["R1", "R2", "R1"] ∧
    ∃ m', borrowing.step = .ok (some m') ∧ m'.registers.readNamed "R1" = .ok 65534 := by
  have h : borrowing.Reachable := Reachable.new.afterAll _
  have he : borrowing.program.get? borrowing.pc = some ⟨" SUBS R1, R2, R1 ; wraps", none, .subs,
      .arith .sub .r1 .r2 (.register .r1)⟩ := by decide +kernel
  have hm : Mnemonic.subs ∈ Mnemonic.computing := by decide
  have hparts : SourceLine.parse " SUBS R1, R2, R1 ; wraps" = .ok ⟨none, "SUBS", "R1, R2, R1"⟩ := by
    decide +kernel
  have htexts : SourceLine.operandTexts 3 "R1, R2, R1" = .ok ["R1", "R2", "R1"] := by decide +kernel
  have hspells := SourceLine.spells_of_parse hparts htexts
  refine ⟨h, ⟨_, he, hm⟩, hspells, ?_⟩
  obtain ⟨-, rd, sources, values, z, m', hops, hreads, hz, hstep, hrd, -⟩ :=
    (step_computes h he hm).2 _ _ _ hspells
  obtain ⟨rfl, rfl⟩ := List.cons.inj hops
  obtain _ | ⟨hx, _ | ⟨hy, ⟨⟩⟩⟩ := hreads
  obtain rfl := hx.unique (k := 3) (.inl (by decide +kernel))
  obtain rfl := hy.unique (k := 5) (.inl (by decide +kernel))
  obtain rfl := Option.some.inj hz
  exact ⟨m', hstep, hrd⟩

end Machine
end Thumb
