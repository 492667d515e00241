import Thumb.Proofs.Host.Histories
import Thumb.Proofs.RegisterNames

/-! Registers by name. However a bank was made, writing by name and reading by name are those of the
locations that the names denote: what is written is read back under every name of the location, cut to
the bits it has, and nothing else is read differently. -/
namespace Thumb

variable {s : Shape}

/-- The bits that a location keeps, as a number: the register width, the highest four bits of it for
the flags, one bit, two bits, or none. -/
def Location.kept : Location s → ℕ
  | slot _ | psp => 2 ^ s.bits - 1
  | flags => 2 ^ s.bits - 2 ^ (s.bits - 4)
  | primask => 1
  | control => 3
  | zero => 0

theorem Location.toNat_mask (l : Location s) : l.mask.toNat = l.kept := by
  have hbits : s.bits = s.width.bits := rfl
  cases l with
  | slot | psp => exact BitVec.toNat_allOnes
  | zero => rfl
  | flags | primask | control =>
    simp only [mask, kept]
    rw [hbits]
    cases s.width <;> decide +kernel

namespace Host

theorem widen_mask (l : Location s) : widen l.mask = BitVec.ofNat 64 l.kept := by
  rw [← l.toNat_mask, BitVec.ofNat_toNat]
  rfl

/-- Access by name is access to the locations that names denote. A name that denotes none is refused
in the same way by both; and reading and writing a register that is given by its kind is reading and
writing it by any name. -/
structure Bank.IsLens (s : Shape) (b : Bank) : Prop where
  refused : ∀ name v, (∀ l : Location s, ¬Location.IsNamed name l) →
    ∃ e, b.getNamed? name = some (.error e) ∧ b.setNamed? name v = some (.error e, b)
  accepted : ∀ name v (l : Location s), Location.IsNamed name l →
    (∃ u, b.getNamed? name = some (.ok u)) ∧ ∃ b', b.setNamed? name v = some (.ok (), b') ∧
      ∀ other,
        (Location.IsNamed other l →
          b'.getNamed? other = some (.ok (v &&& BitVec.ofNat 64 l.kept))) ∧
        (¬Location.IsNamed other l → b'.getNamed? other = b.getNamed? other)
  architectural : ∀ name (r : Register), Location.IsNamed name (r.location s) →
    b.getNamed? name = (b.read? r.index).map .ok ∧
      ∀ v, b.setNamed? name v = (b.write? r.index v).map fun b' => (.ok (), b')
  special : ∀ name (r : SpecialRegister), Location.IsNamed name (r.location s) →
    b.getNamed? name = (b.readSpecial? r).map .ok ∧
      ∀ v, b.setNamed? name v = (b.writeSpecial? r v).map fun b' => (.ok (), b')

section Pack

variable {name : String} {v : Word} {f : RegisterFile s} {l : Location s}

theorem getNamed?_of_isNamed (h : Location.IsNamed name l) :
    (pack f).getNamed? name = some (.ok (widen (f.load l))) := by
  rw [getNamed?_pack, RegisterFile.readNamed, Location.ofName_eq_ok_iff.mpr h]
  exact congrArg (fun u => some (Except.ok u)) (BitVec.ofNat_toNat 64 (f.load l))

theorem setNamed?_of_isNamed (h : Location.IsNamed name l) :
    (pack f).setNamed? name v = some (.ok (), pack (f.store l (narrow s.bits v))) := by
  rw [setNamed?_pack, RegisterFile.writeNamed, Location.ofName_eq_ok_iff.mpr h, ← word_toNat_eq]
  rfl

/-- What is read by name depends on the location that the name denotes only. -/
theorem getNamed?_congr {g : RegisterFile s}
    (h : ∀ l, Location.IsNamed name l → f.load l = g.load l) :
    (pack f).getNamed? name = (pack g).getNamed? name := by
  rw [getNamed?_pack, getNamed?_pack, RegisterFile.readNamed, RegisterFile.readNamed]
  cases hl : Location.ofName s name with
  | error e => rfl
  | ok l =>
    have hload := h l (Location.ofName_eq_ok_iff.mp hl)
    simp only [Except.map, RegisterFile.read, hload]

end Pack

theorem isLens_pack (f : RegisterFile s) : (pack f).IsLens s where
  refused := by
    intro name v hnone
    rw [getNamed?_pack, setNamed?_pack, RegisterFile.readNamed, RegisterFile.writeNamed]
    cases hl : Location.ofName s name with
    | error e => exact ⟨e, rfl, rfl⟩
    | ok l => exact absurd (Location.ofName_eq_ok_iff.mp hl) (hnone l)
  accepted := by
    intro name v l hl
    refine ⟨⟨_, getNamed?_of_isNamed hl⟩, _, setNamed?_of_isNamed hl, ?_⟩
    intro other
    constructor
    · intro hother
      rw [getNamed?_of_isNamed hother, RegisterFile.load_store_self, ← widen_mask,
        and_widen s.bits_le]
    · intro hother
      apply getNamed?_congr
      intro l' hl'
      apply RegisterFile.load_store_of_ne
      rintro rfl
      exact hother hl'
  architectural := by
    intro name r hr
    refine ⟨?_, ?_⟩
    · rw [getNamed?_of_isNamed hr]
      exact (congrArg (Option.map Except.ok) (read?_pack f (s.slot r))).symm
    · intro v
      rw [setNamed?_of_isNamed hr]
      exact (congrArg (Option.map _) (write?_pack f (s.slot r) v)).symm
  special := by
    intro name r hr
    refine ⟨?_, ?_⟩
    · rw [getNamed?_of_isNamed hr, readSpecial?_pack]
      rfl
    · intro v
      rw [setNamed?_of_isNamed hr, writeSpecial?_pack]
      rfl

theorem foldlM_edit?_pack (edits : List (Edit s)) (f : RegisterFile s) :
    edits.foldlM Bank.edit? (pack f) = some (pack (edits.foldl RegisterFile.edit f)) := by
  induction edits generalizing f with
  | nil => rfl
  | cons e edits ih =>
    rw [List.foldlM_cons, edit?_pack]
    exact ih _

/-- After whatever has been done to the registers of a new machine, access by name is access to the
locations that names denote. -/
theorem named_access_isLens {c : Config} (hc : c.shape = .ok s) (edits : List (Edit s)) :
    ∃ b, edits.foldlM Bank.edit? (Bank.zeroed c.bitWidth c.registerCount) = some b ∧
      b = pack (edits.foldl RegisterFile.edit (RegisterFile.zero s)) ∧ b.IsLens s := by
  obtain ⟨hbits, hcount⟩ := Shape.eq_of_ofSizes hc
  refine ⟨_, ?_, rfl, isLens_pack _⟩
  rw [← hbits, ← hcount, ← pack_zero]
  exact foldlM_edit?_pack edits _

/-- A write to the stack pointer of a machine of sixteen bits, with more bits than it has. -/
def overlong : List (Edit (.architectural .w16)) := [.named " sp\t" 0x12345]

theorem named_access_isLens_overlong :
    Config.shape { bitWidth := 16 } = .ok (.architectural .w16) ∧ ∃ b,
      overlong.foldlM Bank.edit? (Bank.zeroed 16 16) = some b ∧
      b.getNamed? "r0X00d" = some (.ok 0x2345) ∧
      (∃ e, b.getNamed? "R16" = some (.error e) ∧ b.setNamed? "R16" 1 = some (.error e, b)) ∧
      ∃ b', b.setNamed? "msp" 0x5fffe = some (.ok (), b') ∧
        b'.getNamed? "R13" = some (.ok 0xfffe) ∧ b'.getNamed? "xPSR" = b.getNamed? "xPSR" := by
  have hc : Config.shape { bitWidth := 16 } = .ok (.architectural .w16) := rfl
  obtain ⟨b, hb, rfl, hlens⟩ := named_access_isLens hc overlong
  have hmsp : Location.ofName (.architectural .w16) "msp" = .ok (Register.sp.location _) := by
    decide +kernel
  have hr13 : Location.ofName (.architectural .w16) "R13" = .ok (Register.sp.location _) := by
    decide +kernel
  have hxpsr : Location.ofName (.architectural .w16) "xPSR" = .ok .flags := by decide +kernel
  have hr16 (l : Location (.architectural .w16)) : ¬Location.IsNamed "R16" l := by
    intro hl
    have hname := Location.ofName_eq_ok_iff.mpr hl
    have hrefused : (Location.ofName (.architectural .w16) "R16").toOption = none := by
      decide +kernel
    rw [hname] at hrefused
    cases hrefused
  obtain ⟨-, b', hset, hother⟩ :=
    hlens.accepted "msp" 0x5fffe _ (Location.ofName_eq_ok_iff.mp hmsp)
  refine ⟨hc, _, hb, by decide +kernel, hlens.refused "R16" 1 hr16, b', hset, ?_, ?_⟩
  · exact (hother "R13").1 (Location.ofName_eq_ok_iff.mp hr13)
  · apply (hother "xPSR").2
    intro hnamed
    have hname := Location.ofName_eq_ok_iff.mpr hnamed
    rw [hxpsr] at hname
    cases hname

end Host
end Thumb
