/-! The four condition flags and the status word that shows them: `N`, `Z`, `C` and `V` are its four
highest bits, in that order, and the other bits are clear. -/
namespace Thumb

inductive Flag
  /-- Negative: the top bit of the result. -/
  | n
  /-- Zero. -/
  | z
  /-- Carry; after a subtraction, the absence of a borrow. -/
  | c
  /-- Overflow of the signed result. -/
  | v
  deriving DecidableEq

/-- How far a flag lies below the end of the status word. -/
def Flag.offset : Flag → Nat
  | .n => 1
  | .z => 2
  | .c => 3
  | .v => 4

/-- The bit of one flag in a status word of the given width. -/
def Flag.mask (w : Nat) (flag : Flag) : BitVec w := BitVec.twoPow w (w - flag.offset)

structure Flags where
  n : Bool
  z : Bool
  c : Bool
  v : Bool
  deriving DecidableEq

namespace Flags

def clear : Flags := ⟨false, false, false, false⟩

def get (f : Flags) : Flag → Bool
  | .n => f.n
  | .z => f.z
  | .c => f.c
  | .v => f.v

def set (f : Flags) (flag : Flag) (b : Bool) : Flags :=
  match flag with
  | .n => { f with n := b }
  | .z => { f with z := b }
  | .c => { f with c := b }
  | .v => { f with v := b }

@[simp] theorem get_set_self (f : Flags) (flag : Flag) (b : Bool) : (f.set flag b).get flag = b := by
  cases flag <;> rfl

@[simp] theorem get_set_of_ne {flag flag' : Flag} (h : flag' ≠ flag) (f : Flags) (b : Bool) :
    (f.set flag b).get flag' = f.get flag' := by
  cases flag <;> cases flag' <;> simp_all [get, set]

@[ext] theorem ext_get {f g : Flags} (h : ∀ flag, f.get flag = g.get flag) : f = g := by
  have hn := h .n
  have hz := h .z
  have hc := h .c
  have hv := h .v
  cases f
  cases g
  simp_all [get]

def word (w : Nat) (f : Flags) : BitVec w :=
  let bit (flag : Flag) : BitVec w := if f.get flag then flag.mask w else 0
  bit .n ||| bit .z ||| bit .c ||| bit .v

/-- The flags that a status word shows; its other bits do not count. -/
def ofWord {w : Nat} (x : BitVec w) : Flags :=
  let bit (flag : Flag) : Bool := x.getLsbD (w - flag.offset)
  ⟨bit .n, bit .z, bit .c, bit .v⟩

@[simp] theorem get_ofWord {w : Nat} (x : BitVec w) (flag : Flag) :
    (ofWord x).get flag = x.getLsbD (w - flag.offset) := by cases flag <;> rfl

theorem getLsbD_word {w : Nat} (h : 4 ≤ w) (f : Flags) (i : Nat) :
    (f.word w).getLsbD i =
      (f.n && i == w - 1 || f.z && i == w - 2 || f.c && i == w - 3 || f.v && i == w - 4) := by
  have hmask (k : Nat) (hk : 0 < k) (hk' : k ≤ 4) :
      (BitVec.twoPow w (w - k)).getLsbD i = (i == w - k) := by
    rw [BitVec.getLsbD_twoPow]
    by_cases hi : w - k = i
    · subst hi
      simp
      omega
    · simp [hi, Ne.symm hi]
  have mask1 := hmask 1 (by decide) (by decide)
  have mask2 := hmask 2 (by decide) (by decide)
  have mask3 := hmask 3 (by decide) (by decide)
  have mask4 := hmask 4 (by decide) (by decide)
  obtain ⟨n, z, c, v⟩ := f
  cases n <;> cases z <;> cases c <;> cases v <;>
    simp [word, get, Flag.mask, Flag.offset, mask1, mask2, mask3, mask4]

/-- What a status word shows are its four flag bits. -/
theorem word_ofWord {w : Nat} (h : 4 ≤ w) (x : BitVec w) :
    (ofWord x).word w = x &&& word w ⟨true, true, true, true⟩ := by
  ext i hi
  simp only [← BitVec.getLsbD_eq_getElem, BitVec.getLsbD_and, getLsbD_word h]
  have bit (k : Nat) : (x.getLsbD (w - k) && i == w - k) = (x.getLsbD i && i == w - k) := by
    by_cases hk : i = w - k
    · rw [hk]
    · rw [beq_false_of_ne hk, Bool.and_false, Bool.and_false]
  simp [ofWord, Flag.offset, bit, Bool.and_or_distrib_left]

/-- The status word loses nothing. -/
@[simp] theorem ofWord_word {w : Nat} (h : 4 ≤ w) (f : Flags) : ofWord (f.word w) = f := by
  ext flag
  rw [get_ofWord, getLsbD_word h]
  have hne (a b : Nat) (ha : a ≤ 4) (hb : b ≤ 4) (hab : a ≠ b) : (w - a == w - b) = false := by
    simp
    omega
  cases flag <;> simp [get, Flag.offset, hne]

end Flags
end Thumb
