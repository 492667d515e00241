/-! The bytes of a word, lowest first, and the operations that reorder or extend them: the three
byte reversals, and the extensions of a byte or a halfword to a whole word. -/
namespace Thumb

/-- The bytes of a word, lowest first. -/
def bytes {w : Nat} (v : BitVec w) : List (BitVec 8) :=
  (List.range (w / 8)).map fun i => v.extractLsb' (8 * i) 8

/-- The word with the given bytes, lowest first. -/
def ofBytes (w : Nat) (bs : List (BitVec 8)) : BitVec w :=
  bs.foldr (fun b acc => acc <<< 8 ||| b.setWidth w) 0

/-- The list with the members of each consecutive pair exchanged. -/
def swapPairs {α : Type} : List α → List α
  | a :: b :: rest => b :: a :: swapPairs rest
  | rest => rest

@[simp] theorem length_bytes {w : Nat} (v : BitVec w) : (bytes v).length = w / 8 := by
  simp [bytes]

@[simp] theorem swapPairs_swapPairs {α : Type} : (as : List α) → swapPairs (swapPairs as) = as
  | [] => rfl
  | [_] => rfl
  | a :: b :: rest => by simp [swapPairs, swapPairs_swapPairs rest]

inductive Reversal
  /-- All bytes of the word. -/
  | word
  /-- The two bytes of each halfword. -/
  | halfwords
  /-- The two bytes of the low halfword, which is then extended as a signed number. -/
  | signedHalfword
  deriving DecidableEq

def Reversal.eval {w : Nat} (op : Reversal) (v : BitVec w) : BitVec w :=
  match op with
  | word => ofBytes w (bytes v).reverse
  | halfwords => ofBytes w (swapPairs (bytes v))
  | signedHalfword => (ofBytes 16 (bytes (v.setWidth 16)).reverse).signExtend w

/-- The low `bits` bits of a 64-bit value, read as a signed number modulo `2 ^ w`. -/
def signExtend (w bits value : Nat) : BitVec w := (BitVec.ofNat (min bits 64) value).signExtend w

inductive Extension
  | sxtb
  | sxth
  | uxtb
  | uxth
  deriving DecidableEq

/-- The extension of the lowest byte or halfword of a word. -/
def Extension.eval {w : Nat} (op : Extension) (v : BitVec w) : BitVec w :=
  match op with
  | sxtb => (v.setWidth 8).signExtend w
  | sxth => (v.setWidth 16).signExtend w
  | uxtb => (v.setWidth 8).setWidth w
  | uxth => (v.setWidth 16).setWidth w

example : Reversal.word.eval (0x123456789abc : BitVec 48) = 0xbc9a78563412 := by decide

example : Reversal.halfwords.eval (0x12345678 : BitVec 32) = 0x34127856 := by decide

example : Reversal.signedHalfword.eval (0x12340080 : BitVec 32) = 0xffff8000 := by decide

end Thumb
