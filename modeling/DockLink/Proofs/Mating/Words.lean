import DockLink.Mating.Flags

/-!
# Words of flags, bit by bit

An orientation is put into three bits of a status word, whatever these were before, and it is read
from there. No other bit has a part in it.
-/

namespace DockLink

namespace Flags

variable {kind : FlagKind}

/-- Whether a bit is set. Bit 0 is the lowest one. -/
def bit (f : Flags kind) (i : Nat) : Bool := f.bits.toBitVec.getLsbD i

@[simp]
theorem bit_none (i : Nat) : (none : Flags kind).bit i = false := by
  simp [bit, none]

@[simp]
theorem bit_insert (f g : Flags kind) (i : Nat) : (f.insert g).bit i = (f.bit i || g.bit i) := by
  simp [bit, insert]

@[simp]
theorem bit_remove (f g : Flags kind) (i : Nat) : (f.remove g).bit i = (f.bit i && !g.bit i) := by
  by_cases hi : i < 16
  · simp [bit, remove, hi]
  · have hout : f.bits.toBitVec.getLsbD i = false := BitVec.getLsbD_of_ge _ _ (by omega)
    simp [bit, remove, hout]

theorem bit_matingSide (i : Nat) : StatusFlags.matingSide.bit i = decide (i = 8) := by
  have hbits : StatusFlags.matingSide.bits.toBitVec = BitVec.twoPow 16 8 := rfl
  rw [bit, hbits, BitVec.getLsbD_twoPow]
  grind

theorem bit_orientationField (i : Nat) :
    StatusFlags.orientationField.bit i = decide (i = 9 ∨ i = 10) := by
  have hbits : StatusFlags.orientationField.bits.toBitVec =
      BitVec.twoPow 16 9 ||| BitVec.twoPow 16 10 := rfl
  rw [bit, hbits, BitVec.getLsbD_or, BitVec.getLsbD_twoPow, BitVec.getLsbD_twoPow]
  grind

/-- A word contains another one if each bit of that is set in it as well. -/
theorem contains_iff (f g : Flags kind) : f.contains g ↔ ∀ i, g.bit i → f.bit i := by
  unfold bit
  rw [contains, decide_eq_true_iff, ← UInt16.toBitVec_inj, UInt16.toBitVec_and]
  constructor
  · intro hand i hi
    rw [← hand, BitVec.getLsbD_and, Bool.and_eq_true] at hi
    exact hi.1
  · intro hbits
    refine BitVec.eq_of_getLsbD_eq fun i _ => ?_
    rw [BitVec.getLsbD_and, Bool.and_eq_right_iff_imp]
    exact hbits i

theorem contains_matingSide (f : StatusFlags) : f.contains StatusFlags.matingSide ↔ f.bit 8 := by
  rw [contains_iff]
  simp [bit_matingSide]

/-- The lower bits of the orientation that is read are bits 9 and 10. -/
theorem getLsbD_orientationCode (f : StatusFlags) (i : Nat) :
    ((f.bits &&& StatusFlags.orientationField.bits) >>>
      StatusFlags.orientationShift).toUInt8.toBitVec.getLsbD i =
      (decide (i < 2) && f.bit (9 + i)) := by
  have hshift : ((f.bits &&& StatusFlags.orientationField.bits) >>>
      StatusFlags.orientationShift).toUInt8.toBitVec =
      ((f.bits.toBitVec &&& StatusFlags.orientationField.bits.toBitVec) >>> 9).setWidth 8 := rfl
  have hfield := bit_orientationField (9 + i)
  unfold bit at hfield ⊢
  rw [hshift, BitVec.getLsbD_setWidth, BitVec.getLsbD_ushiftRight, BitVec.getLsbD_and, hfield]
  grind

theorem getLsbD_code_of_le (o : Orientation) {i : Nat} (hi : 2 ≤ i) :
    o.code.toBitVec.getLsbD i = false := by
  have hlt : o.code.toBitVec.toNat < 2 ^ 2 := by cases o <;> decide
  exact Nat.testBit_lt_two_pow (Nat.lt_of_lt_of_le hlt (Nat.pow_le_pow_right (by decide) hi))

theorem bit_shiftedCode (o : Orientation) (i : Nat) :
    (⟨o.code.toUInt16 <<< StatusFlags.orientationShift⟩ : StatusFlags).bit i =
      (decide (9 ≤ i) && o.code.toBitVec.getLsbD (i - 9)) := by
  have hshift : (o.code.toUInt16 <<< StatusFlags.orientationShift).toBitVec =
      o.code.toBitVec.setWidth 16 <<< 9 := rfl
  have hcode := @getLsbD_code_of_le o (i - 9)
  rw [bit, hshift, BitVec.getLsbD_shiftLeft, BitVec.getLsbD_setWidth]
  grind

theorem bit_withOrientation_some (f : StatusFlags) (o : Orientation) (i : Nat) :
    (f.withOrientation (some o)).bit i =
      if i = 8 then true
      else if i = 9 ∨ i = 10 then o.code.toBitVec.getLsbD (i - 9)
      else f.bit i := by
  have hcode := @getLsbD_code_of_le o (i - 9)
  simp only [withOrientation, bit_insert, bit_remove, bit_matingSide, bit_orientationField,
    bit_shiftedCode]
  grind

theorem bit_withOrientation_none (f : StatusFlags) (i : Nat) :
    (f.withOrientation .none).bit i = if i = 8 ∨ i = 9 ∨ i = 10 then false else f.bit i := by
  simp only [withOrientation, bit_remove, bit_matingSide, bit_orientationField]
  grind

theorem ofLowBits_code (o : Orientation) : Orientation.ofLowBits o.code = o := by
  cases o <;> rfl

theorem orientation_of_bit (f : StatusFlags) (h : f.bit 8 = false) : f.orientation = .none := by
  rw [orientation, if_neg]
  rw [contains_matingSide, h]
  nofun

theorem orientation_withOrientation (f : StatusFlags) (o : Option Orientation) :
    (f.withOrientation o).orientation = o := by
  cases o with
  | none => exact orientation_of_bit _ (by rw [bit_withOrientation_none]; rfl)
  | some o =>
      have hcode : (((f.withOrientation (some o)).bits &&& StatusFlags.orientationField.bits) >>>
          StatusFlags.orientationShift).toUInt8 = o.code := by
        refine UInt8.toBitVec_inj.1 (BitVec.eq_of_getLsbD_eq fun i _ => ?_)
        have habove := @getLsbD_code_of_le o i
        rw [getLsbD_orientationCode, bit_withOrientation_some]
        grind
      rw [orientation, if_pos, hcode, ofLowBits_code]
      rw [contains_matingSide, bit_withOrientation_some]
      rfl

end Flags

end DockLink
