import Mathlib
import Savegame.Bytes.Checksum

/-!
# The checksum tells single changes

Every step of the checksum is injective in the register, so byte strings that differ in one byte
have different checksums.
-/

namespace Savegame.Bytes

namespace Checksum

theorem and_one_eq_one_iff (register : UInt32) :
    register &&& 1 = 1 ↔ register.toBitVec.getLsbD 0 = true := by
  have hand : (register &&& 1).toBitVec =
      BitVec.setWidth 32 (BitVec.ofBool (register.toBitVec.getLsbD 0)) := by
    rw [UInt32.toBitVec_and]
    exact BitVec.and_one_eq_setWidth_ofBool_getLsbD
  rw [← UInt32.toBitVec_inj, hand]
  cases register.toBitVec.getLsbD 0 <;> decide

theorem toBitVec_shift (register : UInt32) :
    (shift register).toBitVec =
      if register.toBitVec.getLsbD 0 then (register.toBitVec >>> 1) ^^^ 0xEDB88320#32
      else register.toBitVec >>> 1 := by
  rw [shift]
  simp only [and_one_eq_one_iff]
  split <;> rfl

/-- The bit that a shift divides out is the highest of the result. -/
theorem getLsbD_shift (register : UInt32) :
    (shift register).toBitVec.getLsbD 31 = register.toBitVec.getLsbD 0 := by
  rw [toBitVec_shift]
  cases hlow : register.toBitVec.getLsbD 0 <;> simp

theorem shift_injective : Function.Injective shift := by
  intro r s h
  have hlow : r.toBitVec.getLsbD 0 = s.toBitVec.getLsbD 0 := by
    rw [← getLsbD_shift, ← getLsbD_shift, h]
  have hrest : r.toBitVec >>> 1 = s.toBitVec >>> 1 := by
    have hshift := congrArg UInt32.toBitVec h
    rw [toBitVec_shift, toBitVec_shift, hlow] at hshift
    split at hshift
    · exact (BitVec.xor_left_inj _).mp hshift
    · exact hshift
  apply UInt32.toBitVec_inj.mp
  apply BitVec.eq_of_getLsbD_eq
  intro i hi
  cases i with
  | zero => exact hlow
  | succ i =>
    have hbit := congrArg (fun x => x.getLsbD i) hrest
    simpa [Nat.add_comm] using hbit

theorem step_injective (byte : UInt8) : Function.Injective fun r => step r byte := by
  intro r s h
  have hxor : r ^^^ byte.toUInt32 = s ^^^ byte.toUInt32 := by
    iterate 8 apply shift_injective
    exact h
  exact UInt32.xor_left_inj byte.toUInt32 |>.mp hxor

theorem step_ne (register : UInt32) {b c : UInt8} (h : b ≠ c) : step register b ≠ step register c := by
  intro hstep
  have hxor : register ^^^ b.toUInt32 = register ^^^ c.toUInt32 := by
    iterate 8 apply shift_injective
    exact hstep
  have hbyte : b.toUInt32 = c.toUInt32 := UInt32.xor_right_inj register |>.mp hxor
  exact h (UInt8.toUInt32_inj.mp hbyte)

theorem foldl_step_injective (bytes : Bytes) : Function.Injective fun r => bytes.foldl step r := by
  induction bytes with
  | nil => exact Function.injective_id
  | cons b rest ih => exact ih.comp (step_injective b)

end Checksum

theorem checksum_ne_of_byte (front back : Bytes) {b c : UInt8} (h : b ≠ c) :
    (front ++ b :: back).checksum ≠ (front ++ c :: back).checksum := by
  intro hsum
  have hfold := UInt32.xor_left_inj 0xFFFFFFFF |>.mp hsum
  rw [List.foldl_append, List.foldl_append, List.foldl_cons, List.foldl_cons] at hfold
  exact Checksum.step_ne _ h (Checksum.foldl_step_injective back hfold)

end Savegame.Bytes
