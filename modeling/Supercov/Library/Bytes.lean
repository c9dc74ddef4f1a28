import Mathlib

/-!
# Numbers as bytes

Fixed-width encodings of naturals, least or most significant byte first.
-/

namespace Bytes

/-- The value of bytes, least significant first. -/
def readLE : List UInt8 → Nat
  | [] => 0
  | byte :: rest => byte.toNat + 256 * readLE rest

/-- The `width` lowest bytes of a number, least significant first. -/
def writeLE : Nat → Nat → List UInt8
  | 0, _ => []
  | width + 1, value => UInt8.ofNat (value % 256) :: writeLE width (value / 256)

def readBE (bytes : List UInt8) : Nat := readLE bytes.reverse

def writeBE (width value : Nat) : List UInt8 := (writeLE width value).reverse

theorem readLE_lt (bytes : List UInt8) : readLE bytes < 256 ^ bytes.length := by
  induction bytes with
  | nil => simp [readLE]
  | cons byte rest ih =>
    have := byte.toNat_lt
    rw [readLE, List.length_cons, Nat.pow_succ]
    omega

@[simp]
theorem length_writeLE (width value : Nat) : (writeLE width value).length = width := by
  induction width generalizing value with
  | zero => rfl
  | succ width ih => simp [writeLE, ih]

theorem readLE_writeLE {width value : Nat} (fits : value < 256 ^ width) :
    readLE (writeLE width value) = value := by
  induction width generalizing value with
  | zero =>
    rw [Nat.pow_zero, Nat.lt_one_iff] at fits
    simp [writeLE, readLE, fits]
  | succ width ih =>
    have small : value / 256 < 256 ^ width := by
      apply Nat.div_lt_of_lt_mul
      rwa [Nat.pow_succ, Nat.mul_comm] at fits
    rw [writeLE, readLE, ih small, UInt8.toNat_ofNat', Nat.mod_mod]
    exact Nat.mod_add_div value 256

theorem writeLE_readLE (bytes : List UInt8) : writeLE bytes.length (readLE bytes) = bytes := by
  induction bytes with
  | nil => rfl
  | cons byte rest ih =>
    have small := byte.toNat_lt
    have low : (byte.toNat + 256 * readLE rest) % 256 = byte.toNat := by omega
    have high : (byte.toNat + 256 * readLE rest) / 256 = readLE rest := by omega
    rw [List.length_cons, readLE, writeLE, low, high, ih, UInt8.ofNat_toNat]

@[simp]
theorem length_writeBE (width value : Nat) : (writeBE width value).length = width := by
  simp [writeBE]

theorem readBE_writeBE {width value : Nat} (fits : value < 256 ^ width) :
    readBE (writeBE width value) = value := by
  simp [readBE, writeBE, readLE_writeLE fits]

theorem writeBE_readBE (bytes : List UInt8) : writeBE bytes.length (readBE bytes) = bytes := by
  have reversed := writeLE_readLE bytes.reverse
  rw [List.length_reverse] at reversed
  rw [writeBE, readBE, reversed, List.reverse_reverse]

end Bytes
