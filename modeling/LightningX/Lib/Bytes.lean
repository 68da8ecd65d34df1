import LightningX.Lib.I64

/-!
# Bytes of a buffer

Numbers of a fixed width in little-endian order, and the parts of a buffer.  Every lemma on
reading says that a part is read as a value exactly if it holds the bytes of that value.
-/

namespace LightningX.Bytes

open List

/-- The bytes of a number, the least first. -/
def leBytes : Nat → Nat → List UInt8
  | 0, _ => []
  | width + 1, value => UInt8.ofNat value :: leBytes width (value / 256)

def ofLeBytes : List UInt8 → Nat
  | [] => 0
  | byte :: rest => byte.toNat + 256 * ofLeBytes rest

/-- The bytes of an `i64`. -/
def i64Bytes (value : Int) : List UInt8 :=
  leBytes 8 (value % 2 ^ 64).toNat

/-- `buf[start..start + width]`. -/
def slice (buf : List UInt8) (start width : Nat) : List UInt8 :=
  (buf.drop start).take width

@[simp] theorem length_leBytes (width value : Nat) : (leBytes width value).length = width := by
  induction width generalizing value with
  | zero => rfl
  | succ width ih => rw [leBytes, length_cons, ih]

@[simp] theorem length_i64Bytes (value : Int) : (i64Bytes value).length = 8 := length_leBytes 8 _

theorem ofLeBytes_leBytes (fits : value < 256 ^ width) :
    ofLeBytes (leBytes width value) = value := by
  induction width generalizing value with
  | zero =>
    rw [Nat.pow_zero] at fits
    rw [leBytes, ofLeBytes]
    omega
  | succ width ih =>
    rw [leBytes, ofLeBytes, UInt8.toNat_ofNat', ih (by rw [Nat.pow_succ] at fits; omega)]
    omega

theorem leBytes_ofLeBytes (bytes : List UInt8) :
    leBytes bytes.length (ofLeBytes bytes) = bytes := by
  induction bytes with
  | nil => rfl
  | cons byte rest ih =>
    have small := byte.toNat_lt
    have high : (byte.toNat + 256 * ofLeBytes rest) / 256 = ofLeBytes rest := by omega
    have low : UInt8.ofNat (byte.toNat + 256 * ofLeBytes rest) = byte := by
      apply UInt8.toNat.inj
      rw [UInt8.toNat_ofNat']
      omega
    rw [length_cons, ofLeBytes, leBytes, high, low, ih]

theorem ofLeBytes_lt (bytes : List UInt8) : ofLeBytes bytes < 256 ^ bytes.length := by
  induction bytes with
  | nil => decide
  | cons byte rest ih =>
    have small := byte.toNat_lt
    rw [ofLeBytes, length_cons, Nat.pow_succ]
    omega

theorem ofLeBytes_eq_iff (length : bytes.length = width) :
    ofLeBytes bytes = value ↔ value < 256 ^ width ∧ bytes = leBytes width value := by
  constructor
  · rintro rfl
    rw [← length]
    exact ⟨ofLeBytes_lt bytes, (leBytes_ofLeBytes bytes).symm⟩
  · rintro ⟨fits, rfl⟩
    exact ofLeBytes_leBytes fits

theorem wrapI64_ofLeBytes_eq_iff (length : bytes.length = 8) :
    wrapI64 (ofLeBytes bytes) = value ↔ InI64 value ∧ bytes = i64Bytes value := by
  have fits := ofLeBytes_lt bytes
  rw [length] at fits
  constructor
  · rintro rfl
    refine ⟨inI64_wrapI64 _, ?_⟩
    have same : (wrapI64 (ofLeBytes bytes) % 2 ^ 64).toNat = ofLeBytes bytes := by
      rw [wrapI64_natCast fits]
      split_ifs <;> omega
    rw [i64Bytes, same, ← length, leBytes_ofLeBytes]
  · rintro ⟨⟨lower, upper⟩, rfl⟩
    rw [i64Bytes, ofLeBytes_leBytes (by omega), wrapI64_natCast (by omega)]
    split_ifs <;> omega

theorem length_slice (fits : start + width ≤ buf.length) :
    (slice buf start width).length = width := by
  rw [slice, length_take, length_drop]
  omega

/-- A part is made of two exactly if they lie behind each other in the buffer. -/
theorem slice_eq_append_iff (length : first.length = m) (fits : start + m ≤ buf.length) :
    slice buf start (m + n) = first ++ second ↔
      slice buf start m = first ∧ slice buf (start + m) n = second := by
  have split : slice buf start (m + n) = slice buf start m ++ slice buf (start + m) n := by
    rw [slice, take_add, drop_drop]
    rfl
  rw [split]
  constructor
  · intro same
    exact append_inj same (by rw [length_slice fits, length])
  · rintro ⟨rfl, rfl⟩
    rfl

theorem slice_one_eq_iff : slice buf start 1 = [byte] ↔ buf[start]? = some byte := by
  rw [slice, take_one, head?_drop]
  cases buf[start]? <;> simp

end LightningX.Bytes
