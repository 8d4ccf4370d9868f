import Mathlib.Data.Nat.Bitwise

namespace OopsOS
set_option autoImplicit true

abbrev Bytes := Nat → UInt8

def zeroBytes : Bytes := fun _ => 0

def byteOf (v k : Nat) : UInt8 := UInt8.ofNat (v / 256 ^ k)

theorem toNat_byteOf (v k : Nat) : (byteOf v k).toNat = v / 256 ^ k % 256 := by
  simp only [byteOf, UInt8.toNat_ofNat', Nat.reducePow]

def getHalf (b : Bytes) (o : Nat) : Nat := (b o).toNat + 256 * (b (o + 1)).toNat

def getWord (b : Bytes) (j : Nat) : Nat :=
  (b (4 * j)).toNat + 256 * (b (4 * j + 1)).toNat + 65536 * (b (4 * j + 2)).toNat +
    16777216 * (b (4 * j + 3)).toNat

def setWord (b : Bytes) (j v : Nat) : Bytes :=
  fun i => if i / 4 = j then byteOf v (i % 4) else b i

@[simp] theorem getWord_zeroBytes (j : Nat) : getWord zeroBytes j = 0 := rfl

theorem getWord_of_bytes (h : ∀ k < 4, b (4 * j + k) = byteOf v k) :
    getWord b j = v % 2 ^ 32 := by
  have h0 := h 0 (by omega)
  have h1 := h 1 (by omega)
  have h2 := h 2 (by omega)
  have h3 := h 3 (by omega)
  simp only [Nat.add_zero] at h0
  simp only [getWord, h0, h1, h2, h3, toNat_byteOf]
  omega

theorem getHalf_of_bytes (h : ∀ k < 2, b (o + k) = byteOf v k) :
    getHalf b o = v % 2 ^ 16 := by
  have h0 := h 0 (by omega)
  have h1 := h 1 (by omega)
  simp only [Nat.add_zero] at h0
  simp only [getHalf, h0, h1, toNat_byteOf]
  omega

theorem getWord_setWord (b : Bytes) (j v : Nat) : getWord (setWord b j v) j = v % 2 ^ 32 := by
  apply getWord_of_bytes
  intro k hk
  simp only [setWord, show (4 * j + k) / 4 = j by omega, ↓reduceIte,
    show (4 * j + k) % 4 = k by omega]

theorem getWord_congr (h : ∀ k < 4, b (4 * j + k) = b' (4 * j + k)) :
    getWord b j = getWord b' j := by
  have h0 := h 0 (by omega)
  simp only [Nat.add_zero] at h0
  simp only [getWord, h0, h 1 (by omega), h 2 (by omega), h 3 (by omega)]

theorem getHalf_congr (h : ∀ k < 2, b (o + k) = b' (o + k)) :
    getHalf b o = getHalf b' o := by
  have h0 := h 0 (by omega)
  simp only [Nat.add_zero] at h0
  simp only [getHalf, h0, h 1 (by omega)]

theorem getWord_setWord_ne (b : Bytes) (v : Nat) (h : j' ≠ j) :
    getWord (setWord b j v) j' = getWord b j' := by
  apply getWord_congr
  intro k hk
  simp only [setWord, show (4 * j' + k) / 4 = j' by omega, if_neg h]

theorem getWord_setWord_eq (b : Bytes) (j j' : Nat) (hv : v < 2 ^ 32) :
    getWord (setWord b j v) j' = if j' = j then v else getWord b j' := by
  by_cases h : j' = j
  · subst h
    rw [getWord_setWord, if_pos rfl, Nat.mod_eq_of_lt hv]
  · rw [getWord_setWord_ne b v h, if_neg h]

def getBit (b : Bytes) (i : Nat) : Bool := (b (i / 8)).toNat.testBit (i % 8)

def setBit (b : Bytes) (i : Nat) : Bytes :=
  fun o => if o = i / 8 then UInt8.ofNat ((b o).toNat ||| 2 ^ (i % 8)) else b o

def clearBit (b : Bytes) (i : Nat) : Bytes :=
  fun o => if o = i / 8 then UInt8.ofNat ((b o).toNat &&& (255 ^^^ 2 ^ (i % 8))) else b o

theorem testBit_ofNat (x : Nat) (h : k < 8) : (UInt8.ofNat x).toNat.testBit k = x.testBit k := by
  rw [UInt8.toNat_ofNat', Nat.testBit_mod_two_pow]
  simp only [h, decide_true, Bool.true_and]

theorem getBit_setBit (b : Bytes) (i j : Nat) :
    getBit (setBit b i) j = (decide (j = i) || getBit b j) := by
  have hk : j % 8 < 8 := Nat.mod_lt _ (by omega)
  unfold getBit setBit
  by_cases h : j / 8 = i / 8
  · have he : i % 8 = j % 8 ↔ j = i := by omega
    rw [if_pos h, testBit_ofNat _ hk, Nat.testBit_or, Nat.testBit_two_pow, decide_eq_decide.2 he,
      Bool.or_comm]
  · have hne : j ≠ i := fun e => h (by rw [e])
    rw [if_neg h, decide_eq_false hne, Bool.false_or]

theorem testBit_255 (h : k < 8) : (255 : Nat).testBit k = true := by
  rw [show (255 : Nat) = 2 ^ 8 - 1 from rfl, Nat.testBit_two_pow_sub_one]
  exact decide_eq_true h

theorem getBit_clearBit (b : Bytes) (i j : Nat) :
    getBit (clearBit b i) j = (decide (j ≠ i) && getBit b j) := by
  have hk : j % 8 < 8 := Nat.mod_lt _ (by omega)
  unfold getBit clearBit
  by_cases h : j / 8 = i / 8
  · have he : ¬ i % 8 = j % 8 ↔ j ≠ i := by omega
    rw [if_pos h, testBit_ofNat _ hk, Nat.testBit_and, Nat.testBit_xor, testBit_255 hk,
      Nat.testBit_two_pow, Bool.true_xor, ← decide_not, decide_eq_decide.2 he, Bool.and_comm]
  · have hne : j ≠ i := fun e => h (by rw [e])
    rw [if_neg h, decide_eq_true hne, Bool.true_and]

def copyIn (b : Bytes) (o n : Nat) (src : Nat → UInt8) : Bytes :=
  fun i => if o ≤ i ∧ i < o + n then src (i - o) else b i

end OopsOS
