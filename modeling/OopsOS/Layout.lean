import OopsOS.Bytes
import Mathlib.Logic.Function.Basic
import Mathlib.Tactic.IntervalCases

namespace OopsOS
set_option autoImplicit true
open Function

abbrev BSIZE : Nat := 1024
abbrev NDIRECT : Nat := 11
abbrev NADDR_PER_BLOCK : Nat := BSIZE / 4
abbrev NINDIRECT : Nat := BSIZE / 4
abbrev NDINDIRECT : Nat := NADDR_PER_BLOCK * NADDR_PER_BLOCK
abbrev MAXFILE : Nat := NDIRECT + NINDIRECT + NDINDIRECT
abbrev IPB : Nat := BSIZE / 64
abbrev BPB : Nat := BSIZE * 8
abbrev MAXOPBLOCKS : Nat := 10
abbrev LOGSIZE : Nat := MAXOPBLOCKS * 3
abbrev FSSIZE : Nat := 100000
abbrev NINODES : Nat := 1000
abbrev SWAPBLOCKS : Nat := 512 * 4

/-- The bytes that `filewrite` and `sys_pwrite` write in one transaction. -/
def writeMax : Nat := (MAXOPBLOCKS - 1 - 1 - 2) / 2 * BSIZE

structure Superblock where
  size : Nat
  nblocks : Nat
  ninodes : Nat
  nlog : Nat
  logstart : Nat
  inodestart : Nat
  bmapstart : Nat

abbrev nbitmap : Nat := FSSIZE / BPB + 1
abbrev ninodeblocks : Nat := NINODES / IPB + 1

def nmeta : Nat := 2 + LOGSIZE + ninodeblocks + nbitmap

def sb : Superblock where
  size := FSSIZE
  nblocks := FSSIZE - nmeta
  ninodes := NINODES
  nlog := LOGSIZE
  logstart := 2
  inodestart := 2 + LOGSIZE
  bmapstart := 2 + LOGSIZE + ninodeblocks

def IBLOCK (inum : Nat) : Nat := inum / IPB + sb.inodestart

def BBLOCK (b : Nat) : Nat := b / BPB + sb.bmapstart

def DataBlock (b : Nat) : Prop := nmeta ≤ b ∧ b < sb.size

def FileBlock (b : Nat) : Prop := nmeta + SWAPBLOCKS ≤ b ∧ b < sb.size

instance : DecidablePred DataBlock := fun _ => inferInstanceAs (Decidable (_ ∧ _))
instance : DecidablePred FileBlock := fun _ => inferInstanceAs (Decidable (_ ∧ _))

theorem nmeta_eq : nmeta = 108 := rfl

theorem size_eq : sb.size = 100000 := rfl

theorem IBLOCK_eq (i : Nat) : IBLOCK i = i / 16 + 32 := rfl

theorem BBLOCK_eq (b : Nat) : BBLOCK b = b / 8192 + 95 := rfl

theorem FileBlock.data (h : FileBlock b) : DataBlock b :=
  ⟨(Nat.le_add_right _ _).trans h.1, h.2⟩

theorem DataBlock.ne_zero (h : DataBlock b) : b ≠ 0 := by
  have h1 := nmeta_eq ▸ h.1
  omega

theorem DataBlock.lt_word (h : DataBlock b) : b < 2 ^ 32 := by
  have h1 := size_eq ▸ h.2
  omega

theorem BBLOCK_lt (h : b < sb.size) : BBLOCK b < nmeta := by
  rw [size_eq] at h
  rw [BBLOCK_eq, nmeta_eq]
  omega

theorem IBLOCK_lt (h : i < sb.ninodes) : IBLOCK i < 95 := by
  change i < 1000 at h
  rw [IBLOCK_eq]
  omega

theorem DataBlock.ne_IBLOCK (h : DataBlock x) (hi : i < sb.ninodes) : x ≠ IBLOCK i := by
  have h1 := IBLOCK_lt hi
  have h2 := nmeta_eq ▸ h.1
  omega

@[ext] structure Inode where
  mode : UInt8
  type : UInt8
  major : UInt16
  minor : UInt16
  nlink : UInt16
  size : UInt32
  addrs : Fin (NDIRECT + 2) → UInt32

def T_FILE : UInt8 := 2
def T_DEVICE : UInt8 := 3

def Inode.addr (ip : Inode) (i : Nat) : Nat :=
  if h : i < NDIRECT + 2 then (ip.addrs ⟨i, h⟩).toNat else 0

def Inode.setAddr (ip : Inode) (i v : Nat) : Inode :=
  { ip with addrs := fun j => if j.val = i then UInt32.ofNat v else ip.addrs j }

theorem Inode.addr_setAddr (ip : Inode) (hi : i < NDIRECT + 2) (hv : v < 2 ^ 32) (j : Nat) :
    (ip.setAddr i v).addr j = if j = i then v else ip.addr j := by
  by_cases h : j = i
  · subst h
    simp only [addr, hi, ↓reduceDIte, setAddr, ↓reduceIte, UInt32.toNat_ofNat']
    exact Nat.mod_eq_of_lt hv
  · simp only [addr, setAddr, if_neg h]

def getDinode (b : Bytes) (k : Nat) : Inode where
  mode := b (64 * k)
  type := b (64 * k + 1)
  major := UInt16.ofNat (getHalf b (64 * k + 2))
  minor := UInt16.ofNat (getHalf b (64 * k + 4))
  nlink := UInt16.ofNat (getHalf b (64 * k + 6))
  size := UInt32.ofNat (getWord b (16 * k + 2))
  addrs i := UInt32.ofNat (getWord b (16 * k + 3 + i))

def Inode.byte (ip : Inode) (o : Nat) : UInt8 :=
  if o = 0 then ip.mode
  else if o = 1 then ip.type
  else if o < 4 then byteOf ip.major.toNat (o - 2)
  else if o < 6 then byteOf ip.minor.toNat (o - 4)
  else if o < 8 then byteOf ip.nlink.toNat (o - 6)
  else if o < 12 then byteOf ip.size.toNat (o - 8)
  else byteOf (ip.addr ((o - 12) / 4)) (o % 4)

def putDinode (b : Bytes) (k : Nat) (ip : Inode) : Bytes :=
  fun o => if o / 64 = k then ip.byte (o % 64) else b o

theorem putDinode_at (b : Bytes) (k : Nat) (ip : Inode) (h : o < 64) :
    putDinode b k ip (64 * k + o) = ip.byte o := by
  simp only [putDinode, show (64 * k + o) / 64 = k by omega, ↓reduceIte,
    show (64 * k + o) % 64 = o by omega]

theorem getHalf_putDinode (b : Bytes) (k : Nat) (ip : Inode) (x : UInt16) (ho : o < 63)
    (h : ∀ j < 2, ip.byte (o + j) = byteOf x.toNat j) :
    UInt16.ofNat (getHalf (putDinode b k ip) (64 * k + o)) = x := by
  have he : getHalf (putDinode b k ip) (64 * k + o) = x.toNat % 2 ^ 16 := by
    apply getHalf_of_bytes
    intro j hj
    rw [Nat.add_assoc, putDinode_at _ _ _ (by omega), h j hj]
  rw [he, Nat.mod_eq_of_lt x.toNat_lt, UInt16.ofNat_toNat]

theorem getWord_putDinode (b : Bytes) (k : Nat) (ip : Inode) (x : UInt32) (ho : o < 16)
    (h : ∀ j < 4, ip.byte (4 * o + j) = byteOf x.toNat j) :
    UInt32.ofNat (getWord (putDinode b k ip) (16 * k + o)) = x := by
  have he : getWord (putDinode b k ip) (16 * k + o) = x.toNat % 2 ^ 32 := by
    apply getWord_of_bytes
    intro j hj
    rw [show 4 * (16 * k + o) + j = 64 * k + (4 * o + j) by omega,
      putDinode_at _ _ _ (by omega), h j hj]
  rw [he, Nat.mod_eq_of_lt x.toNat_lt, UInt32.ofNat_toNat]

theorem getDinode_putDinode (b : Bytes) (k : Nat) (ip : Inode) :
    getDinode (putDinode b k ip) k = ip := by
  apply Inode.ext
  · exact putDinode_at b k ip (o := 0) (by omega)
  · exact putDinode_at b k ip (o := 1) (by omega)
  · apply getHalf_putDinode _ _ _ _ (by omega)
    intro j hj
    interval_cases j <;> rfl
  · apply getHalf_putDinode _ _ _ _ (by omega)
    intro j hj
    interval_cases j <;> rfl
  · apply getHalf_putDinode _ _ _ _ (by omega)
    intro j hj
    interval_cases j <;> rfl
  · apply getWord_putDinode _ _ _ _ (by omega)
    intro j hj
    interval_cases j <;> rfl
  · funext i
    have hi : i.val < 13 := i.isLt
    have hw : UInt32.ofNat (getWord (putDinode b k ip) (16 * k + (3 + i))) = ip.addrs i := by
      apply getWord_putDinode _ _ _ _ (by omega)
      intro j hj
      have h0 : ¬ 4 * (3 + i.val) + j = 0 := by omega
      have h1 : ¬ 4 * (3 + i.val) + j = 1 := by omega
      have h2 : ¬ 4 * (3 + i.val) + j < 4 := by omega
      have h3 : ¬ 4 * (3 + i.val) + j < 6 := by omega
      have h4 : ¬ 4 * (3 + i.val) + j < 8 := by omega
      have h5 : ¬ 4 * (3 + i.val) + j < 12 := by omega
      simp only [Inode.byte, if_neg h0, if_neg h1, if_neg h2, if_neg h3, if_neg h4, if_neg h5,
        show (4 * (3 + i.val) + j - 12) / 4 = i.val by omega,
        show (4 * (3 + i.val) + j) % 4 = j by omega, Inode.addr, hi, ↓reduceDIte]
    rw [← Nat.add_assoc] at hw
    exact hw

theorem getDinode_congr (h : ∀ o < 64, b (64 * k + o) = b' (64 * k + o)) :
    getDinode b k = getDinode b' k := by
  have hhalf (o : Nat) (ho : o < 63) : getHalf b (64 * k + o) = getHalf b' (64 * k + o) := by
    apply getHalf_congr
    intro j hj
    rw [Nat.add_assoc]
    exact h _ (by omega)
  have hword (o : Nat) (ho : o < 16) : getWord b (16 * k + o) = getWord b' (16 * k + o) := by
    apply getWord_congr
    intro j hj
    rw [show 4 * (16 * k + o) + j = 64 * k + (4 * o + j) by omega]
    exact h _ (by omega)
  apply Inode.ext
  · exact h 0 (by omega)
  · exact h 1 (by omega)
  · exact congrArg UInt16.ofNat (hhalf 2 (by omega))
  · exact congrArg UInt16.ofNat (hhalf 4 (by omega))
  · exact congrArg UInt16.ofNat (hhalf 6 (by omega))
  · exact congrArg UInt32.ofNat (hword 2 (by omega))
  · funext i
    have hi : i.val < 13 := i.isLt
    have hw := hword (3 + i) (by omega)
    rw [← Nat.add_assoc] at hw
    exact congrArg UInt32.ofNat hw

theorem getDinode_putDinode_ne (b : Bytes) (ip : Inode) (h : k' ≠ k) :
    getDinode (putDinode b k ip) k' = getDinode b k' := by
  apply getDinode_congr
  intro o ho
  simp only [putDinode, show (64 * k' + o) / 64 = k' by omega, if_neg h]

abbrev Disk := Nat → Bytes

def bitOf (d : Disk) (b : Nat) : Bool := getBit (d (BBLOCK b)) (b % BPB)

def dinodeOf (d : Disk) (inum : Nat) : Inode := getDinode (d (IBLOCK inum)) (inum % IPB)

theorem bitOf_setBit (d : Disk) (b b' : Nat) :
    bitOf (update d (BBLOCK b) (setBit (d (BBLOCK b)) (b % BPB))) b' =
      (decide (b' = b) || bitOf d b') := by
  unfold bitOf
  by_cases h : BBLOCK b' = BBLOCK b
  · have he : b' % BPB = b % BPB ↔ b' = b := by
      change b' % 8192 = b % 8192 ↔ _
      simp only [BBLOCK_eq] at h
      omega
    rw [h, update_self, getBit_setBit, decide_eq_decide.2 he]
  · have hne : b' ≠ b := fun e => h (by rw [e])
    rw [update_of_ne h, decide_eq_false hne, Bool.false_or]

theorem bitOf_clearBit (d : Disk) (b b' : Nat) :
    bitOf (update d (BBLOCK b) (clearBit (d (BBLOCK b)) (b % BPB))) b' =
      (decide (b' ≠ b) && bitOf d b') := by
  unfold bitOf
  by_cases h : BBLOCK b' = BBLOCK b
  · have he : b' % BPB ≠ b % BPB ↔ b' ≠ b := by
      change b' % 8192 ≠ b % 8192 ↔ _
      simp only [BBLOCK_eq] at h
      omega
    rw [h, update_self, getBit_clearBit, decide_eq_decide.2 he]
  · have hne : b' ≠ b := fun e => h (by rw [e])
    rw [update_of_ne h, decide_eq_true hne, Bool.true_and]

end OopsOS
