import OopsOS.BlockInv

namespace OopsOS
set_option autoImplicit true

variable {bit : Nat → Bool} {ino : Nat → Inode} {data : Nat → Bytes} {b i : Nat}

def packBits (f : Nat → Bool) : UInt8 :=
  ⟨BitVec.ofBoolListLE [f 0, f 1, f 2, f 3, f 4, f 5, f 6, f 7]⟩

theorem testBit_packBits (f : Nat → Bool) (h : j < 8) : (packBits f).toNat.testBit j = f j := by
  change (BitVec.ofBoolListLE _).toNat.testBit j = f j
  rw [BitVec.testBit_toNat, BitVec.getLsbD_ofBoolListLE]
  interval_cases j <;> rfl

def image (bit : Nat → Bool) (ino : Nat → Inode) (data : Nat → Bytes) : Disk := fun x =>
  if x < sb.inodestart then zeroBytes
  else if x < sb.bmapstart then
    fun o => (ino ((x - sb.inodestart) * IPB + o / 64)).byte (o % 64)
  else if x < nmeta then
    fun o => packBits fun j => bit ((x - sb.bmapstart) * BPB + 8 * o + j)
  else data x

theorem getDinode_of_bytes {b : Bytes} {ip : Inode} (h : ∀ o < 64, b (64 * k + o) = ip.byte o) :
    getDinode b k = ip := by
  rw [← getDinode_putDinode b k ip]
  apply getDinode_congr
  intro o ho
  rw [h o ho, putDinode_at _ _ _ ho]

theorem dinodeOf_image (hi : i < sb.ninodes) : dinodeOf (image bit ino data) i = ino i := by
  have h1 : ¬ IBLOCK i < sb.inodestart := by
    rw [IBLOCK_eq]
    change ¬ i / 16 + 32 < 32
    omega
  have h2 : IBLOCK i < sb.bmapstart := IBLOCK_lt hi
  apply getDinode_of_bytes
  intro o ho
  have hnum : (IBLOCK i - sb.inodestart) * IPB + (64 * (i % IPB) + o) / 64 = i := by
    rw [IBLOCK_eq]
    change (i / 16 + 32 - 32) * 16 + (64 * (i % 16) + o) / 64 = i
    omega
  simp only [image, if_neg h1, if_pos h2, hnum, show (64 * (i % IPB) + o) % 64 = o by omega]

theorem bitOf_image (hb : b < sb.size) : bitOf (image bit ino data) b = bit b := by
  have h2 : ¬ BBLOCK b < sb.bmapstart := by
    rw [BBLOCK_eq]
    change ¬ b / 8192 + 95 < 95
    omega
  have h1 : ¬ BBLOCK b < sb.inodestart := fun h => h2 (h.trans (by decide))
  have hmod : b % BPB % 8 < 8 := Nat.mod_lt _ (by omega)
  have hnum : (BBLOCK b - sb.bmapstart) * BPB + 8 * (b % BPB / 8) + b % BPB % 8 = b := by
    rw [BBLOCK_eq]
    change (b / 8192 + 95 - 95) * 8192 + 8 * (b % 8192 / 8) + b % 8192 % 8 = b
    omega
  simp only [bitOf, getBit, image, if_neg h1, if_neg h2, if_pos (BBLOCK_lt hb),
    testBit_packBits _ hmod, hnum]

variable {d : Disk} {s : FsState} {n r : Nat} {k : Slot}

def diskPtrs (d : Disk) : Multiset Nat := allPtrs d (dinodeOf d)

/-- Block pointers lie in the data region, index blocks are not shared, and the map marks what is
pointed to. -/
structure DiskOk (d : Disk) : Prop where
  ptrs : ∀ b ∈ diskPtrs d, FileBlock b
  once : ∀ i ∈ usedInodes (dinodeOf d), ∀ k, k.index = true → ptr d (dinodeOf d i) k ≠ 0 →
    (diskPtrs d).count (ptr d (dinodeOf d i) k) = 1
  bits : ∀ b, FileBlock b → (bitOf d b = true ↔ b ∈ diskPtrs d)

structure Booted (d : Disk) (s : FsState) : Prop where
  blocks : s.blocks = d
  ref : s.ref = brefInit d
  clean : ∀ i, s.valid i = true → s.inode i = dinodeOf d i

theorem Booted.inodeOf (h : Booted d s) : s.inodeOf = dinodeOf d := by
  funext i
  rw [FsState.inodeOf, h.blocks]
  split
  · next hv => exact h.clean i hv
  · rfl

theorem Booted.allPtrs (h : Booted d s) : s.allPtrs = diskPtrs d := by
  rw [FsState.allPtrs, h.inodeOf, h.blocks, diskPtrs]

theorem Booted.inv (h : Booted d s) (hd : DiskOk d) (hm : Alloc.MetaMarked sb d) : BlockInv s := by
  refine ⟨⟨?_, ?_, ?_, ?_, ?_⟩, fun i hi k hik hk => ?_⟩
  · rw [h.blocks]
    exact hm
  · rw [h.allPtrs, add_zero]
    exact fun b hb => (hd.ptrs b hb).data
  · intro b
    rw [h.allPtrs, add_zero, h.ref, brefInit_eq, diskPtrs]
  · rw [h.allPtrs, add_zero, h.blocks]
    exact fun b hb => (hd.bits b (hd.ptrs b hb)).2 hb
  · rw [h.allPtrs, add_zero, h.blocks]
    exact fun b hb hbit => (hd.bits b hb).1 hbit
  · rw [FsState.used, h.inodeOf] at hi
    rw [FsState.view, h.inodeOf, h.blocks] at hk ⊢
    rw [h.allPtrs]
    exact hd.once i hi k hik hk

def FsState.bootAt (d : Disk) (hint : Nat) : FsState where
  blocks := d
  ref := brefInit d
  hint := hint
  inode _ := dinodeOf d 0
  valid _ := false
  iref _ := 0
  logged := []

theorem booted_bootAt (d : Disk) (hint : Nat) : Booted d (.bootAt d hint) := by
  refine ⟨rfl, ?_, fun i hi => ?_⟩
  · rw [FsState.bootAt]
  · cases hi

def FsState.boot (d : Disk) : FsState := .bootAt d 0

theorem booted_boot (d : Disk) : Booted d (.boot d) := booted_bootAt d 0

def FsState.cached (d : Disk) : FsState :=
  { FsState.boot d with inode := dinodeOf d, valid := fun _ => true }

theorem booted_cached (d : Disk) : Booted d (.cached d) := by
  refine ⟨rfl, ?_, fun i _ => rfl⟩
  rw [FsState.cached, FsState.boot, FsState.bootAt]

def emptyInode : Inode := ⟨0, 0, 0, 0, 0, 0, fun _ => 0⟩

def fileInode (size : UInt32) (blocks : List UInt32) : Inode :=
  { emptyInode with type := T_FILE, nlink := 1, size := size, addrs := fun j => blocks.getD j 0 }

structure DirectOnly (ino : Nat → Inode) (n : Nat) : Prop where
  free : ∀ i, n ≤ i → (ino i).type = 0
  index : ∀ i < n, (ino i).addr NDIRECT = 0 ∧ (ino i).addr (NDIRECT + 1) = 0
  direct : ∀ i < n, ∀ j < NDIRECT, (ino i).addr j = 0 ∨ FileBlock ((ino i).addr j)

def directBits (r : Nat) (ino : Nat → Inode) (n b : Nat) : Bool :=
  decide (b < r) || (List.range n).any fun i => decide (1 ≤ i ∧ (ino i).type ≠ 0) &&
    (List.range NDIRECT).any fun j => decide ((ino i).addr j = b)

theorem directBits_iff : directBits r ino n b = true ↔ b < r ∨ ∃ i < n, (1 ≤ i ∧
    (ino i).type ≠ 0) ∧ ∃ j < NDIRECT, (ino i).addr j = b := by
  simp only [directBits, Bool.or_eq_true, decide_eq_true_eq, List.any_eq_true, List.mem_range,
    Bool.and_eq_true]

def directImage (r : Nat) (ino : Nat → Inode) (n : Nat) (data : Nat → Bytes) : Disk :=
  image (directBits r ino n) ino data

theorem ptr_direct_only (h1 : ip.addr NDIRECT = 0) (h2 : ip.addr (NDIRECT + 1) = 0)
    (hk : ptr d ip k ≠ 0) : ∃ j < NDIRECT, k = .direct j ∧ ptr d ip k = ip.addr j := by
  cases k with
  | direct j =>
    have hj : j < NDIRECT := Slot.ok_of_ptr hk
    exact ⟨j, hj, rfl, if_pos hj⟩
  | single => exact (hk h1).elim
  | sentry j => exact (hk (ptr_under_zero (k := .single) h1 (by simp [Slot.path]))).elim
  | double => exact (hk h2).elim
  | second i => exact (hk (ptr_under_zero (k := .double) h2 (by simp [Slot.path]))).elim
  | dentry i j => exact (hk (ptr_under_zero (k := .double) h2 (by simp [Slot.path]))).elim

theorem mem_used_directImage (h : DirectOnly ino n) :
    i ∈ usedInodes (dinodeOf (directImage r ino n data)) ↔
      i < n ∧ i < sb.ninodes ∧ 1 ≤ i ∧ (ino i).type ≠ 0 := by
  rw [usedInodes, Finset.mem_filter, Finset.mem_Ico]
  constructor
  · intro hi
    obtain ⟨⟨h1, hlt⟩, ht⟩ := hi
    rw [directImage, dinodeOf_image hlt] at ht
    exact ⟨Nat.lt_of_not_le fun hn => ht (h.free i hn), hlt, h1, ht⟩
  · intro hi
    obtain ⟨-, hlt, h1, ht⟩ := hi
    rw [directImage, dinodeOf_image hlt]
    exact ⟨⟨h1, hlt⟩, ht⟩

theorem mem_diskPtrs : b ∈ diskPtrs d ↔
    ∃ i ∈ usedInodes (dinodeOf d), ∃ k, ptr d (dinodeOf d i) k = b ∧ b ≠ 0 := by
  rw [diskPtrs, allPtrs, Multiset.mem_sum]
  refine exists_congr fun i => and_congr_right fun _ => ?_
  rw [mem_values]
  constructor
  · intro hb
    obtain ⟨h0, k, -, hk⟩ := hb
    exact ⟨k, hk, h0⟩
  · intro hb
    obtain ⟨k, hk, h0⟩ := hb
    exact ⟨h0, k, mem_slots.2 (Slot.ok_of_ptr (hk.symm ▸ h0)), hk⟩

theorem directImage_ok (h : DirectOnly ino n) (hn : n ≤ sb.ninodes) (hr : r ≤ nmeta + SWAPBLOCKS) :
    DiskOk (directImage r ino n data) := by
  have hptr {i : Nat} {k : Slot} (hi : i ∈ usedInodes (dinodeOf (directImage r ino n data)))
      (hk : ptr (directImage r ino n data) (dinodeOf (directImage r ino n data) i) k ≠ 0) :
      (i < n ∧ 1 ≤ i ∧ (ino i).type ≠ 0) ∧ ∃ j < NDIRECT, k = .direct j ∧
        ptr (directImage r ino n data) (dinodeOf (directImage r ino n data) i) k =
          (ino i).addr j := by
    obtain ⟨hin, hlt, h1⟩ := (mem_used_directImage h).1 hi
    have hd : dinodeOf (directImage r ino n data) i = ino i := dinodeOf_image hlt
    rw [hd] at hk ⊢
    exact ⟨⟨hin, h1⟩, ptr_direct_only (h.index i hin).1 (h.index i hin).2 hk⟩
  refine ⟨fun b hb => ?_, fun i hi k hik hk => ?_, fun b hb => ?_⟩
  · obtain ⟨i, hi, k, rfl, hk⟩ := mem_diskPtrs.1 hb
    obtain ⟨⟨hin, -⟩, j, hj, -, he⟩ := hptr hi hk
    rw [he] at hk ⊢
    exact (h.direct i hin j hj).resolve_left hk
  · obtain ⟨-, j, -, rfl, -⟩ := hptr hi hk
    cases hik
  · rw [directImage, bitOf_image hb.2, directBits_iff]
    change _ ↔ b ∈ diskPtrs (directImage r ino n data)
    rw [mem_diskPtrs]
    constructor
    · intro hor
      rcases hor with hlt | hex
      · exact absurd hlt (Nat.not_lt.2 (hr.trans hb.1))
      · obtain ⟨i, hin, hu, j, hj, he⟩ := hex
        have hlt := Nat.lt_of_lt_of_le hin hn
        refine ⟨i, (mem_used_directImage h).2 ⟨hin, hlt, hu⟩, .direct j, ?_, hb.data.ne_zero⟩
        rw [directImage, dinodeOf_image hlt]
        exact (if_pos hj).trans he
    · intro hex
      obtain ⟨i, hi, k, rfl, hk⟩ := hex
      obtain ⟨⟨hin, hu⟩, j, hj, -, he⟩ := hptr hi hk
      exact .inr ⟨i, hin, hu, j, hj, he.symm⟩

theorem directImage_marked (hr : nmeta ≤ r) : Alloc.MetaMarked sb (directImage r ino n data) := by
  intro b hb
  have hb : b < nmeta := hb
  show bitOf (directImage r ino n data) b = true
  rw [directImage, bitOf_image (hb.trans (by decide)), directBits_iff]
  exact .inl (Nat.lt_of_lt_of_le hb hr)

def oneFile (f : Inode) (i : Nat) : Inode := if i = 1 then f else emptyInode

def oneFileDisk (r : Nat) (f : Inode) (c : UInt8) : Disk := directImage r (oneFile f) 2 fun _ _ => c

def DirectInode (f : Inode) : Prop := f.addr NDIRECT = 0 ∧ f.addr (NDIRECT + 1) = 0 ∧
  ∀ j < NDIRECT, f.addr j = 0 ∨ FileBlock (f.addr j)

instance : DecidablePred DirectInode := fun _ => inferInstanceAs (Decidable (_ ∧ _))

theorem oneFile_direct (h : DirectInode f) : DirectOnly (oneFile f) 2 := by
  have hcases (i : Nat) (hi : i < 2) : oneFile f i = emptyInode ∨ oneFile f i = f := by
    unfold oneFile
    split
    · exact .inr rfl
    · exact .inl rfl
  have hempty : DirectInode emptyInode := by decide
  refine ⟨fun i hi => ?_, fun i hi => ?_, fun i hi => ?_⟩
  · rw [oneFile, if_neg (by omega)]
    rfl
  · rcases hcases i hi with he | he
    · rw [he]
      exact ⟨hempty.1, hempty.2.1⟩
    · rw [he]
      exact ⟨h.1, h.2.1⟩
  · rcases hcases i hi with he | he
    · rw [he]
      exact hempty.2.2
    · rw [he]
      exact h.2.2

theorem oneFileDisk_ok (hf : DirectInode f) (hr : r ≤ nmeta + SWAPBLOCKS) :
    DiskOk (oneFileDisk r f c) :=
  directImage_ok (oneFile_direct hf) (by decide) hr

theorem mem_used_oneFileDisk (ht : f.type ≠ 0) (hs : Booted (oneFileDisk r f c) s) :
    1 ∈ s.used := by
  refine FsState.mem_used.2 ⟨by decide, ?_⟩
  rw [hs.inodeOf, oneFileDisk, directImage, dinodeOf_image (by decide)]
  exact ht

end OopsOS
