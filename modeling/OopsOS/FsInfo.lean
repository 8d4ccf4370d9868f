import Mathlib.Algebra.BigOperators.Intervals
import Mathlib.Data.Nat.Count
import OopsOS.BlockScan

namespace OopsOS.Alloc
set_option autoImplicit true
open Function

def successive (call : σ → Option σ) : Nat → σ → Option σ
  | 0, s => some s
  | n + 1, s => (call s).bind (successive call n)

theorem successive_iff (call : σ → Option σ) (I : σ → Prop) (left : σ → Nat)
    (hnone : ∀ s, I s → left s = 0 → call s = none)
    (hsome : ∀ s, I s → 0 < left s → ∃ s', call s = some s' ∧ I s' ∧ left s' + 1 = left s) (n : Nat)
    (hs : I s) : (successive call n s).isSome = true ↔ n ≤ left s := by
  induction n generalizing s with
  | zero => exact iff_of_true rfl (Nat.zero_le _)
  | succ n ih =>
    rw [successive]
    by_cases hleft : left s = 0
    · rw [hnone s hs hleft, hleft]
      simp
    · obtain ⟨s', hcall, hs', hstep⟩ := hsome s hs (by omega)
      rw [hcall, Option.bind_some, ih hs']
      omega

variable {sb : Superblock} {d : Disk} {s : AllocState} {type : UInt8}

def ballocNext (sb : Superblock) (s : AllocState) : Option AllocState :=
  (balloc sb s).toOption.map Prod.snd

def iblock (sb : Superblock) (inum : Nat) : Nat := inum / IPB + sb.inodestart

def dtype (sb : Superblock) (d : Disk) (inum : Nat) : UInt8 :=
  (getDinode (d (iblock sb inum)) (inum % IPB)).type

def iallocLoop (sb : Superblock) (d : Disk) (inum : Nat) : Nat → Option Nat
  | 0 => none
  | n + 1 =>
    if inum < sb.ninodes then
      if dtype sb d inum = 0 then some inum else iallocLoop sb d (inum + 1) n
    else none

def ialloc (sb : Superblock) (type : UInt8) (d : Disk) : Option Disk :=
  (iallocLoop sb d 1 sb.ninodes).map fun inum =>
    update d (iblock sb inum) (putDinode (d (iblock sb inum)) (inum % IPB)
      { mode := 3, type := type, major := 0, minor := 0, nlink := 0, size := 0, addrs :=
        fun _ => 0 })

def countFreeBlocks (sb : Superblock) (d : Disk) (dataStart : Nat) : Nat :=
  ∑ bi ∈ Finset.range (sb.size / BPB + 1), Nat.count (fun i =>
    ¬ (bi * BPB + i < dataStart ∨ bi * BPB + i ≥ sb.size) ∧
      getBit (d (sb.bmapstart + bi)) i = false) BPB

def countInodes (sb : Superblock) (d : Disk) (inum : Nat) : Nat → Nat
  | 0 => 0
  | n + 1 =>
    if inum < sb.ninodes then
      Nat.count (fun i => inum + i < sb.ninodes ∧ (getDinode (d (iblock sb inum)) i).type = 0) IPB +
        countInodes sb d (inum + IPB) n
    else 0

def countFreeInodes (sb : Superblock) (d : Disk) : Nat := countInodes sb d 1 sb.ninodes

structure FsInfo where
  bsize : Nat
  totalBlocks : Nat
  freeBlocks : Nat
  totalInodes : Nat
  freeInodes : Nat

def fsinfo (sb : Superblock) (d : Disk) : FsInfo where
  bsize := BSIZE
  totalBlocks := sb.nblocks
  freeBlocks := countFreeBlocks sb d (sb.size - sb.nblocks)
  totalInodes := sb.ninodes
  freeInodes := countFreeInodes sb d

/-- The bit map is below the data region, and there are reference counts for all blocks. -/
structure Valid (sb : Superblock) : Prop where
  size_le : sb.size ≤ FSSIZE
  data : sb.bmapstart + sb.size / BPB < sb.size - sb.nblocks

def freeBlocks (sb : Superblock) (d : Disk) : Finset Nat :=
  (Finset.range sb.size).filter fun b => bit sb d b = false

def freeInodes (sb : Superblock) (d : Disk) : Finset Nat :=
  (Finset.Ico 1 sb.ninodes).filter fun inum => dtype sb d inum = 0

theorem MetaMarked.map (hsb : Valid sb) (h : MetaMarked sb d) : MapMarked sb d := by
  intro x hx _
  apply h
  have hdata := hsb.data
  change _ + sb.size / 8192 < _ at hdata
  change x / 8192 + _ < _
  omega

theorem count_congr {p q : Nat → Prop} [DecidablePred p] [DecidablePred q]
    (h : ∀ i < n, p i ↔ q i) : Nat.count p n = Nat.count q n := by
  rw [Nat.count_eq_card_filter_range, Nat.count_eq_card_filter_range]
  congr 1
  exact Finset.filter_congr fun i hi => h i (Finset.mem_range.1 hi)

theorem count_lt {p q : Nat → Prop} [DecidablePred p] [DecidablePred q]
    (h : ∀ i, p i ↔ i < m ∧ q i) (hn : m ≤ n) : Nat.count p n = Nat.count q m := by
  rw [Nat.count_eq_card_filter_range, Nat.count_eq_card_filter_range]
  congr 1
  ext i
  simp only [Finset.mem_filter, Finset.mem_range, h i]
  constructor
  · exact fun hi => hi.2
  · exact fun hi => ⟨by omega, hi⟩

theorem sum_count (p : Nat → Prop) [DecidablePred p] (m n : Nat) :
    ∑ k ∈ Finset.range n, Nat.count (fun i => p (k * m + i)) m = Nat.count p (n * m) := by
  induction n with
  | zero => simp
  | succ n ih => rw [Finset.sum_range_succ, ih, Nat.succ_mul, Nat.count_add]

theorem countFreeBlocks_eq (h : MetaMarked sb d) :
    countFreeBlocks sb d (sb.size - sb.nblocks) = (freeBlocks sb d).card := by
  have hcover : sb.size ≤ (sb.size / BPB + 1) * BPB := by
    change sb.size ≤ (sb.size / 8192 + 1) * 8192
    omega
  unfold countFreeBlocks
  refine (Finset.sum_congr rfl fun bi _ => count_congr fun i hi => ?_).trans ((sum_count
    (fun b => b < sb.size ∧ bit sb d b = false) BPB _).trans ?_)
  · have hbit := bit_add sb d (Nat.mul_mod_left bi BPB) hi
    have hblock : bblock sb (bi * BPB) = sb.bmapstart + bi := by
      rw [bblock, Nat.mul_div_cancel _ (by decide), Nat.add_comm]
    rw [hblock] at hbit
    rw [← hbit]
    constructor
    · rintro ⟨hb, hfree⟩
      exact ⟨Nat.not_le.1 fun hge => hb (.inr hge), hfree⟩
    · rintro ⟨hb, hfree⟩
      refine ⟨?_, hfree⟩
      rintro (hlt | hge)
      · rw [h _ hlt] at hfree
        cases hfree
      · exact absurd hb (Nat.not_lt.2 hge)
  · rw [count_lt (fun _ => Iff.rfl) hcover, Nat.count_eq_card_filter_range, freeBlocks]

theorem Allocated.mem_freeBlocks (h : Allocated sb s s' b) :
    b ∈ freeBlocks sb s.blocks :=
  Finset.mem_filter.2 ⟨Finset.mem_range.2 h.mem_free.1, h.mem_free.2⟩

theorem Allocated.freeBlocks (h : Allocated sb s s' b) :
    freeBlocks sb s'.blocks = (freeBlocks sb s.blocks).erase b := by
  ext x
  simp only [Alloc.freeBlocks, Finset.mem_filter, Finset.mem_erase, Finset.mem_range]
  constructor
  · rintro ⟨hx, hbit⟩
    rw [h.bits x hx, Bool.or_eq_false_iff] at hbit
    exact ⟨of_decide_eq_false hbit.1, hx, hbit.2⟩
  · rintro ⟨hne, hx, hbit⟩
    rw [h.bits x hx, hbit, decide_eq_false hne]
    exact ⟨hx, rfl⟩

theorem ballocs_iff (hsb : Valid sb) (h : MetaMarked sb s.blocks) (n : Nat) :
    (successive (ballocNext sb) n s).isSome = true ↔ n ≤ (freeBlocks sb s.blocks).card := by
  apply successive_iff (ballocNext sb) (fun s => MetaMarked sb s.blocks)
    (fun s => (freeBlocks sb s.blocks).card) _ _ n h
  · intro s hs hleft
    obtain ⟨b, s', -, halloc⟩ | ⟨heq, -⟩ := balloc_cases hsb.size_le (hs.map hsb)
    · have hmem := halloc.mem_freeBlocks
      rw [Finset.card_eq_zero.1 hleft] at hmem
      exact absurd hmem (Finset.notMem_empty b)
    · rw [ballocNext, heq]
      rfl
  · intro s hs hleft
    obtain ⟨b, s', heq, halloc⟩ | ⟨-, hempty⟩ := balloc_cases hsb.size_le (hs.map hsb)
    · refine ⟨s', by rw [ballocNext, heq]; rfl, fun x hx => ?_, ?_⟩
      · rw [halloc.bits x (Nat.lt_of_lt_of_le hx (Nat.sub_le ..)), hs x hx, Bool.or_true]
      · rw [halloc.freeBlocks, Finset.card_erase_add_one halloc.mem_freeBlocks]
    · obtain ⟨b, hb⟩ := Finset.card_pos.1 hleft
      obtain ⟨hlt, hbit⟩ := Finset.mem_filter.1 hb
      exact absurd ⟨Finset.mem_range.1 hlt, hbit⟩ (Set.eq_empty_iff_forall_notMem.1 hempty b)

theorem iallocLoop_finds (sb : Superblock) (d : Disk) (inum n : Nat) (hn : sb.ninodes ≤ inum + n) :
    Finds (fun i => dtype sb d i = 0) inum sb.ninodes (iallocLoop sb d inum n) := by
  induction n generalizing inum with
  | zero => exact .empty (by omega)
  | succ n ih =>
    simp only [iallocLoop]
    split
    · next hlt =>
      split
      · next hfree => exact ⟨Nat.le_refl _, hlt, hfree, fun y _ _ => by omega⟩
      · next hused =>
        refine Finds.after (inum + 1) (fun y h₁ h₂ => ?_) (by omega) (ih (inum + 1) (by omega))
        rw [show y = inum by omega]
        exact hused
    · exact .empty (by omega)

theorem Finds.mem_freeInodes (h : Finds (fun i => dtype sb d i = 0) 1 sb.ninodes (some inum)) :
    inum ∈ freeInodes sb d :=
  Finset.mem_filter.2 ⟨Finset.mem_Ico.2 ⟨h.1, h.2.1⟩, h.2.2.1⟩

theorem dtype_put (ip : Inode) (i inum : Nat) :
    dtype sb (update d (iblock sb inum) (putDinode (d (iblock sb inum)) (inum % IPB) ip)) i =
      if i = inum then ip.type else dtype sb d i := by
  unfold dtype
  by_cases hblock : iblock sb i = iblock sb inum
  · rw [hblock, update_self]
    by_cases hi : i = inum
    · rw [if_pos hi, hi, getDinode_putDinode]
    · rw [if_neg hi, getDinode_putDinode_ne]
      change i / 16 + _ = inum / 16 + _ at hblock
      change i % 16 ≠ inum % 16
      omega
  · rw [update_of_ne hblock, if_neg fun e => hblock (by rw [e])]

theorem iallocs_iff (htype : type ≠ 0) (n : Nat) :
    (successive (ialloc sb type) n d).isSome = true ↔ n ≤ (freeInodes sb d).card := by
  refine successive_iff _ (fun _ => True) (fun d => (freeInodes sb d).card)
    (fun d _ hleft => ?_) (fun d _ hleft => ?_) n trivial <;>
    have hfinds := iallocLoop_finds sb d 1 sb.ninodes (Nat.le_add_left ..) <;> unfold ialloc <;>
    cases hr : iallocLoop sb d 1 sb.ninodes with
    | none => ?_
    | some inum => ?_
  · rfl
  · rw [hr] at hfinds
    have hmem := hfinds.mem_freeInodes
    rw [Finset.card_eq_zero.1 hleft] at hmem
    exact absurd hmem (Finset.notMem_empty inum)
  · rw [hr] at hfinds
    obtain ⟨inum, hmem⟩ := Finset.card_pos.1 hleft
    obtain ⟨hrange, hfree⟩ := Finset.mem_filter.1 hmem
    obtain ⟨h₁, h₂⟩ := Finset.mem_Ico.1 hrange
    exact absurd hfree (hfinds inum h₁ h₂)
  · rw [hr] at hfinds
    have hmem := hfinds.mem_freeInodes
    refine ⟨_, rfl, trivial, ?_⟩
    rw [← Finset.card_erase_add_one hmem]
    congr 2
    ext i
    simp only [freeInodes, Finset.mem_filter, Finset.mem_erase, dtype_put]
    by_cases hi : i = inum
    · simp [hi, htype]
    · simp [hi]

/-- The blocks are read from the start and numbers count from 1, so the types counted are those
before. -/
theorem countInodes_eq (sb : Superblock) (d : Disk) (k inum n : Nat) (hinum : inum = k * IPB + 1)
    (hn : sb.ninodes ≤ inum + n) :
    Nat.count (fun i => i < sb.ninodes - 1 ∧ dtype sb d i = 0) (k * IPB) + countInodes sb d inum n =
      Nat.count (fun i => dtype sb d i = 0) (sb.ninodes - 1) := by
  induction n generalizing inum k with
  | zero => exact count_lt (fun _ => Iff.rfl) (by omega)
  | succ n ih =>
    rw [countInodes]
    split
    · have hinner : Nat.count (fun i => inum + i < sb.ninodes ∧
          (getDinode (d (iblock sb inum)) i).type = 0) IPB = Nat.count (fun i =>
            k * IPB + i < sb.ninodes - 1 ∧ dtype sb d (k * IPB + i) = 0) IPB := by
        apply count_congr
        intro i hi
        have hblock : iblock sb (k * IPB + i) = iblock sb inum := by
          change i < 16 at hi
          change inum = k * 16 + 1 at hinum
          change (k * 16 + i) / 16 + _ = inum / 16 + _
          omega
        rw [dtype, hblock, Nat.mul_add_mod_of_lt hi]
        apply and_congr_left'
        omega
      rw [hinner, ← Nat.add_assoc, ← Nat.count_add, ← Nat.succ_mul]
      apply ih
      · rw [hinum, Nat.succ_mul]
        omega
      · change sb.ninodes ≤ inum + 16 + n
        omega
    · exact count_lt (fun _ => Iff.rfl) (by omega)

theorem card_freeInodes (sb : Superblock) (d : Disk) : (freeInodes sb d).card =
    Nat.count (fun i => dtype sb d (i + 1) = 0) (sb.ninodes - 1) := by
  rw [freeInodes, Finset.card_filter, Finset.sum_Ico_eq_sum_range, Nat.count_eq_card_filter_range,
    Finset.card_filter]
  simp only [Nat.add_comm]

theorem countFreeInodes_eq (sb : Superblock) (d : Disk) :
    countFreeInodes sb d + (if dtype sb d (sb.ninodes - 1) = 0 then 1 else 0) =
      (freeInodes sb d).card + (if dtype sb d 0 = 0 then 1 else 0) := by
  have hcount := countInodes_eq sb d 0 1 sb.ninodes rfl (Nat.le_add_left ..)
  rw [Nat.zero_mul, Nat.count_zero, Nat.zero_add] at hcount
  rw [countFreeInodes, hcount, card_freeInodes, ← Nat.count_succ (fun i => dtype sb d i = 0),
    ← Nat.count_succ' (fun i => dtype sb d i = 0)]

/-- `fsinfo` is right about free blocks, and about inodes exactly if the first and last are both
free or both not. -/
theorem fsinfo_agrees_iff (hsb : Valid sb) (hmeta : MetaMarked sb s.blocks) (htype : type ≠ 0) :
    (∀ n, (successive (ballocNext sb) n s).isSome = true ↔
      n ≤ (fsinfo sb s.blocks).freeBlocks) ∧
    (∀ n, (successive (ialloc sb type) n s.blocks).isSome = true ↔
      n ≤ (freeInodes sb s.blocks).card) ∧
    ((∀ n, (successive (ialloc sb type) n s.blocks).isSome = true ↔
        n ≤ (fsinfo sb s.blocks).freeInodes) ↔
      (dtype sb s.blocks 0 = 0 ↔ dtype sb s.blocks (sb.ninodes - 1) = 0)) := by
  refine ⟨fun n => ?_, iallocs_iff htype, ?_⟩
  · rw [fsinfo, countFreeBlocks_eq hmeta]
    exact ballocs_iff hsb hmeta n
  · have hcount := countFreeInodes_eq sb s.blocks
    have hsame : (∀ n, n ≤ (freeInodes sb s.blocks).card ↔ n ≤ countFreeInodes sb s.blocks) ↔
        (freeInodes sb s.blocks).card = countFreeInodes sb s.blocks := by
      refine ⟨fun h => ?_, fun h n => by rw [h]⟩
      exact Nat.le_antisymm ((h _).1 (Nat.le_refl _)) ((h _).2 (Nat.le_refl _))
    simp only [fsinfo, iallocs_iff htype, hsame]
    split at hcount <;> split
      at hcount <;> simp only [*, iff_true, iff_false, not_true_eq_false] <;>
      omega

theorem fsinfo_agrees_small : Valid smallSb ∧
    (∀ n, (successive (ballocNext smallSb) n (smallState 7)).isSome = true ↔
      n ≤ (fsinfo smallSb (smallState 7).blocks).freeBlocks) ∧
    ∀ n, (successive (ialloc smallSb T_FILE) n (smallState 7).blocks).isSome = true ↔
      n ≤ (fsinfo smallSb (smallState 7).blocks).freeInodes := by
  have hsb : Valid smallSb := ⟨by decide, by decide⟩
  have hmeta : MetaMarked smallSb (smallState 7).blocks := by
    have hbits : ∀ b < 4, bit smallSb (smallState 7).blocks b = true := by decide +kernel
    exact hbits
  have htype : T_FILE ≠ 0 := by decide
  have h := fsinfo_agrees_iff hsb hmeta htype
  exact ⟨hsb, h.1, h.2.2.2 (iff_of_true (by decide +kernel) (by decide +kernel))⟩

/-- `fsinfo` reports a free inode, that with number 0, and `ialloc` finds none. -/
theorem fsinfo_reports_inode_zero : ∃ d : Disk, MetaMarked smallSb d ∧
    (fsinfo smallSb d).freeInodes = 1 ∧ freeInodes smallSb d = ∅ ∧
    ialloc smallSb T_FILE d = none := by
  let d : Disk := fun b o => if b = 3 ∧ o = 0 then 31 else if b = 2 ∧ o = 65 then 1 else 0
  have hmeta : ∀ b < 4, bit smallSb d b = true := by decide +kernel
  have hloop : iallocLoop smallSb d 1 smallSb.ninodes = none := by decide +kernel
  refine ⟨d, hmeta, by decide +kernel, by decide +kernel, ?_⟩
  rw [ialloc, hloop]
  rfl

end OopsOS.Alloc
