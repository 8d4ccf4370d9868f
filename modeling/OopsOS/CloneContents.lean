import OopsOS.Boot
import OopsOS.FsOps

namespace OopsOS
set_option autoImplicit true
open Function

variable {s s' : FsState} {O : Multiset Nat} {M : Set Nat} {A B srcOff dstOff len : Nat}

structure Cloned (A B : Nat) (s s' : FsState) : Prop where
  size : (s'.inode A).size = (s.inode B).size
  mode : (s'.inode A).mode = (s.inode B).mode
  read : ∀ copyout off n, readi s'.blocks (s'.inode A) copyout off n =
    readi s.blocks (s.inode B) copyout off n

structure SourceKept (B : Nat) (s s' : FsState) : Prop where
  inode : s'.inode B = s.inode B
  read : ∀ copyout off n, readi s'.blocks (s'.inode B) copyout off n =
    readi s.blocks (s.inode B) copyout off n

structure RangeCloned (A B srcOff dstOff len : Nat) (s s' : FsState) : Prop where
  range : ∀ copyout, (∀ t m, copyout t m = true) → ∀ o n, o + n ≤ len →
    readi s'.blocks (s'.inode A) copyout (dstOff + o) n =
      readi s.blocks (s.inode B) copyout (srcOff + o) n
  outside : ∀ p < (s.inode A).size.toNat, ¬ (dstOff ≤ p ∧ p < dstOff + len) →
    fileByte s'.blocks (s'.inode A) p = fileByte s.blocks (s.inode A) p
  size : (s'.inode A).size.toNat = max (s.inode A).size.toNat (dstOff + len)

structure Clonable (B srcOff dstOff len : Nat) (s : FsState) : Prop where
  srcAligned : srcOff % BSIZE = 0
  dstAligned : dstOff % BSIZE = 0
  lenAligned : len % BSIZE = 0
  below : srcOff + len ≤ (s.inode B).size.toNat
  fits : dstOff + len ≤ MAXFILE * BSIZE

theorem FsState.fileBlock_eq (s : FsState) (A : Nat) :
    fileBlock s.blocks (s.inode A) = fun bn => s.data A (slotOf bn) := by
  funext bn
  rw [fileBlock, s.bmapNalloc_eq, data]

theorem Lender.kept (h : Lender O M B s) (hf : Frame O A s s') (hsub : ∀ x ∈ M, x ∈ O)
    (hne : B ≠ A) : SourceKept B s s' := by
  have hinode := hf.inode B hne
  refine ⟨hinode, fun copyout off n => readi_congr (by rw [hinode]) ?_⟩
  rw [s'.fileBlock_eq, s.fileBlock_eq]
  funext bn
  exact h.data hf hsub hne (slotOf_index bn)

theorem RangeCloned.of_blocks (hc : Clonable B srcOff dstOff len s)
    (hsize : (s'.inode A).size.toNat = max (s.inode A).size.toNat (dstOff + len))
    (hin : ∀ bn < len / BSIZE, s'.data A (slotOf (dstOff / BSIZE + bn)) =
      s.data B (slotOf (srcOff / BSIZE + bn)))
    (hout : ∀ p, ¬ (dstOff / BSIZE ≤ p / BSIZE ∧ p / BSIZE < dstOff / BSIZE + len / BSIZE) →
      s'.byteAt A p = s.byteAt A p) : RangeCloned A B srcOff dstOff len s s' := by
  obtain ⟨hsrc, hdst, hlen, hbelow, hfits⟩ := hc
  change srcOff % 1024 = 0 at hsrc
  change dstOff % 1024 = 0 at hdst
  change len % 1024 = 0 at hlen
  change dstOff + len ≤ 65803 * 1024 at hfits
  have hword := (s.inode B).size.toNat_lt
  refine ⟨fun copyout hcopy o n ho => ?_, fun p _ hp => ?_, hsize⟩
  · rw [readi_eq hcopy (by omega) (by omega), readi_eq hcopy (by omega) (by omega)]
    rw [show min n ((s'.inode A).size.toNat - (dstOff + o)) = n by omega,
      show min n ((s.inode B).size.toNat - (srcOff + o)) = n by omega]
    apply List.map_congr_left
    intro i hi
    have hi := List.mem_range.1 hi
    -- Both offsets start a block, so a position has the same place in the blocks of the two files.
    have hblock := hin ((o + i) / 1024) (by change _ < len / 1024; omega)
    rw [fileByte, fileByte, s'.fileBlock_eq, s.fileBlock_eq]
    change s'.data A (slotOf ((dstOff + o + i) / 1024)) ((dstOff + o + i) % 1024) =
      s.data B (slotOf ((srcOff + o + i) / 1024)) ((srcOff + o + i) % 1024)
    change s'.data A (slotOf (dstOff / 1024 + (o + i) / 1024)) =
      s.data B (slotOf (srcOff / 1024 + (o + i) / 1024)) at hblock
    rw [show (dstOff + o + i) / 1024 = dstOff / 1024 + (o + i) / 1024 by omega,
      show (srcOff + o + i) / 1024 = srcOff / 1024 + (o + i) / 1024 by omega,
      show (dstOff + o + i) % 1024 = (srcOff + o + i) % 1024 by omega, hblock]
  · rw [← s'.byteAt_eq, ← s.byteAt_eq]
    apply hout
    change ¬ (dstOff / 1024 ≤ p / 1024 ∧ p / 1024 < dstOff / 1024 + len / 1024)
    omega

/-- A clone of a file into one without blocks is a copy of it, and so is a clone of a range. -/
theorem clones_copy_contents (hs : BlockInv s) (hB : B ∈ s.used) (hA : A ∈ s.used)
    (hvB : s.valid B = true) (hvA : s.valid A = true) (hne : B ≠ A) :
    ((∀ k, s.ptrs A k = 0) → wp OutOfBlocks (iclone B A) s fun r s' =>
      r = 0 → Cloned A B s s' ∧ SourceKept B s s') ∧
    ∀ srcOff dstOff len, Clonable B srcOff dstOff len s →
      wp OutOfBlocks (icloneRange B A srcOff dstOff len) s fun r s' =>
        r = 0 → RangeCloned A B srcOff dstOff len s s' ∧ SourceKept B s s' := by
  have hf := hs.file hA hvA
  have hl := hs.lender (A := A) hB hvB hne
  have hlt := FsState.lt_of_used hA
  refine ⟨fun hempty => ?_, fun srcOff dstOff len hc => ?_⟩
  · apply (iclone_spec hf hl hne hlt hempty).mono
    rintro r s' ⟨hst, ⟨rfl, -⟩ | ⟨-, -, hsize, hmode, hdata⟩⟩ hr
    · cases hr
    · refine ⟨⟨hsize, hmode, fun copyout off n => readi_congr hsize ?_⟩,
        hl.kept hst.done.frame hf.sub hne⟩
      rw [s'.fileBlock_eq, s.fileBlock_eq]
      funext bn
      exact hdata _ (slotOf_index bn)
  · have hfits := hc.fits
    change dstOff + len ≤ 65803 * 1024 at hfits
    have hmax : dstOff / BSIZE + len / BSIZE ≤ MAXFILE := by
      change dstOff / 1024 + len / 1024 ≤ 65803
      omega
    apply (icloneRange_spec hf hl hne hlt hmax).mono
    rintro r s' ⟨⟨rfl, -, -⟩ | ⟨-, ht, hsize⟩, hst, hout, hin⟩ hr
    · cases hr
    · rw [Nat.mod_eq_of_lt (by omega)] at hsize
      refine ⟨.of_blocks hc hsize (hin hr) fun p hp => hout p fun h => hp h.2.2,
        hl.kept hst.done.frame hf.sub hne⟩

def fileAndEmpty (i : Nat) : Inode :=
  if i = 1 then fileInode 1024 [3000] else if i = 2 then fileInode 0 [] else emptyInode

theorem fileAndEmpty_direct : DirectOnly fileAndEmpty 3 := by
  refine ⟨fun i hi => ?_, by decide, by decide⟩
  rw [fileAndEmpty, if_neg (by omega), if_neg (by omega)]
  rfl

theorem clones_copy_contents_file : ∃ s : FsState, Clonable 1 0 0 1024 s ∧
    (wp OutOfBlocks (iclone 1 2) s fun r s' => r = 0 → Cloned 2 1 s s' ∧ SourceKept 1 s s') ∧
    wp OutOfBlocks (icloneRange 1 2 0 0 1024) s fun r s' =>
      r = 0 → RangeCloned 2 1 0 0 1024 s s' ∧ SourceKept 1 s s' := by
  let d := directImage nmeta fileAndEmpty 3 fun _ _ => 5
  have hinv : BlockInv (.cached d) := (booted_cached d).inv
    (directImage_ok fileAndEmpty_direct (by decide) (by decide))
      (directImage_marked (Nat.le_refl _))
  have hused₁ : 1 ∈ (FsState.cached d).used := FsState.mem_used.2 ⟨by decide, by decide +kernel⟩
  have hused₂ : 2 ∈ (FsState.cached d).used := FsState.mem_used.2 ⟨by decide, by decide +kernel⟩
  have hempty (k : Slot) : (FsState.cached d).ptrs 2 k = 0 := by
    by_contra hk
    obtain ⟨j, hj, -, hptr⟩ := ptr_direct_only (by decide +kernel) (by decide +kernel) hk
    have hzero : ∀ j < NDIRECT, ((FsState.cached d).inode 2).addr j = 0 := by decide +kernel
    exact hk (hptr.trans (hzero j hj))
  have hsize : ((FsState.cached d).inode 1).size.toNat = 1024 := by decide +kernel
  have hc : Clonable 1 0 0 1024 (.cached d) :=
    ⟨by decide, by decide, by decide, Nat.le_of_eq hsize.symm, by decide⟩
  have hv (i : Nat) : (FsState.cached d).valid i = true := rfl
  generalize FsState.cached d = s at *
  have h := clones_copy_contents hinv hused₁ hused₂ (hv 1) (hv 2) (by decide)
  exact ⟨s, hc, h.1 hempty, h.2 0 0 1024 hc⟩

end OopsOS
