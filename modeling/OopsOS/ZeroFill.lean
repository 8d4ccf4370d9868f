import OopsOS.Runs
import OopsOS.Contents
import OopsOS.DataCalls

namespace OopsOS
set_option autoImplicit true

variable {s s₁ s' : FsState} {A n m p : Nat} {f : File}

structure Truncated (A n : Nat) (s s' : FsState) : Prop where
  inv : BlockInv s'
  used : A ∈ s'.used
  size : (s'.inodeOf A).size.toNat = n
  bytes : ∀ p, s'.byteOf A p =
    if n < (s.inodeOf A).size.toNat ∧ blocksFor n ≤ p / BSIZE then 0 else s.byteOf A p

theorem Alike.truncated (h : Alike s s₁) (h' : Truncated A n s₁ s') : Truncated A n s s' := by
  refine ⟨h'.inv, h'.used, h'.size, fun p => ?_⟩
  rw [h'.bytes, h.inode, h.byteOf]

theorem Truncated.alike (h : Truncated A n s s₁) (h' : Alike s₁ s') : Truncated A n s s' := by
  refine ⟨h'.inv h.inv, h'.used.symm ▸ h.used, by rw [h'.inode, h.size], fun p => ?_⟩
  rw [h'.byteOf, h.bytes]

theorem itruncTo_truncated (h : BlockInv s) (hA : A ∈ s.used) (hv : s.valid A = true)
    (hn : n ≤ MAXFILE * BSIZE) :
    wp OutOfBlocks (itruncTo A n) s fun _ s' => Truncated A n s s' ∧ Synced s' A ∧
      (s'.inode A).nlink = (s.inode A).nlink := by
  apply (itruncTo_spec (h.file hA hv) (FsState.lt_of_used hA) hn).mono
  intro _ s' hs
  obtain ⟨hst, hsync, hlink, hsize, hbytes⟩ := hs
  have hv' := hst.done.inv.valid
  refine ⟨⟨h.done hA hv hst.done, hst.done.used hA hv ▸ hA, ?_, fun p => ?_⟩, hsync, hlink⟩
  · rw [FsState.inodeOf_valid hv', hsize]
  · rw [FsState.byteOf_valid hv', hbytes, FsState.byteOf_valid hv, FsState.inodeOf_valid hv]

theorem FsOp.itruncTo_truncated (h : BlockInv s) (hA : A ∈ s.used) (hn : n ≤ MAXFILE * BSIZE) :
    wp OutOfBlocks (FsOp.itruncTo A n).exec s fun _ s' => Truncated A n s s' := by
  apply ilock_then hA
  intro s₁ hlike hv _
  apply (OopsOS.itruncTo_truncated (hlike.inv h) (hlike.used.symm ▸ hA) hv hn).bind
  intro _ s' hs
  exact hlike.truncated hs.1

theorem FsOp.itruncTo_grows (h : BlockInv s) (hA : A ∈ s.used) (hn : n ≤ MAXFILE * BSIZE)
    (hle : (s.inodeOf A).size.toNat ≤ n) :
    ∃ s', (FsOp.itruncTo A n).Completes s s' ∧ Truncated A n s s' := by
  have hret : wp (fun _ => False) (FsOp.itruncTo A n).exec s fun _ _ => True := by
    apply ilock_then hA
    intro s₁ hlike hv _
    rw [hlike.inodeOf hv] at hle
    rw [wp_bind]
    exact itruncTo_grow hle trivial
  obtain ⟨_, s', he⟩ := hret.returns
  exact ⟨s', ⟨⟨hA, hn⟩, he⟩, (itruncTo_truncated h hA hn).of_ok he⟩

theorem sysFtruncate_spec (h : BlockInv s) (hA : f.ip ∈ s.used) :
    wp OutOfBlocks (sysFtruncate f n) s fun r s' => r.1 = 0 →
      n ≤ MAXFILE * BSIZE ∧ Truncated f.ip n s s' := by
  have hfail (s' : FsState) : ((-1 : Int), f).1 = 0 → n ≤ MAXFILE * BSIZE ∧
    Truncated f.ip n s s' := by
    intro h0
    cases h0
  unfold sysFtruncate
  rw [if_neg (Int.not_lt.2 (Int.natCast_nonneg n)), Int.toNat_natCast]
  split
  · exact hfail s
  · next hn =>
    split
    · exact hfail s
    · split
      · exact hfail s
      · apply ilock_then hA
        intro s₁ hlike hv _
        rw [wp_bind, wp_get]
        split
        · exact hfail s₁
        · apply (itruncTo_truncated (hlike.inv h) (hlike.used.symm ▸ hA) hv (Nat.not_lt.1 hn)).bind
          intro _ s' hs _
          exact ⟨Nat.not_lt.1 hn, hlike.truncated hs.1⟩

theorem sysTruncate_spec (h : BlockInv s) (hA : A ∈ s.used) (hl : (s.inodeOf A).nlink ≠ 0) :
    wp OutOfBlocks (sysTruncate (some A) n) s fun r s' => r = 0 →
      n ≤ MAXFILE * BSIZE ∧ Truncated A n s s' := by
  have hfail (s' : FsState) : (-1 : Int) = 0 → n ≤ MAXFILE * BSIZE ∧ Truncated A n s s' := by
    intro h0
    cases h0
  unfold sysTruncate
  rw [if_neg (Int.not_lt.2 (Int.natCast_nonneg n)), Int.toNat_natCast]
  split
  · exact hfail s
  · next hn =>
    simp only [iget]
    rw [wp_bind, wp_modify]
    generalize hs₁ : FsState.mk _ _ _ _ _ _ _ = s₁
    have hlike : Alike s s₁ := by
      rw [← hs₁]
      exact ⟨rfl, rfl, rfl⟩
    apply ilock_then (hlike.used.symm ▸ hA)
    intro s₂ hlike₂ hv _
    have hlike' := hlike.trans hlike₂
    rw [wp_bind, wp_get]
    split
    · have hnot : ¬ (s₂.iref A = 1 ∧ s₂.valid A = true ∧ (s₂.inode A).nlink = 0) := by
        intro hlast
        rw [hlike'.inodeOf hv] at hl
        exact hl hlast.2.2
      apply (iput_kept hnot).bind
      intro _ s' _
      exact hfail s'
    · apply (itruncTo_truncated (hlike'.inv h) (hlike'.used.symm ▸ hA) hv (Nat.not_lt.1 hn)).bind
      intro _ s₃ hs
      obtain ⟨htr, hsync, hlink⟩ := hs
      have hnot : ¬ (s₃.iref A = 1 ∧ s₃.valid A = true ∧ (s₃.inode A).nlink = 0) := by
        intro hlast
        rw [hlike'.inodeOf hv, ← hlink] at hl
        exact hl hlast.2.2
      apply (iput_kept hnot).bind
      intro _ s' hput _
      exact ⟨Nat.not_lt.1 hn, (hlike'.truncated htr).alike (hput fun _ _ => hsync)⟩

/-- A `truncate` or `ftruncate` of the inode `A` to `n` bytes that returned 0. -/
inductive Truncates (A n : Nat) (s s' : FsState) : Prop
  | fd (f f' : File) (hf : f.ip = A) (hret : sysFtruncate f n s = .ok ((0, f'), s'))
  | path (hl : (s.inodeOf A).nlink ≠ 0) (hret : sysTruncate (some A) n s = .ok (0, s'))

theorem Truncates.truncated (ht : Truncates A n s s') (h : BlockInv s) (hA : A ∈ s.used) :
    n ≤ MAXFILE * BSIZE ∧ Truncated A n s s' := by
  cases ht with
  | fd f f' hf hret =>
    subst hf
    exact (sysFtruncate_spec h hA).of_ok hret rfl
  | path hl hret => exact (sysTruncate_spec h hA hl).of_ok hret rfl

/-- The file is there and the operation does not write to the position. -/
def Spares (A p : Nat) (s : FsState) (op : FsOp) : Prop :=
  A ∈ s.used ∧ (op.target = A → ¬ op.Writes s p)

theorem Runs.zero (hrun : Runs (Spares A p) s s') (hs : BlockInv s) (h0 : s.byteOf A p = 0) :
    s'.byteOf A p = 0 := by
  induction hrun with
  | refl => exact h0
  | tail hinit hop ih =>
    obtain ⟨op, ⟨hA, hspare⟩, hc⟩ := hop
    have hsafe := hc.safe (Runs.inv hinit hs)
    by_cases ht : op.target = A
    · have hbyte := hsafe.bytes p (hspare ht)
      rw [ht] at hbyte
      rcases hbyte with hsame | hzero
      · rw [hsame, ih]
      · exact hzero
    · rw [(hsafe.untouched A hA fun e => ht e.symm).byteOf, ih]

/-- Bytes behind the new end read as zeros when the file grows again exactly if those of its last
block were zeros. -/
theorem truncate_zero_fill (hs : BlockInv s) (hA : A ∈ s.used)
    (hlt : n < (s.inodeOf A).size.toNat) (ht : Truncates A n s s₁) :
    (∀ p s₂, n ≤ p → Runs (Spares A p) s₁ s₂ → p < (s₂.inodeOf A).size.toNat →
      s₂.readByte A p = [0]) ↔
      ∀ p, n ≤ p → p / BSIZE < blocksFor n → s.byteOf A p = 0 := by
  obtain ⟨hn, htr⟩ := ht.truncated hs hA
  constructor
  · intro hread p hp hblock
    have hmax : p + 1 ≤ MAXFILE * BSIZE := by
      change n ≤ 65803 * 1024 at hn
      change p + 1 ≤ 65803 * 1024
      change p / 1024 < (n + 1024 - 1) / 1024 at hblock
      omega
    have hle : (s₁.inodeOf A).size.toNat ≤ p + 1 := by
      rw [htr.size]
      omega
    obtain ⟨s₂, hop, hgrown⟩ := FsOp.itruncTo_grows htr.inv htr.used hmax hle
    have hrun : Runs (Spares A p) s₁ s₂ := .single ⟨_, ⟨htr.used, fun _ => id⟩, hop⟩
    have hbelow : p < (s₂.inodeOf A).size.toNat := by
      rw [hgrown.size]
      omega
    have hzero := hread p s₂ hp hrun hbelow
    rw [FsState.readByte_below hbelow, hgrown.bytes, if_neg (by omega), htr.bytes,
      if_neg (by omega)] at hzero
    exact List.head_eq_of_cons_eq hzero
  · intro hzero p s₂ hp hrun hbelow
    have h0 : s₁.byteOf A p = 0 := by
      rw [htr.bytes]
      split
      · rfl
      · next hin => exact hzero p hp (by omega)
    rw [FsState.readByte_below hbelow, hrun.zero htr.inv h0]

theorem exists_truncates (h : yields (sysFtruncate f n) s (fun r => r.1 == 0) = true) :
    ∃ s', Truncates f.ip n s s' := by
  obtain ⟨r, s', hret, hr⟩ := exists_of_yields h
  have h0 : r.1 = 0 := eq_of_beq hr
  refine ⟨s', .fd f r.2 rfl ?_⟩
  rw [hret, ← h0]

def evenState : FsState := .cached (oneFileDisk nmeta (fileInode 2048 [3000, 3001]) 5)

theorem evenState_inv : BlockInv evenState :=
  (booted_cached _).inv (oneFileDisk_ok (by decide) (by decide))
    (directImage_marked (Nat.le_refl _))

theorem evenState_used : 1 ∈ evenState.used := FsState.mem_used.2 ⟨by decide, by decide +kernel⟩

theorem truncate_zero_fill_even : ∃ s₁, Truncates 1 1024 evenState s₁ ∧
    ∀ p s₂, 1024 ≤ p → Runs (Spares 1 p) s₁ s₂ → p < (s₂.inodeOf 1).size.toNat →
      s₂.readByte 1 p = [0] := by
  have hinv := evenState_inv
  have hused := evenState_used
  have hsize : 1024 < (evenState.inodeOf 1).size.toNat := by decide +kernel
  obtain ⟨s₁, ht⟩ : ∃ s₁, Truncates 1 1024 evenState s₁ :=
    exists_truncates (f := ⟨.inode, true, 1, 0⟩) (by decide +kernel)
  generalize evenState = s at *
  refine ⟨s₁, ht, (truncate_zero_fill hinv hused hsize ht).2 fun p hp hblock => ?_⟩
  change p / 1024 < (1024 + 1024 - 1) / 1024 at hblock
  omega

/-- The bytes of a block that is cut in two come back. -/
theorem truncate_stale : ∃ s A n s₁ p s₂, BlockInv s ∧ A ∈ s.used ∧
    n < (s.inodeOf A).size.toNat ∧ Truncates A n s s₁ ∧ n ≤ p ∧ Runs (Spares A p) s₁ s₂ ∧
    p < (s₂.inodeOf A).size.toNat ∧ s₂.readByte A p = [5] := by
  have hinv := fivesState_inv
  have hused := fivesState_used
  have hsize : 1 < (fivesState.inodeOf 1).size.toNat := by decide +kernel
  have hbyte : fivesState.byteOf 1 2 = 5 := by decide +kernel
  obtain ⟨s₁, ht⟩ : ∃ s₁, Truncates 1 1 fivesState s₁ :=
    exists_truncates (f := ⟨.inode, true, 1, 0⟩) (by decide +kernel)
  generalize fivesState = s at *
  obtain ⟨-, htr⟩ := ht.truncated hinv hused
  obtain ⟨s₂, hop, hgrown⟩ :=
    FsOp.itruncTo_grows htr.inv htr.used (show 3 ≤ MAXFILE * BSIZE by decide)
    (by rw [htr.size]; decide)
  have hbelow : 2 < (s₂.inodeOf 1).size.toNat := by
    rw [hgrown.size]
    decide
  refine ⟨s, 1, 1, s₁, 2, s₂, hinv, hused, hsize, ht, by decide,
    .single ⟨_, ⟨htr.used, fun _ => id⟩, hop⟩, hbelow, ?_⟩
  rw [FsState.readByte_below hbelow, hgrown.bytes, htr.size, if_neg (by decide), htr.bytes,
    if_neg fun h => absurd h.2 (by decide), hbyte]

/-- Blocks are released, each once, with the index blocks that lost their last entry. -/
structure Trimmed (A : Nat) (s s' : FsState) : Prop where
  released : ∀ b ≠ 0, s.ref b =
    s'.ref b + (slots.filter fun k => s.ptrs A k = b ∧ s'.ptrs A k = 0).card
  allocated : ∀ b, FileBlock b → (bitOf s'.blocks b = true ↔ 0 < s'.ref b)
  less : ∀ k, s'.ptrs A k ≠ 0 → s'.ptrs A k = s.ptrs A k
  stays : ∀ k c, c.parent = some k → s'.ptrs A c ≠ 0 → s'.ptrs A k ≠ 0
  emptied : ∀ k c, c.parent = some k → s.ptrs A c ≠ 0 → (∀ c, c.parent = some k → s'.ptrs A c = 0) →
    s'.ptrs A k = 0

/-- The blocks from the new end on are gone and no others. -/
structure TruncatedTo (A n : Nat) (s s' : FsState) : Prop extends Trimmed A s s' where
  kept : ∀ bn < blocksFor n, bmapNalloc s'.blocks (s'.inode A) bn = bmapNalloc s.blocks
    (s.inode A) bn
  gone : ∀ bn, blocksFor n ≤ bn → bmapNalloc s'.blocks (s'.inode A) bn = 0
  size : (s'.inode A).size.toNat = n

theorem count_lost (h : ∀ k, w k ≠ 0 → w k = v k) (hb : b ≠ 0) : (values slots v).count b =
    (values slots w).count b + (slots.filter fun k => v k = b ∧ w k = 0).card := by
  rw [count_values _ _ hb, count_values _ _ hb, ← Finset.card_union_of_disjoint]
  · congr 1
    ext k
    have := h k
    simp only [Finset.mem_filter, Finset.mem_union]
    grind
  · rw [Finset.disjoint_filter]
    grind

theorem Acct.allocated_iff (h : Acct s O own) (hb : FileBlock b) :
    bitOf s.blocks b = true ↔ 0 < s.ref b := by
  rw [h.ref_eq, Multiset.count_pos]
  exact ⟨h.mem_of_bit b hb, h.bit_of_mem b⟩

theorem CutAt.bmap_gone (h : CutAt A nb s s') (hbn : nb ≤ bn) : s'.ptrs A (slotOf bn) = 0 := by
  by_cases hmax : bn < MAXFILE
  · exact h.gone bn hmax hbn
  · exact ptr_not_ok _ _ fun hok => hmax (lt_of_slotOf_ok hok)

theorem Trims.emptied (ht : Trims A s s')
    (hc : c.parent = some k) (h0 : s.ptrs A c ≠ 0)
    (hall : ∀ c, c.parent = some k → s'.ptrs A c = 0) :
    s'.ptrs A k = 0 := by
  by_contra hk
  obtain ⟨c', hc', h1⟩ | hsame := ht k (Slot.parent_index hc) hk
  · exact h1 (hall c' hc')
  · exact h0 (hsame c hc ▸ hall c hc)

theorem Shrunk.trimmed (h : Shrunk O M A ∅ s s₁) (ht : Trims A s s₁) (hf : FileInv O M A 0 s)
    (hinv : FileInv O M A 0 s') (hptrs : s'.ptrs A = s₁.ptrs A) : Trimmed A s s' where
  released b hb := by
    rw [hf.acct.ref_eq, hinv.acct.ref_eq, zero_add, zero_add, Multiset.count_add,
      Multiset.count_add, hptrs, count_lost h.less hb, add_assoc]
  allocated b := hinv.acct.allocated_iff
  less k := hptrs ▸ h.less k
  stays k c hc := ptr_parent_ne_zero hc
  emptied k c hc h0 hall := by
    rw [hptrs] at hall ⊢
    exact ht.emptied hc h0 hall

theorem itruncTo_cut (hs : BlockInv s) (hA : A ∈ s.used) (hv : s.valid A = true)
    (hn : n < (s.inode A).size.toNat) : wp E (itruncTo A n) s fun _ s' =>
      CutAt A ((n + BSIZE - 1) % 2 ^ 32 / BSIZE) s s' ∧
        (CutAt A (blocksFor n) s s' → TruncatedTo A n s s') := by
  have hf := hs.file hA hv
  have hlt := FsState.lt_of_used hA
  refine (itruncTo_shrunk hf hn).mono fun _ s' ⟨s₁, h₁, hcut, htrim, he⟩ => ?_
  obtain ⟨hinv, hptrs, -⟩ := h₁.shed.inv.saved hlt { s₁.inode A with size := UInt32.ofNat n } rfl
  rw [← he] at hinv hptrs
  have hbmap (t : FsState) (bn : Nat) : bmapNalloc t.blocks (t.inode A) bn = t.ptrs A (slotOf bn) :=
    t.bmapNalloc_eq A bn
  refine ⟨⟨fun bn => hptrs ▸ hcut.gone bn, fun bn => hptrs ▸ hcut.kept bn⟩, fun hc =>
    ⟨h₁.trimmed htrim hf hinv hptrs, fun bn hbn => ?_, fun bn hbn => ?_, ?_⟩⟩
  · rw [hbmap, hbmap, hc.kept bn hbn]
  · rw [hbmap, hc.bmap_gone hbn]
  · have hsize := (s.inode A).size.toNat_lt
    rw [he, s₁.saved_inode, UInt32.toNat_ofNat_of_lt' (hn.trans hsize)]

/-- `itrunc_to` frees exactly the tail, unless its sum leaves the type `uint` and the file has a
block. -/
theorem itruncTo_exact_iff (hs : BlockInv s) (hA : A ∈ s.used) (hv : s.valid A = true)
    (hn : n < (s.inode A).size.toNat) :
    wp (fun _ => False) (itruncTo A n) s (fun _ s' => TruncatedTo A n s s') ↔
      n + BSIZE - 1 < 2 ^ 32 ∨ ∀ bn, bmapNalloc s.blocks (s.inode A) bn = 0 := by
  have hsize := (s.inode A).size.toNat_lt
  have hrun := itruncTo_cut (E := fun _ => False) hs hA hv hn
  by_cases hmod : n + BSIZE - 1 < 2 ^ 32
  · refine iff_of_true (hrun.mono fun _ s' h => h.2 ?_) (.inl hmod)
    rw [blocksFor, ← Nat.mod_eq_of_lt hmod]
    exact h.1
  · have hzero : (n + BSIZE - 1) % 2 ^ 32 / BSIZE = 0 := by
      unfold BSIZE at *
      omega
    rw [hzero] at hrun
    have hmax : MAXFILE ≤ blocksFor n := by
      unfold blocksFor
      change 65803 ≤ (n + 1024 - 1) / 1024
      change ¬ n + 1024 - 1 < 2 ^ 32 at hmod
      omega
    rw [or_iff_right hmod]
    constructor
    · intro h bn
      obtain ⟨_, s', ⟨hcut, -⟩, ht⟩ := hrun.exists_both h
      rw [s.bmapNalloc_eq]
      by_cases hbn : bn < MAXFILE
      · have hkept := ht.kept bn (hbn.trans_le hmax)
        rw [s.bmapNalloc_eq, s'.bmapNalloc_eq, hcut.gone bn hbn (Nat.zero_le _)] at hkept
        exact hkept.symm
      · exact ptr_not_ok _ _ fun hok => hbn (lt_of_slotOf_ok hok)
    · refine fun hnone => hrun.mono fun _ s' h =>
        h.2 ⟨fun bn _ _ => h.1.bmap_gone (Nat.zero_le _), ?_⟩
      intro bn _
      rw [h.1.bmap_gone (Nat.zero_le _), ← s.bmapNalloc_eq, hnone]

theorem itruncTo_exact_even : wp (fun _ => False) (itruncTo 1 1024) evenState
    (fun _ s' => TruncatedTo 1 1024 evenState s') := by
  have hinv := evenState_inv
  have hused := evenState_used
  have hv : evenState.valid 1 = true := by decide +kernel
  have hsize : 1024 < (evenState.inode 1).size.toNat := by decide +kernel
  generalize evenState = s at *
  exact (itruncTo_exact_iff hinv hused hv hsize).2 (.inl (show 1024 + 1024 - 1 < 2 ^ 32 by omega))

def hugeState : FsState := .cached (oneFileDisk nmeta (fileInode 4294967295 [3000]) 5)

/-- The block of the file is lost although it lies below the new end. -/
theorem itruncTo_wraps : ∃ s n, BlockInv s ∧ 1 ∈ s.used ∧ s.valid 1 = true ∧
    n < (s.inode 1).size.toNat ∧
    ¬ wp (fun _ => False) (itruncTo 1 n) s (fun _ s' => TruncatedTo 1 n s s') := by
  have hinv : BlockInv hugeState := (booted_cached _).inv (oneFileDisk_ok (by decide) (by decide))
    (directImage_marked (Nat.le_refl _))
  have hused : 1 ∈ hugeState.used := FsState.mem_used.2 ⟨by decide, by decide +kernel⟩
  have hv : hugeState.valid 1 = true := by decide +kernel
  have hsize : 2 ^ 32 - 2 < (hugeState.inode 1).size.toNat := by decide +kernel
  have hblock : bmapNalloc hugeState.blocks (hugeState.inode 1) 0 = 3000 := by decide +kernel
  generalize hugeState = s at *
  refine ⟨s, _, hinv, hused, hv, hsize, fun h => ?_⟩
  obtain ⟨_, s', ⟨hcut, -⟩, ht⟩ := (itruncTo_cut hinv hused hv hsize).exists_both h
  have hkept := ht.kept 0 (show 0 < (2 ^ 32 - 2 + 1024 - 1) / 1024 by omega)
  have hzero : (2 ^ 32 - 2 + BSIZE - 1) % 2 ^ 32 / BSIZE ≤ 0 := by
    change (2 ^ 32 - 2 + 1024 - 1) % 2 ^ 32 / 1024 ≤ 0
    omega
  rw [s'.bmapNalloc_eq, hcut.gone 0 (by decide) hzero, hblock] at hkept
  cases hkept

end OopsOS
