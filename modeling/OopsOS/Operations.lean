import OopsOS.Cloning

namespace OopsOS
set_option autoImplicit true

variable {s s₁ s' : FsState} {O P : Multiset Nat} {M : Set Nat} {A B n off : Nat}

theorem FsState.byteAt_hole (h : s.ptrs A (slotOf (p / BSIZE)) = 0) : s.byteAt A p = 0 := by
  rw [byteAt, data, blockData, if_pos h]
  rfl

theorem Shrunk.data_kept (h : Shrunk O M A D s s') (hi : k.index = false)
    (hk : s'.ptrs A k = s.ptrs A k) : s'.data A k = s.data A k := by
  apply FsState.data_congr hk
  intro h0
  have := h.data k hi (hk ▸ h0)
  rwa [hk] at this

theorem Shrunk.byteAt_kept (h : Shrunk O M A D s s')
    (hk : s'.ptrs A (slotOf (p / BSIZE)) = s.ptrs A (slotOf (p / BSIZE))) :
    s'.byteAt A p = s.byteAt A p :=
  congrFun (h.data_kept (slotOf_index _) hk) _

theorem Shrunk.stored (h : Shrunk O M A ∅ s s₁) (hA : A < sb.ninodes) (z : UInt32) :
    Stored O M A s (s₁.saved A { s₁.inode A with size := z }) :=
  .of_saved (h.shed.inv.done h.step) hA _ rfl rfl

theorem FileInv.byteAt_saved (h : FileInv O M A P s) (hA : A < sb.ninodes) (z : UInt32) (p : Nat) :
    (s.saved A { s.inode A with size := z }).byteAt A p = s.byteAt A p := by
  obtain ⟨-, -, hsame⟩ := h.saved hA { s.inode A with size := z } rfl
  exact hsame.byteAt p

theorem FileInv.ptrs_saved (h : FileInv O M A P s) (hA : A < sb.ninodes) (z : UInt32) :
    (s.saved A { s.inode A with size := z }).ptrs A = s.ptrs A := by
  obtain ⟨-, hptrs, -⟩ := h.saved hA { s.inode A with size := z } rfl
  exact hptrs

def blocksFor (n : Nat) : Nat := (n + BSIZE - 1) / BSIZE

theorem FsState.size_fallocSaved (s : FsState) (A : Nat) (keep : Bool)
    (hn : newsize ≤ MAXFILE * BSIZE) :
    ((s.fallocSaved A newsize keep).inode A).size.toNat =
      if keep = false then max (s.inode A).size.toNat newsize else (s.inode A).size.toNat := by
  have hu : newsize < UInt32.size := by
    change newsize ≤ 65803 * 1024 at hn
    change newsize < 4294967296
    omega
  unfold fallocSaved
  cases keep with
  | true => simp only [Bool.true_eq_false, false_and, ↓reduceIte, saved_inode]
  | false =>
    by_cases hgrow : newsize > (s.inode A).size.toNat
    · rw [if_pos ⟨rfl, hgrow⟩, if_pos rfl, saved_inode, UInt32.toNat_ofNat_of_lt' hu]
      omega
    · rw [if_neg fun hf => hgrow hf.2, if_pos rfl]
      simp only [Bool.false_eq_true, ↓reduceIte]
      omega

theorem Grown.synced_fallocSaved (h : Grown O M A 0 K s s₁) (hA : A < sb.ninodes)
    (hs : Synced s A) : Synced (s₁.fallocSaved A newsize keep) A ↔ keep = true ∨
      (s.inode A).size.toNat < newsize ∨ ∀ k ∈ K, k.parent = none → s.ptrs A k ≠ 0 := by
  have hsize : (s₁.inode A).size = (s.inode A).size := h.step.inode.size
  unfold FsState.fallocSaved
  cases keep with
  | true =>
    simp only [Bool.true_eq_false, false_and, ↓reduceIte, true_or, iff_true]
    exact s₁.saved_synced A _
  | false =>
    simp only [Bool.false_eq_true, ↓reduceIte, true_and, false_or, hsize]
    by_cases hgrow : (s.inode A).size.toNat < newsize
    · simp only [hgrow, ↓reduceIte, true_or, iff_true]
      exact s₁.saved_synced A _
    · simp only [gt_iff_lt, hgrow, ↓reduceIte, false_or]
      have hdisk := h.step.dinode hA
      constructor
      · intro hs₁ k hk hp h0
        have hok := Slot.ok_of_ptr (h.filled k hk)
        rw [Synced, hdisk, hs] at hs₁
        apply h.filled k hk
        rw [FsState.ptrs, ptr_root _ _ hok hp, ← hs₁, ← ptr_root s.blocks _ hok hp]
        exact h0
      · intro hroot
        rw [Synced, hdisk, h.inode_eq hroot]
        exact hs

theorem Written.stored (h : Written O M A src off n s s') : Stored O M A s s' := ⟨h.done, h.synced⟩

/-- What one pass of `pwrite` has done when it returns `r`. The size grows also if the
write is refused. -/
structure Passed (O : Multiset Nat) (M : Set Nat) (A : Nat) (src : Source) (off n : Nat)
    (s : FsState) (r : Int) (s' : FsState) : Prop where
  stored : Stored O M A s s'
  size : (s'.inode A).size.toNat = max (s.inode A).size.toNat (off + n)
  returns : r = if off + n ≤ MAXFILE * BSIZE then (n : Int) else -1
  old : ∀ p, ¬ (off + n ≤ MAXFILE * BSIZE ∧ off ≤ p ∧ p < off + src.stored n n 0 off) →
    s'.byteAt A p = s.byteAt A p
  new : off + n ≤ MAXFILE * BSIZE → ∀ p, off ≤ p → p < off + src.stored n n 0 off →
    s'.byteAt A p = src.byte (p - off)

section
variable (h : FileInv O M A 0 s)
include h

theorem ipunch_shrunk (hle : startb ≤ endb) (ht : (s.inode A).type = T_FILE) :
    wp E (ipunch A startb endb) s fun r s' => r = 0 ∧ ∃ s₁, Shrunk O M A ∅ s s₁ ∧ Trims A s s₁ ∧
      (∀ bn, startb ≤ bn → bn < endb → s₁.ptrs A (slotOf bn) = 0) ∧
      (∀ bn, ¬ (startb ≤ bn ∧ bn < endb) → s₁.ptrs A (slotOf bn) = s.ptrs A (slotOf bn)) ∧
      (s' = s₁.saved A (s₁.inode A) ∨ s' = s₁ ∧ s₁.inode A = s.inode A) := by
  unfold ipunch
  rw [wp_bind, wp_get]
  simp only [ht, ne_eq, not_true_eq_false, ↓reduceIte]
  apply (punchLoop_spec h startb (endb - startb)).bind
  intro r s₁ hs
  obtain ⟨h₁, htrim, hgone, hkept, hr⟩ := hs
  rw [Nat.add_sub_cancel' hle] at hgone hkept
  cases r with
  | true =>
    simp only [↓reduceIte]
    rw [wp_bind, wp_iupdate]
    exact ⟨rfl, s₁, h₁, htrim, hgone, hkept, .inl rfl⟩
  | false => exact ⟨rfl, s₁, h₁, htrim, hgone, hkept, .inr ⟨rfl, hr rfl⟩⟩

section
variable (hA : A < sb.ninodes)
include hA

theorem itrunc_spec : wp OutOfBlocks (itrunc A) s fun _ s' => Stored O M A s s' ∧
    (∀ k, s'.ptrs A k = 0) ∧ (s'.inode A).size = 0 := by
  apply (itrunc_shrunk h).mono
  intro _ s' hs
  obtain ⟨s₁, h₁, hempty, rfl⟩ := hs
  refine ⟨h₁.stored hA 0, fun k => ?_, ?_⟩
  · rw [h₁.shed.inv.ptrs_saved hA, hempty]
  · rw [s₁.saved_inode]

theorem itruncTo_spec (hmax : n ≤ MAXFILE * BSIZE) :
    wp OutOfBlocks (itruncTo A n) s fun _ s' => Stored O M A s s' ∧ Synced s' A ∧
      (s'.inode A).nlink = (s.inode A).nlink ∧ (s'.inode A).size.toNat = n ∧
      ∀ p, s'.byteAt A p =
        if n < (s.inode A).size.toNat ∧ blocksFor n ≤ p / BSIZE then 0 else s.byteAt A p := by
  have hu : n < UInt32.size := by
    change n ≤ 65803 * 1024 at hmax
    change n < 4294967296
    omega
  by_cases hn : (s.inode A).size.toNat ≤ n
  · apply itruncTo_grow hn
    refine ⟨.of_saved (.refl h) hA _ rfl rfl, s.saved_synced A _, ?_, ?_, fun p => ?_⟩
    · rw [s.saved_inode]
    · rw [s.saved_inode, UInt32.toNat_ofNat_of_lt' hu]
    · rw [h.byteAt_saved hA, if_neg fun hf => by omega]
  · have hlt := Nat.not_le.1 hn
    apply (itruncTo_shrunk h hlt).mono
    intro _ s' hs
    obtain ⟨s₁, h₁, hcut, -, rfl⟩ := hs
    have hmod : (n + BSIZE - 1) % 2 ^ 32 = n + BSIZE - 1 := by
      change n ≤ 65803 * 1024 at hmax
      exact Nat.mod_eq_of_lt (show n + 1024 - 1 < 2 ^ 32 by omega)
    rw [hmod] at hcut
    refine ⟨h₁.stored hA _, s₁.saved_synced A _, ?_, ?_, fun p => ?_⟩
    · rw [s₁.saved_inode, h₁.step.inode.nlink]
    · rw [s₁.saved_inode, UInt32.toNat_ofNat_of_lt' hu]
    · rw [h₁.shed.inv.byteAt_saved hA]
      by_cases hp : blocksFor n ≤ p / BSIZE
      · rw [if_pos ⟨hlt, hp⟩]
        apply FsState.byteAt_hole
        by_cases hmaxb : p / BSIZE < MAXFILE
        · exact hcut.gone _ hmaxb hp
        · exact ptr_not_ok _ _ fun hok => hmaxb (lt_of_slotOf_ok hok)
      · rw [if_neg fun hf => hp hf.2]
        exact h₁.byteAt_kept (hcut.kept _ (Nat.not_le.1 hp))

theorem ipunch_spec (hle : startb ≤ endb) :
    wp OutOfBlocks (ipunch A startb endb) s fun r s' => Stored O M A s s' ∧
      (s'.inode A).size = (s.inode A).size ∧
      (r = -1 ∧ s' = s ∧ (s.inode A).type ≠ T_FILE ∨ r = 0 ∧ (s.inode A).type = T_FILE ∧
        ∀ p, s'.byteAt A p = if startb ≤ p / BSIZE ∧ p / BSIZE < endb then 0
          else s.byteAt A p) := by
  by_cases ht : (s.inode A).type = T_FILE
  · apply (ipunch_shrunk h hle ht).mono
    rintro _ s' ⟨rfl, s₁, h₁, -, hgone, hkept, hs'⟩
    have hbytes (p : Nat) : s₁.byteAt A p =
        if startb ≤ p / BSIZE ∧ p / BSIZE < endb then 0 else s.byteAt A p := by
      split
      · next hin => exact FsState.byteAt_hole (hgone _ hin.1 hin.2)
      · next hout => exact h₁.byteAt_kept (hkept _ hout)
    have hsize : (s₁.inode A).size = (s.inode A).size := h₁.step.inode.size
    obtain rfl | ⟨rfl, hr⟩ := hs'
    · refine ⟨h₁.stored hA (s₁.inode A).size, ?_, .inr ⟨rfl, ht, fun p => ?_⟩⟩
      · rw [s₁.saved_inode, hsize]
      · rw [← hbytes]
        exact h₁.shed.inv.byteAt_saved hA (s₁.inode A).size p
    · exact ⟨.of_unchanged h₁.shed.inv h₁.step hA hr, hsize, .inr ⟨rfl, ht, hbytes⟩⟩
  · unfold ipunch
    rw [wp_bind, wp_get]
    simp only [ne_eq, ht, not_false_eq_true, ↓reduceIte]
    exact ⟨.of_unchanged h (.refl _ _ _) hA rfl, rfl, .inl ⟨rfl, rfl, trivial⟩⟩

theorem falloc_done (hstart : startb ≤ endb) (hmax : endb ≤ MAXFILE)
    (hsize : newsize ≤ MAXFILE * BSIZE) :
    wp OutOfBlocks (falloc A startb endb newsize keep) s fun r s' => r = 0 ∧ Done O M A s s' ∧
      (s'.inode A).size.toNat = (if keep = false then max (s.inode A).size.toNat newsize
        else (s.inode A).size.toNat) ∧
      (∀ p, s'.byteAt A p = s.byteAt A p) ∧
      (Synced s A → (Synced s' A ↔ keep = true ∨ (s.inode A).size.toNat < newsize ∨
        ∀ k ∈ pathsOf startb endb, k.parent = none → s.ptrs A k ≠ 0)) := by
  apply (falloc_spec h hstart hmax hsize).mono
  intro r s' hs
  obtain ⟨hr, s₁, hg, rfl⟩ := hs
  have hdone := hg.inv.done hg.step
  have hsz : (s₁.inode A).size = (s.inode A).size := hg.step.inode.size
  have hbytes (p : Nat) : s₁.byteAt A p = s.byteAt A p := hg.data.byteAt p
  rw [s₁.size_fallocSaved A keep hsize, hsz]
  refine ⟨hr, ?_, rfl, fun p => ?_, hg.synced_fallocSaved hA⟩
  · unfold FsState.fallocSaved
    split
    · exact hdone.trans (hg.inv.saved_done hA _ rfl rfl)
    · split
      · exact hdone.trans (hg.inv.saved_done hA _ rfl rfl)
      · exact hdone
  · rw [← hbytes]
    unfold FsState.fallocSaved
    split
    · exact hg.inv.byteAt_saved hA _ p
    · split
      · exact hg.inv.byteAt_saved hA (s₁.inode A).size p
      · rfl

theorem pwritePass_spec (hn : off + n < 2 ^ 32) :
    wp OutOfBlocks (pwritePass A src off n) s (Passed O M A src off n s) := by
  have hu : off + n < UInt32.size := hn
  have hwrite (s₁ : FsState) (h₁ : Stored O M A s s₁)
      (hsize : (s₁.inode A).size.toNat = max (s.inode A).size.toNat (off + n))
      (hbytes : ∀ p, s₁.byteAt A p = s.byteAt A p) :
      wp OutOfBlocks (writei A src off n) s₁ (Passed O M A src off n s) := by
    by_cases hmax : off + n ≤ MAXFILE * BSIZE
    · apply (writei_spec h₁.done.inv hA (by omega) hmax).mono
      intro _ s' hs
      obtain ⟨hr, hw⟩ := hs
      have hsz := hw.size
      have hstored := src.stored_le n n 0 off
      refine ⟨h₁.trans hw.stored, by omega, by rw [hr, if_pos hmax], fun p hp => ?_,
        fun _ => hw.new⟩
      rw [hw.old p fun hin => hp ⟨hmax, hin⟩, hbytes p]
    · apply writei_refused (by omega) fun hok => hmax hok.2
      exact ⟨h₁, hsize, by rw [if_neg hmax], fun p _ => hbytes p, fun hfits => absurd hfits hmax⟩
  unfold pwritePass
  rw [wp_bind, wp_get, Nat.mod_eq_of_lt hn]
  by_cases hgrow : off + n > (s.inode A).size.toNat
  · simp only [hgrow, ↓reduceIte]
    rw [wp_bind, wp_setSize, wp_bind, wp_iupdate, FsState.saved_modified]
    simp only [Function.update_self]
    apply hwrite
    · exact .of_saved (.refl h) hA _ rfl rfl
    · rw [s.saved_inode, UInt32.toNat_ofNat_of_lt' hu]
      omega
    · exact h.byteAt_saved hA _
  · simp only [hgrow, ↓reduceIte]
    exact hwrite s ⟨.refl h, id⟩ (by omega) fun _ => rfl

end

end

end OopsOS
