import OopsOS.Writing

namespace OopsOS
set_option autoImplicit true
open Function

variable {s s₁ s' : FsState} {O P : Multiset Nat} {M : Set Nat} {A B bn sbn dbn y : Nat} {k : Slot}

/-- The resting file `B`: its blocks belong to the others, its index blocks to
their index blocks. -/
structure Lender (O : Multiset Nat) (M : Set Nat) (B : Nat) (s : FsState) : Prop where
  leaf : ∀ k, k.index = false → s.ptrs B k ≠ 0 → s.ptrs B k ∈ O ∧ s.ptrs B k ∉ M
  index : ∀ k, k.index = true → s.ptrs B k ≠ 0 → s.ptrs B k ∈ M

theorem Lender.ptrs (h : Lender O M B s) (hf : Frame O A s s') (hsub : ∀ x ∈ M, x ∈ O)
    (hne : B ≠ A) : s'.ptrs B = s.ptrs B := by
  apply ptr_congr
  · rw [hf.inode B hne]
  · intro k hi hk
    exact hf.blocks _ (hsub _ (h.index k hi hk))

theorem Lender.frame (h : Lender O M B s) (hf : Frame O A s s') (hsub : ∀ x ∈ M, x ∈ O)
    (hne : B ≠ A) : Lender O M B s' := by
  have he := h.ptrs hf hsub hne
  exact ⟨he ▸ h.leaf, he ▸ h.index⟩

theorem Lender.data (h : Lender O M B s) (hf : Frame O A s s') (hsub : ∀ x ∈ M, x ∈ O)
    (hne : B ≠ A) (hi : k.index = false) : s'.data B k = s.data B k := by
  apply FsState.data_congr (congrFun (h.ptrs hf hsub hne) k)
  intro h0
  exact hf.blocks _ (h.leaf k hi h0).1

/-- Block `dbn` has the pointer `y`, the other blocks are what they were; `u`: the inode changed. -/
structure Relinked (O : Multiset Nat) (M : Set Nat) (A dbn y : Nat) (u : Bool) (s s' : FsState) :
    Prop where
  inv : FileInv O M A 0 s'
  step : Step A (Free O) s s'
  self : s'.ptrs A (slotOf dbn) = y
  data : s'.data A (slotOf dbn) = blockData s.blocks y
  other : ∀ k, k.index = false → k ≠ slotOf dbn →
    s'.ptrs A k = s.ptrs A k ∧ s'.data A k = s.data A k
  inode : u = false → s'.inode A = s.inode A

theorem slotOf_parent (h : ¬ bn < NDIRECT) : (slotOf bn).parent ≠ none := by
  unfold slotOf
  rw [if_neg h]
  split <;> simp [Slot.parent]

theorem setExisting_spec (h : FileInv O M A (nonzero y) s) (hbn : dbn < MAXFILE)
    (hp : ∀ p, (slotOf dbn).parent = some p → s.ptrs A p ≠ 0) :
    wp OutOfBlocks (bmapSetExisting A dbn y) s fun r s₁ => (r = 1 ∨ r = 0) ∧
      wp OutOfBlocks (freePtr (s.ptrs A (slotOf dbn))) s₁ fun _ s' =>
        Relinked O M A dbn y (r = 1) s s' := by
  apply wp_bmapSetExisting hbn hp
  refine ⟨by split <;> simp, ?_⟩
  have h' : FileInv O M A (nonzero y + 0) s := h.perm (add_zero _).symm
  apply (h'.relink (slotOf_ok hbn) (slotOf_index dbn) hp).mono
  rintro _ s' ⟨hinv, hstep, hptrs, hself, hother, -⟩
  refine ⟨hinv, hstep, ?_, hself, fun k hi hne => ⟨?_, hother k hi hne⟩, fun hr => ?_⟩
  · rw [hptrs, update_self]
  · rw [hptrs, update_of_ne hne]
  · apply hstep.inode_eq
    intro k _ hroot
    have hd : ¬ dbn < NDIRECT := by
      intro hd
      rw [if_pos hd] at hr
      cases hr
    have hne : k ≠ slotOf dbn := fun e => slotOf_parent hd (e ▸ hroot)
    rw [hptrs, update_of_ne hne]

theorem Step.blockData (h : Step A (Free O) s s') (hO : ∀ x ∈ O, DataBlock x)
    (hy : y ≠ 0 → y ∈ O) : OopsOS.blockData s'.blocks y = OopsOS.blockData s.blocks y := by
  unfold OopsOS.blockData
  by_cases h0 : y = 0
  · rw [if_pos h0, if_pos h0]
  · rw [if_neg h0, if_neg h0, (h.frame hO).blocks y (hy h0)]

theorem FsState.bmapNalloc_eq (s : FsState) (A bn : Nat) :
    bmapNalloc s.blocks (s.inode A) bn = s.ptrs A (slotOf bn) := OopsOS.bmapNalloc_eq ..

theorem sameBlock_iff (a b : Bytes) : sameBlock a b = true ↔ ∀ i < BSIZE, a i = b i := by
  simp only [sameBlock, List.all_eq_true, List.mem_range, beq_iff_eq]

section
variable (h : FileInv O M A 0 s)
include h

theorem Relinked.refl (hy : s.ptrs A (slotOf dbn) = y) : Relinked O M A dbn y false s s :=
  ⟨h, .refl _ _ _, hy, hy ▸ rfl, fun _ _ _ => ⟨rfl, rfl⟩, fun _ => rfl⟩

theorem share_spec (hO : y ∈ O) (hM : y ∉ M) (hbn : dbn < MAXFILE) :
    wp OutOfBlocks (brefInc y) s fun _ s₁ =>
      wp OutOfBlocks (bmapEnsure A dbn) s₁ fun r s₂ => (r = 1 ∨ r = 0) ∧
        wp OutOfBlocks (bmapSetExisting A dbn y) s₂ fun r' s₃ => (r' = 1 ∨ r' = 0) ∧
          wp OutOfBlocks (freePtr (s.ptrs A (slotOf dbn))) s₃ fun _ s' =>
            Relinked O M A dbn y (r = 1 ∨ r' = 1) s s' := by
  have hy : y ≠ 0 := (h.data_other y hO).ne_zero
  apply (h.brefInc hO hM).mono
  rintro _ s₁ ⟨h₁, hkeep, hptrs, hsame⟩
  apply (bmapEnsure_spec h₁ hbn).mono
  rintro r s₂ ⟨hg, hr⟩
  refine ⟨hr.imp_right And.left, ?_⟩
  have hslot : s₂.ptrs A (slotOf dbn) = s.ptrs A (slotOf dbn) := by
    rw [hg.same _ fun hk => hk.2 rfl, hptrs]
  have hpar (p : Slot) (hp : (slotOf dbn).parent = some p) : s₂.ptrs A p ≠ 0 := by
    apply hg.filled p
    rw [Slot.path_child hp]
    refine ⟨List.mem_cons_of_mem _ p.mem_path, ?_⟩
    rintro rfl
    exact Slot.not_mem_path_parent hp (Slot.mem_path _)
  have h₂ : FileInv O M A (nonzero y) s₂ := hg.inv.perm (nonzero_of_ne hy).symm
  have hstep : Step A (Free O) s s₂ := (hkeep.step.mono (Set.empty_subset _)).trans hg.step
  apply (setExisting_spec h₂ hbn hpar).mono
  rintro r' s₃ ⟨hr', hset⟩
  refine ⟨hr', ?_⟩
  rw [hslot] at hset
  apply hset.mono
  intro _ s' hrel
  refine ⟨hrel.inv, hstep.trans hrel.step, hrel.self, ?_, fun k hi hne => ?_, fun hu => ?_⟩
  · rw [hrel.data, hstep.blockData h.data_other fun _ => hO]
  · obtain ⟨h1, h2⟩ := hrel.other k hi hne
    have hk : k ∉ { k | k ∈ (slotOf dbn).path ∧ k ≠ slotOf dbn } := by
      rintro ⟨hk, -⟩
      have := Slot.index_of_mem_path hk hne
      rw [hi] at this
      cases this
    exact ⟨by rw [h1, hg.same k hk, hptrs], by rw [h2, hg.data k hi, hsame k hi]⟩
  · have hu' := not_or.1 (of_decide_eq_false hu)
    rw [hrel.inode (decide_eq_false hu'.2), (hr.resolve_left hu'.1).2, congrFun hkeep.inode]

section
variable (hl : Lender O M B s)
include hl

theorem icloneBlock_spec (hbn : dbn < MAXFILE) : wp OutOfBlocks (icloneBlock B A sbn dbn) s
    fun r s' =>
      ∃ u, r = some u ∧ Relinked O M A dbn (s.ptrs B (slotOf sbn)) u s s' := by
  unfold icloneBlock
  rw [wp_bind, wp_get]
  simp only [FsState.bmapNalloc_eq]
  by_cases hs : s.ptrs B (slotOf sbn) = 0
  · rw [if_pos hs, hs]
    by_cases hd : s.ptrs A (slotOf dbn) = 0
    · rw [if_neg (not_not.2 hd)]
      exact ⟨false, rfl, .refl h hd⟩
    · rw [if_pos hd]
      have h0 : FileInv O M A (nonzero 0) s := h
      apply (setExisting_spec h0 hbn fun p hp => ptr_parent_ne_zero hp hd).bind
      rintro r s₁ ⟨hr, hfree⟩
      have hpos : ¬ r < 0 := by omega
      rw [freePtr, if_pos hd] at hfree
      rw [if_neg hpos]
      apply hfree.bind
      intro _ s' hrel
      exact ⟨_, rfl, hrel⟩
  · rw [if_neg hs]
    by_cases hd : s.ptrs A (slotOf dbn) = s.ptrs B (slotOf sbn)
    · rw [if_pos hd]
      exact ⟨false, rfl, .refl h hd⟩
    · rw [if_neg hd]
      obtain ⟨hO, hM⟩ := hl.leaf _ (slotOf_index sbn) hs
      apply (share_spec h hO hM hbn).bind
      intro _ s₁ hensure
      apply hensure.bind
      rintro r s₂ ⟨hr, hset⟩
      have hpos : ¬ r < 0 := by omega
      rw [if_neg hpos]
      apply hset.bind
      rintro r' s₃ ⟨hr', hfree⟩
      have hpos' : ¬ r' < 0 := by omega
      rw [if_neg hpos']
      apply hfree.bind
      intro _ s' hrel
      exact ⟨_, rfl, hrel⟩

theorem icloneLoop_spec (hne : B ≠ A) (hmax : dstb + n ≤ MAXFILE) :
    wp OutOfBlocks (loop 0 n (some false) fun bn acc =>
      match acc with
      | none => return none
      | some update => do
        let r ← icloneBlock B A (srcb + bn) (dstb + bn)
        return r.map (fun u => update || u)) s fun r s' => ∃ u, r = some u ∧
      FileInv O M A 0 s' ∧ Step A (Free O) s s' ∧ (u = false → s'.inode A = s.inode A) ∧
        (∀ bn < n, s'.ptrs A (slotOf (dstb + bn)) = s.ptrs B (slotOf (srcb + bn)) ∧
          s'.data A (slotOf (dstb + bn)) = s.data B (slotOf (srcb + bn))) ∧
        ∀ bn, ¬ (dstb ≤ bn ∧ bn < dstb + n) → s'.data A (slotOf bn) = s.data A (slotOf bn) := by
  refine wp.mono (wp_loop (fun m r s' => ∃ u, r = some u ∧
    FileInv O M A 0 s' ∧ Step A (Free O) s s' ∧ (u = false → s'.inode A = s.inode A) ∧
      (∀ bn < m, s'.ptrs A (slotOf (dstb + bn)) = s.ptrs B (slotOf (srcb + bn)) ∧
        s'.data A (slotOf (dstb + bn)) = s.data B (slotOf (srcb + bn))) ∧
      ∀ bn, ¬ (dstb ≤ bn ∧ bn < dstb + m) → s'.data A (slotOf bn) = s.data A (slotOf bn)) ?_ ?_) ?_
  · exact ⟨false, rfl, h, .refl _ _ _, fun _ => rfl, fun bn hbn => by omega, fun _ _ => rfl⟩
  · rintro m _ s₁ - hm ⟨u, rfl, h₁, hstep, hu, hnew, hold⟩
    rw [Nat.zero_add] at hm
    have hframe := hstep.frame h.data_other
    apply (icloneBlock_spec h₁ (hl.frame hframe h.sub hne) (show dstb + m < MAXFILE by omega)).bind
    rintro _ s₂ ⟨u', rfl, hrel⟩
    have hother (bn : Nat) (hbn : bn ≠ dstb + m) :=
      hrel.other _ (slotOf_index bn) fun e => hbn (slotOf_inj e)
    have hsrc := congrFun (hl.ptrs hframe h.sub hne) (slotOf (srcb + m))
    refine ⟨u || u', rfl, hrel.inv, hstep.trans hrel.step, fun e => ?_, fun bn hbn => ?_,
      fun bn hbn => ?_⟩
    · obtain ⟨h1, h2⟩ := Bool.or_eq_false_iff.1 e
      rw [hrel.inode h2, hu h1]
    · by_cases he : bn = m
      · subst he
        refine ⟨by rw [hrel.self, hsrc], ?_⟩
        rw [hrel.data]
        exact hl.data hframe h.sub hne (slotOf_index _)
      · obtain ⟨h1, h2⟩ := hother (dstb + bn) (by omega)
        rw [h1, h2]
        exact hnew bn (by omega)
    · rw [(hother bn (by omega)).2, hold bn (by omega)]
  · rintro r s' ⟨u, hr, h', hstep, hu, hnew, hold⟩
    rw [Nat.zero_add] at hnew hold
    exact ⟨u, hr, h', hstep, hu, hnew, hold⟩

theorem icloneRange_spec (hne : B ≠ A)
    (hA : A < sb.ninodes) (hmax : dstOff / BSIZE + len / BSIZE ≤ MAXFILE) :
    wp OutOfBlocks (icloneRange B A srcOff dstOff len) s fun r s' =>
      (r = -1 ∧ ¬ ((s.inode B).type = T_FILE ∧ (s.inode A).type = T_FILE) ∧
          (s'.inode A).size = (s.inode A).size ∨
        r = 0 ∧ ((s.inode B).type = T_FILE ∧ (s.inode A).type = T_FILE) ∧
          (s'.inode A).size.toNat = max (s.inode A).size.toNat ((dstOff + len) % 2 ^ 32)) ∧
      Stored O M A s s' ∧
      (∀ p, ¬ ((s.inode B).type = T_FILE ∧ (s.inode A).type = T_FILE ∧ dstOff / BSIZE ≤ p / BSIZE ∧
        p / BSIZE < dstOff / BSIZE + len / BSIZE) → s'.byteAt A p = s.byteAt A p) ∧
      (r = 0 → ∀ bn < len / BSIZE, s'.data A (slotOf (dstOff / BSIZE + bn)) =
        s.data B (slotOf (srcOff / BSIZE + bn))) := by
  unfold icloneRange
  rw [wp_bind, wp_get]
  by_cases ht : (s.inode B).type ≠ T_FILE ∨ (s.inode A).type ≠ T_FILE
  · rw [if_pos ht]
    exact ⟨.inl ⟨rfl, fun hok => ht.elim (fun h' => h' hok.1) (fun h' => h' hok.2), rfl⟩,
      .of_unchanged h (.refl _ _ _) hA rfl, fun _ _ => rfl, fun h0 => absurd h0 (by decide)⟩
  · rw [if_neg ht]
    rw [not_or, not_not, not_not] at ht
    apply (icloneLoop_spec h hl hne hmax).bind
    rintro _ s₁ ⟨u, rfl, h₁, hstep, hu, hnew, hold⟩
    have hdone := h₁.done hstep
    have hsz : (s₁.inode A).size = (s.inode A).size := hstep.inode.size
    have hbytes (p : Nat) (hp : ¬ ((s.inode B).type = T_FILE ∧ (s.inode A).type = T_FILE ∧
        dstOff / BSIZE ≤ p / BSIZE ∧ p / BSIZE < dstOff / BSIZE + len / BSIZE)) :
        s₁.byteAt A p = s.byteAt A p := by
      rw [FsState.byteAt, hold _ fun hin => hp ⟨ht.1, ht.2, hin⟩, FsState.byteAt]
    have hsaved (z : UInt32) := (h₁.saved hA { s₁.inode A with size := z } rfl).2.2
    rw [wp_bind, wp_get]
    by_cases hgrow : (dstOff + len) % 2 ^ 32 > (s₁.inode A).size.toNat
    · simp only [if_pos hgrow]
      rw [wp_bind, wp_setSize, wp_bind, wp_iupdate, FsState.saved_modified]
      simp only [update_self]
      have hu32 : (dstOff + len) % 2 ^ 32 < UInt32.size := Nat.mod_lt _ (by decide)
      refine ⟨.inr ⟨rfl, ht, ?_⟩, .of_saved hdone hA _ rfl rfl, fun p hp => ?_, fun _ bn hbn => ?_⟩
      · rw [s₁.saved_inode, UInt32.toNat_ofNat_of_lt' hu32]
        rw [hsz] at hgrow
        omega
      · rw [(hsaved _).byteAt, hbytes p hp]
      · rw [hsaved _ _ (slotOf_index _), (hnew bn hbn).2]
    · simp only [if_neg hgrow]
      rw [hsz] at hgrow
      cases u with
      | true =>
        rw [if_pos rfl, wp_bind, wp_iupdate]
        refine ⟨.inr ⟨rfl, ht, ?_⟩, .of_saved hdone hA _ rfl rfl, fun p hp => ?_,
          fun _ bn hbn => ?_⟩
        · rw [s₁.saved_inode, hsz]
          omega
        · exact ((hsaved _).byteAt p).trans (hbytes p hp)
        · exact (hsaved _ _ (slotOf_index _)).trans (hnew bn hbn).2
      | false =>
        refine ⟨.inr ⟨rfl, ht, ?_⟩, .of_unchanged h₁ hstep hA (hu rfl), hbytes,
          fun _ bn hbn => (hnew bn hbn).2⟩
        rw [hsz]
        omega

theorem idedupBlock_spec : wp OutOfBlocks (idedupBlock B A bn) s fun r s' =>
    ∃ d u, r = some (d, u) ∧
      FileInv O M A 0 s' ∧ Step A (Free O) s s' ∧ (u = false → s'.inode A = s.inode A) ∧
        ∀ p, s'.byteAt A p = s.byteAt A p := by
  unfold idedupBlock
  rw [wp_bind, wp_get]
  simp only [FsState.bmapNalloc_eq]
  have hsame : ∃ d u, some (false, false) = some (d, u) ∧ FileInv O M A 0 s ∧
      Step A (Free O) s s ∧ (u = false → s.inode A = s.inode A) ∧
        ∀ p, s.byteAt A p = s.byteAt A p :=
    ⟨false, false, rfl, h, .refl _ _ _, fun _ => rfl, fun _ => rfl⟩
  by_cases h1 : s.ptrs B (slotOf bn) = 0 ∨ s.ptrs A (slotOf bn) = 0 ∨
      s.ptrs B (slotOf bn) = s.ptrs A (slotOf bn)
  · rw [if_pos h1]
    exact hsame
  · rw [if_neg h1]
    cases h2 : sameBlock (s.blocks (s.ptrs B (slotOf bn))) (s.blocks (s.ptrs A (slotOf bn))) with
    | false => exact hsame
    | true =>
      obtain ⟨hs, hd, -⟩ := not_or.1 h1 |>.imp_right not_or.1
      obtain ⟨hO, hM⟩ := hl.leaf _ (slotOf_index bn) hs
      have hbn := lt_of_slotOf_ok (Slot.ok_of_ptr hd)
      simp only [not_true_eq_false, ↓reduceIte]
      apply (h.brefInc hO hM).bind
      rintro _ s₁ ⟨h₁, hkeep, hptrs, hdata⟩
      have h₁' : FileInv O M A (nonzero (s.ptrs B (slotOf bn))) s₁ :=
        h₁.perm (nonzero_of_ne hs).symm
      have hset := setExisting_spec h₁' hbn fun p hp => hptrs ▸ ptr_parent_ne_zero hp hd
      rw [hptrs, freePtr, if_pos hd] at hset
      apply hset.bind
      rintro r s₂ ⟨hr, hfree⟩
      have hpos : ¬ r < 0 := by omega
      rw [if_neg hpos]
      apply hfree.bind
      intro _ s₃ hrel
      refine ⟨true, decide (r = 1), rfl, hrel.inv,
        (hkeep.step.mono (Set.empty_subset _)).trans hrel.step, fun e => ?_, fun p => ?_⟩
      · rw [hrel.inode e, hkeep.inode]
      · unfold FsState.byteAt
        by_cases he : p / BSIZE = bn
        · have hblock : s₁.blocks (s.ptrs B (slotOf bn)) = s.blocks (s.ptrs B (slotOf bn)) :=
            hkeep.data (h.data_other _ hO) (Set.notMem_empty _)
          rw [he, hrel.data, blockData, if_neg hs, hblock,
            (sameBlock_iff _ _).1 h2 _ (Nat.mod_lt _ (by decide)), FsState.data, blockData,
            if_neg hd]
        · rw [(hrel.other _ (slotOf_index _) fun e => he (slotOf_inj e)).2,
            hdata _ (slotOf_index _)]

theorem idedup_spec (hne : B ≠ A) (hA : A < sb.ninodes) :
    wp OutOfBlocks (idedup B A) s fun _ s' => Stored O M A s s' ∧
      SameMeta (s.inode A) (s'.inode A) ∧ ∀ p, s'.byteAt A p = s.byteAt A p := by
  unfold idedup
  rw [wp_bind, wp_get]
  by_cases ht : (s.inode B).type ≠ T_FILE ∨ (s.inode A).type ≠ T_FILE
  · rw [if_pos ht]
    exact ⟨.of_unchanged h (.refl _ _ _) hA rfl, rfl, fun _ => rfl⟩
  · rw [if_neg ht, if_neg hne]
    refine wp.bind (wp_loop (fun _ r s' => ∃ d u, r = some (d, u) ∧ FileInv O M A 0 s' ∧
      Step A (Free O) s s' ∧ (u = false → s'.inode A = s.inode A) ∧
        ∀ p, s'.byteAt A p = s.byteAt A p) ?_ ?_) ?_
    · exact ⟨0, false, rfl, h, .refl _ _ _, fun _ => rfl, fun _ => rfl⟩
    · rintro bn _ s₁ - - ⟨d, u, rfl, h₁, hstep, hu, hbytes⟩
      have hl₁ := hl.frame (hstep.frame h.data_other) h.sub hne
      apply (idedupBlock_spec h₁ hl₁).bind
      rintro _ s₂ ⟨d', u', rfl, h₂, hstep₂, hu', hbytes₂⟩
      refine ⟨_, u || u', rfl, h₂, hstep.trans hstep₂, fun e => ?_, fun p => ?_⟩
      · obtain ⟨h1, h2⟩ := Bool.or_eq_false_iff.1 e
        rw [hu' h2, hu h1]
      · rw [hbytes₂, hbytes]
    · rintro _ s₁ ⟨d, u, rfl, h₁, hstep, hu, hbytes⟩
      cases u with
      | true =>
        simp only [↓reduceIte]
        rw [wp_bind, wp_iupdate]
        obtain ⟨-, -, hsame⟩ := h₁.saved hA (s₁.inode A) rfl
        refine ⟨.of_saved (h₁.done hstep) hA _ rfl rfl, ?_, fun p => ?_⟩
        · rw [s₁.saved_inode]
          exact hstep.inode
        · rw [hsame.byteAt, hbytes]
      | false => exact ⟨.of_unchanged h₁ hstep hA (hu rfl), hstep.inode, hbytes⟩

end

end

end OopsOS
