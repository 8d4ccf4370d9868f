import OopsOS.ZeroFill

namespace OopsOS
set_option autoImplicit true

variable {s s₁ s' : FsState} {A a b c n fuel endb offset len : Nat} {f : File} {flags : UInt32}
  {O : Multiset Nat} {M : Set Nat} {D : Set Slot}

structure Holed (A a b : Nat) (s s' : FsState) : Prop where
  inv : BlockInv s'
  used : A ∈ s'.used
  size : (s'.inodeOf A).size = (s.inodeOf A).size
  bytes : ∀ p, s'.byteOf A p = if a ≤ p / BSIZE ∧ p / BSIZE < b then 0 else s.byteOf A p

theorem Holed.refl (hs : BlockInv s) (hA : A ∈ s.used) (h : b ≤ a) : Holed A a b s s :=
  ⟨hs, hA, rfl, fun p => by rw [if_neg (by omega)]⟩

theorem Holed.trans (h : Holed A a b s s₁) (h' : Holed A b c s₁ s') (hab : a ≤ b)
    (hbc : b ≤ c) : Holed A a c s s' := by
  refine ⟨h'.inv, h'.used, h'.size.trans h.size, fun p => ?_⟩
  rw [h'.bytes, h.bytes]
  by_cases h1 : p / BSIZE < b
  · rw [if_neg (by omega)]
    by_cases h2 : a ≤ p / BSIZE
    · rw [if_pos ⟨h2, h1⟩, if_pos ⟨h2, by omega⟩]
    · rw [if_neg (by omega), if_neg (by omega)]
  · by_cases h2 : p / BSIZE < c
    · rw [if_pos (by omega), if_pos (by omega)]
    · rw [if_neg (by omega), if_neg (by omega), if_neg (by omega)]

theorem Alike.holed (h : Alike s s₁) (h' : Holed A a b s₁ s') : Holed A a b s s' := by
  refine ⟨h'.inv, h'.used, by rw [h'.size, h.inode], fun p => ?_⟩
  rw [h'.bytes, h.byteOf]

theorem ipunch_holed (hs : BlockInv s) (hA : A ∈ s.used) (hv : s.valid A = true) (hab : a ≤ b) :
    wp OutOfBlocks (ipunch A a b) s fun r s' => (r = 0 ∨ r = -1) ∧ (r = 0 → Holed A a b s s') := by
  apply (ipunch_spec (hs.file hA hv) (FsState.lt_of_used hA) hab).mono
  intro r s' h
  obtain ⟨hst, hsize, hres⟩ := h
  have hv' := hst.done.inv.valid
  rcases hres with ⟨rfl, -, -⟩ | ⟨rfl, -, hbytes⟩
  · exact ⟨.inr rfl, fun h0 => by cases h0⟩
  · refine ⟨.inl rfl, fun _ => ⟨hs.done hA hv hst.done, hst.done.used hA hv ▸ hA, ?_, fun p => ?_⟩⟩
    · rw [FsState.inodeOf_valid hv', hsize, FsState.inodeOf_valid hv]
    · rw [FsState.byteOf_valid hv', hbytes, FsState.byteOf_valid hv]

theorem punchChunks_spec (hs : BlockInv s) (hA : A ∈ s.used) (hfuel : endb ≤ b + fuel)
    (hb : b ≤ endb) : wp OutOfBlocks (punchChunks A endb fuel b) s fun r s' =>
      r = 0 → Holed A b endb s s' := by
  induction fuel generalizing s b with
  | zero => exact fun _ => .refl hs hA hfuel
  | succ fuel ih =>
    unfold punchChunks
    by_cases hlt : b < endb
    · rw [if_pos hlt]
      generalize hc : min (endb - b) punchMax = chunk
      have hchunk : 0 < chunk ∧ b + chunk ≤ endb := by
        change min (endb - b) 3 = chunk at hc
        omega
      apply ilock_then hA
      intro s₁ hlike hv _
      apply (ipunch_holed (hlike.inv hs) (hlike.used.symm ▸ hA) hv (Nat.le_add_right b chunk)).bind
      intro r s₂ h
      obtain ⟨rfl | rfl, hp⟩ := h
      · have h₂ := hlike.holed (hp rfl)
        apply (ih h₂.inv h₂.used (by omega) hchunk.2).mono
        intro r' s' h' h0
        exact h₂.trans (h' h0) (Nat.le_add_right b chunk) hchunk.2
      · intro h0
        cases h0
    · rw [if_neg hlt]
      exact fun _ => .refl hs hA (Nat.not_lt.1 hlt)

theorem sysFallocate_punch (hs : BlockInv s) (hA : f.ip ∈ s.used)
    (hflag : flags &&& FALLOC_FL_PUNCH_HOLE ≠ 0) (hlen : 0 < len) :
    wp OutOfBlocks (sysFallocate f offset len flags) s fun r s' => r = 0 →
      Holed f.ip (offset / BSIZE) (blocksFor (offset + len)) s s' := by
  have hfail : (-1 : Int) = 0 → Holed f.ip (offset / BSIZE) (blocksFor (offset + len)) s s := by
    intro h0
    cases h0
  have hneg : ¬ ((offset : Int) < 0 ∨ (len : Int) < 0) := by omega
  have hpos : ¬ (len : Int) = 0 := by omega
  have hle : offset / BSIZE ≤ blocksFor (offset + len) := by
    change offset / 1024 ≤ (offset + len + 1024 - 1) / 1024
    omega
  unfold sysFallocate
  simp only [if_neg hneg, if_neg hpos, if_pos hflag, Int.toNat_natCast]
  split
  · exact hfail
  · rw [wp_bind, wp_get]
    split
    · exact hfail
    · split
      · exact hfail
      · split
        · exact hfail
        · split
          · exact hfail
          · exact punchChunks_spec hs hA (Nat.le_of_eq (Nat.add_sub_cancel' hle).symm) hle

/-- Punching is exact if its first and last block had zeros outside of the range. -/
theorem punch_hole_exact (hs : BlockInv s) (hA : f.ip ∈ s.used)
    (hflag : flags &&& FALLOC_FL_PUNCH_HOLE ≠ 0) (hlen : 0 < len)
    (hret : sysFallocate f offset len flags s = .ok (0, s')) :
    ((s'.inodeOf f.ip).size = (s.inodeOf f.ip).size ∧
      (∀ p < (s.inodeOf f.ip).size.toNat, offset ≤ p → p < offset + len →
        s'.readByte f.ip p = [0]) ∧
      ∀ p, ¬ (offset ≤ p ∧ p < offset + len) → s'.readByte f.ip p = s.readByte f.ip p) ↔
    ∀ p < (s.inodeOf f.ip).size.toNat, ¬ (offset ≤ p ∧ p < offset + len) →
      offset / BSIZE ≤ p / BSIZE → p / BSIZE < blocksFor (offset + len) → s.byteOf f.ip p = 0 := by
  have hp := (sysFallocate_punch hs hA hflag hlen).of_ok hret rfl
  constructor
  · intro h p hlt hout h1 h2
    obtain ⟨-, -, hkept⟩ := h
    have hsame := hkept p hout
    rw [FsState.readByte_below (hp.size ▸ hlt), FsState.readByte_below hlt, hp.bytes,
      if_pos ⟨h1, h2⟩] at hsame
    exact (List.head_eq_of_cons_eq hsame).symm
  · intro hzero
    refine ⟨hp.size, fun p hlt h1 h2 => ?_, fun p hout => ?_⟩
    · rw [FsState.readByte_below (hp.size ▸ hlt), hp.bytes, if_pos]
      constructor
      · exact Nat.div_le_div_right h1
      · change p / 1024 < (offset + len + 1024 - 1) / 1024
        omega
    · by_cases hlt : p < (s.inodeOf f.ip).size.toNat
      · rw [FsState.readByte_below (hp.size ▸ hlt), FsState.readByte_below hlt, hp.bytes]
        split
        · next hin => rw [hzero p hlt hout hin.1 hin.2]
        · rfl
      · rw [FsState.readByte_above (hp.size ▸ Nat.not_lt.1 hlt),
          FsState.readByte_above (Nat.not_lt.1 hlt)]

theorem exists_fallocate (h : yields (sysFallocate f offset len flags) s (· == 0) = true) :
    ∃ s', sysFallocate f offset len flags s = .ok (0, s') := by
  obtain ⟨r, s', hret, hr⟩ := exists_of_yields h
  exact ⟨s', eq_of_beq hr ▸ hret⟩

theorem punch_hole_exact_even : ∃ s', sysFallocate ⟨.inode, true, 1, 0⟩ 1024 1024
    FALLOC_FL_PUNCH_HOLE evenState = .ok (0, s') ∧
    s'.readByte 1 1023 = evenState.readByte 1 1023 := by
  have hinv := evenState_inv
  have hused := evenState_used
  have hsize : (evenState.inodeOf 1).size.toNat = 2048 := by decide +kernel
  obtain ⟨s', hret⟩ : ∃ s', sysFallocate ⟨.inode, true, 1, 0⟩ (1024 : Nat) (1024 : Nat)
      FALLOC_FL_PUNCH_HOLE evenState = .ok (0, s') := exists_fallocate (by decide +kernel)
  generalize evenState = s at *
  refine ⟨s', hret, ((punch_hole_exact hinv hused (by decide) (by decide) hret).2 ?_).2.2 1023
    (by decide)⟩
  intro p hlt hout h1 _
  change p < (s.inodeOf 1).size.toNat at hlt
  change 1024 / 1024 ≤ p / 1024 at h1
  omega

/-- A hole inside of a block takes the rest of the block with it. -/
theorem punch_hole_wide : ∃ s f offset len flags s', BlockInv s ∧ f.ip ∈ s.used ∧
    flags &&& FALLOC_FL_PUNCH_HOLE ≠ 0 ∧ 0 < len ∧
    sysFallocate f (offset : Nat) (len : Nat) flags s = .ok (0, s') ∧
    ∃ p < (s.inodeOf f.ip).size.toNat, ¬ (offset ≤ p ∧ p < offset + len) ∧
      s.readByte f.ip p = [5] ∧ s'.readByte f.ip p = [0] := by
  have hinv := fivesState_inv
  have hused := fivesState_used
  have hsize : 0 < (fivesState.inodeOf 1).size.toNat := by decide +kernel
  have hbyte : fivesState.byteOf 1 0 = 5 := by decide +kernel
  obtain ⟨s', hret⟩ : ∃ s', sysFallocate ⟨.inode, true, 1, 0⟩ (1 : Nat) (1 : Nat)
      FALLOC_FL_PUNCH_HOLE fivesState = .ok (0, s') := exists_fallocate (by decide +kernel)
  generalize fivesState = s at *
  have hp := (sysFallocate_punch hinv hused (by decide) (by decide)).of_ok hret rfl
  refine ⟨s, ⟨.inode, true, 1, 0⟩, 1, 1, FALLOC_FL_PUNCH_HOLE, s', hinv, hused, by
    decide, by decide, hret, 0, hsize, by decide, ?_, ?_⟩
  · rw [FsState.readByte_below hsize, hbyte]
  · rw [FsState.readByte_below (hp.size ▸ hsize), hp.bytes, if_pos (by decide)]

/-- The blocks from `a` to `b` are gone and no others. -/
structure PunchedOut (A a b : Nat) (s s' : FsState) : Prop extends Trimmed A s s' where
  gone : ∀ bn, a ≤ bn → bn < b → bmapNalloc s'.blocks (s'.inode A) bn = 0
  kept : ∀ bn, ¬ (a ≤ bn ∧ bn < b) →
    bmapNalloc s'.blocks (s'.inode A) bn = bmapNalloc s.blocks (s.inode A) bn
  size : (s'.inode A).size = (s.inode A).size

theorem Shrunk.punchedOut (h : Shrunk O M A ∅ s s₁) (ht : Trims A s s₁) (hf : FileInv O M A 0 s)
    (hinv : FileInv O M A 0 s') (hptrs : s'.ptrs A = s₁.ptrs A)
    (hsize : (s'.inode A).size = (s.inode A).size)
    (hgone : ∀ bn, a ≤ bn → bn < b → s₁.ptrs A (slotOf bn) = 0)
    (hkept : ∀ bn, ¬ (a ≤ bn ∧ bn < b) → s₁.ptrs A (slotOf bn) = s.ptrs A (slotOf bn)) :
    PunchedOut A a b s s' where
  toTrimmed := h.trimmed ht hf hinv hptrs
  gone bn h1 h2 := by rw [s'.bmapNalloc_eq, hptrs, hgone bn h1 h2]
  kept bn hbn := by rw [s'.bmapNalloc_eq, s.bmapNalloc_eq, hptrs, hkept bn hbn]
  size := hsize

/-- `ipunch` of a file returns 0, and the blocks of the range are gone and no others. -/
theorem ipunch_exact (hs : BlockInv s) (hA : A ∈ s.used) (hv : s.valid A = true) (hab : a ≤ b) :
    wp (fun _ => False) (ipunch A a b) s fun r s' =>
      (r = 0 ↔ (s.inode A).type = T_FILE) ∧ (r = 0 → PunchedOut A a b s s') := by
  have hf := hs.file hA hv
  by_cases ht : (s.inode A).type = T_FILE
  · apply (ipunch_shrunk hf hab ht).mono
    rintro _ s' ⟨rfl, s₁, h₁, htrim, hgone, hkept, hs'⟩
    have hsize : (s₁.inode A).size = (s.inode A).size := h₁.step.inode.size
    refine ⟨iff_of_true rfl ht, fun _ => ?_⟩
    obtain rfl | ⟨rfl, -⟩ := hs'
    · obtain ⟨hinv, hptrs, -⟩ := h₁.shed.inv.saved (FsState.lt_of_used hA) (s₁.inode A) rfl
      exact h₁.punchedOut htrim hf hinv hptrs (s₁.saved_inode A _ ▸ hsize) hgone hkept
    · exact h₁.punchedOut htrim hf h₁.shed.inv rfl hsize hgone hkept
  · unfold ipunch
    rw [wp_bind, wp_get]
    simp only [ne_eq, ht, not_false_eq_true, ↓reduceIte]
    exact ⟨iff_of_false (by decide) id, fun h0 => absurd h0 (by decide)⟩

theorem ipunch_exact_even : wp (fun _ => False) (ipunch 1 0 1) evenState fun r s' =>
    (r = 0 ↔ (evenState.inode 1).type = T_FILE) ∧ (r = 0 → PunchedOut 1 0 1 evenState s') := by
  have hinv := evenState_inv
  have hused := evenState_used
  have hv : evenState.valid 1 = true := by decide +kernel
  generalize evenState = s at *
  exact ipunch_exact hinv hused hv (by decide)

end OopsOS
