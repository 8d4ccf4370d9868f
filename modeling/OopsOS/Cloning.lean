import OopsOS.Sharing

namespace OopsOS
set_option autoImplicit true
open Function

variable {s s₁ s' : FsState} {O P : Multiset Nat} {M : Set Nat} {A B i y : Nat} {k c : Slot}
  {D K : Set Slot}

theorem Shed.brefInc (h : Shed O M A D s) (hk : k ∈ D) (h0 : s.ptrs A k ≠ 0)
    (hO : s.ptrs A k ∈ O) :
    wp OutOfBlocks (brefInc (s.ptrs A k)) s fun _ s' =>
      Shed O M A (D \ {k}) s' ∧ Keeps ∅ s s' ∧ s'.blocks = s.blocks ∧ s'.ptrs A = s.ptrs A := by
  apply (brefInc_spec h.acct (Multiset.mem_add.2 (.inl hO))).mono
  intro _ s' hs
  obtain ⟨hacct, hblocks, hkeep⟩ := hs
  have hptrs : s'.ptrs A = s.ptrs A := by
    unfold FsState.ptrs
    rw [hblocks, hkeep.inode]
  have hlive : k ∉ live D := fun hm => (mem_live.1 hm).2 hk
  refine ⟨⟨hkeep.valid ▸ h.valid, ?_, hptrs ▸ h.own, h.sub⟩, hkeep, hblocks, hptrs⟩
  have he : values (live (D \ {k})) (s.ptrs A) = values (insert k (live D)) (s.ptrs A) := by
    apply values_eq_of_support
    intro k' hk'
    have hok : k'.Ok := Slot.ok_of_ptr hk'
    rw [Finset.mem_insert, mem_live, mem_live, Set.mem_sdiff, Set.mem_singleton_iff]
    tauto
  rw [hptrs, he, values_insert hlive, nonzero_of_ne h0, Multiset.singleton_add]
  exact hacct

theorem shareEntries_spec (h : Shed O M A { c | c.parent = some k } s) (hi : k.index = true)
    (hk : s.ptrs A k ≠ 0)
    (hO : ∀ c, c.parent = some k → s.ptrs A c ≠ 0 → s.ptrs A c ∈ O) :
    wp OutOfBlocks (shareEntries (s.ptrs A k) NADDR_PER_BLOCK) s fun _ s' =>
      Shed O M A ∅ s' ∧ Keeps ∅ s s' ∧ s'.ptrs A = s.ptrs A := by
  unfold shareEntries
  refine wp.mono (wp_loop (fun j _ s' => Shed O M A { c | c.parent = some k ∧ j ≤ c.pos } s' ∧
    Keeps ∅ s s' ∧ s'.ptrs A = s.ptrs A) ?_ ?_) ?_
  · exact ⟨h.change fun c _ => (and_iff_left (Nat.zero_le _)).symm, .refl _ _, rfl⟩
  · intro j _ s₁ _ hj hs
    obtain ⟨h₁, hkeep, hptrs⟩ := hs
    rw [Nat.zero_add] at hj
    have he : s.ptrs A k = s₁.ptrs A k := by rw [hptrs]
    rw [wp_bind, wp_bread, he, FsState.getWord_ptrs hi (he ▸ hk) hj]
    have hnext (c : Slot) (hc : s₁.ptrs A c ≠ 0) (hne : c ≠ k.child j) :
        c ∈ { c | c.parent = some k ∧ j ≤ c.pos } ↔
          c ∈ { c | c.parent = some k ∧ j + 1 ≤ c.pos } := by
      refine and_congr_right fun hpar => ?_
      have hpos : c.pos ≠ j := fun e => hne (e ▸ Slot.eq_child hpar)
      omega
    by_cases h0 : s₁.ptrs A (k.child j) = 0
    · rw [if_neg (not_not.2 h0)]
      exact ⟨h₁.change fun c hc => hnext c hc fun e => hc (e ▸ h0), hkeep, hptrs⟩
    · rw [if_pos h0]
      have hpar := Slot.parent_child hi j
      have hmem : k.child j ∈ { c | c.parent = some k ∧ j ≤ c.pos } :=
        ⟨hpar, Nat.le_of_eq (Slot.pos_child hi j).symm⟩
      have hin : s₁.ptrs A (k.child j) ∈ O := by
        rw [hptrs] at h0 ⊢
        exact hO _ hpar h0
      apply (h₁.brefInc hmem h0 hin).mono
      intro _ s₂ hs
      obtain ⟨h₂, hkeep₂, -, hptrs₂⟩ := hs
      refine ⟨h₂.change fun c hc => ?_, hkeep.trans hkeep₂, hptrs₂.trans hptrs⟩
      rw [hptrs₂] at hc
      rw [Set.mem_sdiff, Set.mem_singleton_iff]
      by_cases he : c = k.child j
      · subst he
        refine iff_of_false (fun hf => hf.2 rfl) fun hf => ?_
        have := hf.2
        rw [Slot.pos_child hi] at this
        omega
      · rw [and_iff_left he, hnext c hc he]
  · intro _ s' hs
    obtain ⟨h', hkeep, hptrs⟩ := hs
    refine ⟨h'.change fun c hc => iff_of_false (fun hf => ?_) (Set.notMem_empty _), hkeep, hptrs⟩
    have hlt := (Slot.ok_of_ptr hc).pos_lt hf.1
    have := hf.2
    omega

theorem FileInv.copyIndex (h : FileInv O M A 0 s) (hl : Lender O M B s) (hk : k.Lowest)
    (hA : s.ptrs A k ≠ 0) (hB : s.ptrs B k ≠ 0) (hempty : ∀ c, c.parent = some k → s.ptrs A c = 0)
    (hs : s' = { s with blocks := update s.blocks (s.ptrs A k) (s.blocks (s.ptrs B k)) }) :
    Shed O M A { c | c.parent = some k } s' ∧ Step A (Free O) s s' ∧
      ∀ c, s'.ptrs A c = if c.parent = some k then s.ptrs B c else s.ptrs A c := by
  have hi := hk.index
  have hd := h.data_ptr hA
  have hblock (x : Nat) (hx : x ≠ s.ptrs A k) : s'.blocks x = s.blocks x := by
    rw [hs]
    exact update_of_ne hx ..
  have hself : s'.blocks (s.ptrs A k) = s.blocks (s.ptrs B k) := by
    rw [hs]
    exact update_self ..
  have hinode : s'.inode = s.inode := by rw [hs]
  have hptrs (c : Slot) : s'.ptrs A c = if c.parent = some k then s.ptrs B c else s.ptrs A c := by
    induction c using Slot.induct with
    | root c hr =>
      have hne : c.parent ≠ some k := by
        rw [hr]
        exact fun e => by cases e
      rw [if_neg hne]
      by_cases hok : c.Ok
      · rw [FsState.ptrs, FsState.ptrs, ptr_root _ _ hok hr, ptr_root _ _ hok hr, hinode]
      · rw [FsState.ptrs, FsState.ptrs, ptr_not_ok _ _ hok, ptr_not_ok _ _ hok]
    | child c p hc ih =>
      have hp : p.parent ≠ some k := fun e => by
        have h1 := hk.child_index e
        rw [Slot.parent_index hc] at h1
        cases h1
      rw [if_neg hp] at ih
      have he : s'.ptrs A c = entryAt s'.blocks (s'.ptrs A p) c.pos := ptr_child _ _ hc
      rw [he, ih]
      by_cases hpk : p = k
      · subst hpk
        have heB : s.ptrs B c = entryAt s.blocks (s.ptrs B p) c.pos := ptr_child _ _ hc
        rw [if_pos hc, heB, entryAt, entryAt, hself]
        simp only [hA, hB]
      · have hne : c.parent ≠ some k := fun e => hpk (Option.some.inj (hc.symm.trans e))
        have heA : s.ptrs A c = entryAt s.blocks (s.ptrs A p) c.pos := ptr_child _ _ hc
        rw [if_neg hne, heA]
        by_cases h0 : s.ptrs A p = 0
        · rw [h0, entryAt_zero, entryAt_zero]
        · exact entryAt_congr (hblock _ fun e => hpk (h.index_inj hi hA e))
  have hold (c : Slot) (hc : c ∉ { c | c.parent = some k }) : s'.ptrs A c = s.ptrs A c := by
    rw [hptrs]
    exact if_neg hc
  have hnew (c : Slot) (hc : c.parent = some k) (h0 : s'.ptrs A c ≠ 0) :
      s'.ptrs A c ∈ O ∧ s'.ptrs A c ∉ M := by
    rw [hptrs, if_pos hc] at h0 ⊢
    exact hl.leaf c (hk.child_index hc) h0
  have hvals : values (live { c | c.parent = some k }) (s'.ptrs A) = values slots (s.ptrs A) := by
    have h1 : values (live { c | c.parent = some k }) (s'.ptrs A) =
        values (live { c | c.parent = some k }) (s.ptrs A) :=
      values_congr fun c hc => hold c (mem_live.1 hc).2
    rw [h1]
    apply values_eq_of_support
    intro c hc
    rw [mem_live, mem_slots]
    exact and_iff_left fun hpar => hc (hempty c hpar)
  have hacct := h.acct
  rw [zero_add, ← hvals] at hacct
  refine ⟨⟨?_, ?_, ⟨fun c hc => ?_, fun c hic hc => ?_⟩, h.sub⟩, ⟨fun x _ hx => hblock x ?_,
    fun _ _ => congrFun hinode _, ?_, ?_, ?_⟩, hptrs⟩
  · rw [hs]
    exact h.valid
  · refine hacct.congr (fun x hx => hblock x fun e => hd.not_isMap (e ▸ hx)) ?_
    rw [hs]
  · by_cases hpar : c.parent = some k
    · obtain ⟨h1, h2⟩ := hnew c hpar hc
      exact ⟨h.data_other _ h1, h2⟩
    · rw [hold c hpar] at hc ⊢
      exact ⟨h.data_ptr hc, h.apart _ (h.mem_own hc)⟩
  · have hpar : c.parent ≠ some k := fun e => by
      have h1 := hk.child_index e
      rw [hic] at h1
      cases h1
    rw [hold c hpar] at hc ⊢
    refine ⟨h.index_not_mem hic hc, fun c' e => ?_⟩
    by_cases hpar' : c'.parent = some k
    · have h0 : s'.ptrs A c' ≠ 0 := e ▸ hc
      exact (h.index_not_mem hic hc (e ▸ (hnew c' hpar' h0).1)).elim
    · rw [hold c' hpar'] at e
      exact h.index_inj hic hc e
  · rintro rfl
    exact hx (h.free_index hi hA)
  · rw [hinode]
    rfl
  · rw [hs]
  · rw [hs]

theorem shareIndex_spec (h : FileInv O M A 0 s) (hl : Lender O M B s) (hk : k.Lowest)
    (hA : s.ptrs A k ≠ 0) (hB : s.ptrs B k ≠ 0)
    (hempty : ∀ c, c.parent = some k → s.ptrs A c = 0) :
    wp OutOfBlocks (shareIndex (s.ptrs B k) (s.ptrs A k)) s fun _ s' =>
      FileInv O M A 0 s' ∧ Step A (Free O) s s' ∧
        ∀ c, s'.ptrs A c = if c.parent = some k then s.ptrs B c else s.ptrs A c := by
  unfold shareIndex
  rw [wp_bind, wp_bread, wp_bind, wp_bstore]
  generalize hs₁ : FsState.mk _ _ _ _ _ _ _ = s₁
  obtain ⟨h₁, hstep, hptrs⟩ := h.copyIndex hl hk hA hB hempty hs₁.symm
  have hself : k.parent ≠ some k := fun e => Slot.not_mem_path_parent e k.mem_path
  have hk₁ : s₁.ptrs A k = s.ptrs A k := by rw [hptrs, if_neg hself]
  have hO (c : Slot) (hc : c.parent = some k) (h0 : s₁.ptrs A c ≠ 0) : s₁.ptrs A c ∈ O := by
    rw [hptrs, if_pos hc] at h0 ⊢
    exact (hl.leaf c (hk.child_index hc) h0).1
  rw [← hk₁]
  rw [← hk₁] at hA
  apply (shareEntries_spec h₁ hk.index hA hO).bind
  intro _ s₂ hs
  obtain ⟨h₂, hkeep, hptrs₂⟩ := hs
  have hstep₂ := hstep.trans (hkeep.step.mono (Set.empty_subset _))
  rw [wp_logWrite]
  have hlog := h₂.shrunk.logged (s₁.ptrs A k :: s₂.logged)
  refine ⟨hlog.shed.inv, ⟨hstep₂.blocks, hstep₂.others, hstep₂.inode, hstep₂.valid, hstep₂.iref⟩,
    fun c => (congrFun hptrs₂ c).trans (hptrs c)⟩

/-- The copy `A` of `B` while `iclone` runs: the slots in `K` are done, the others empty. -/
structure Cloning (O : Multiset Nat) (M : Set Nat) (A B : Nat) (K : Set Slot) (s s' : FsState) :
    Prop where
  inv : FileInv O M A 0 s'
  step : Step A (Free O) s s'
  same : ∀ k ∈ K, k.index = false → s'.ptrs A k = s.ptrs B k
  rest : ∀ k, k ∉ K → s'.ptrs A k = 0

theorem Cloning.congr (h : Cloning O M A B K s s') (he : ∀ k, k ∈ K ↔ k ∈ K') :
    Cloning O M A B K' s s' := by
  have hK : K = K' := Set.ext he
  exact hK ▸ h

theorem Cloning.lender (h : Cloning O M A B K s s') (hl : Lender O M B s) (hne : B ≠ A) :
    Lender O M B s' ∧ s'.ptrs B = s.ptrs B :=
  ⟨hl.frame (h.step.frame h.inv.data_other) h.inv.sub hne,
    hl.ptrs (h.step.frame h.inv.data_other) h.inv.sub hne⟩

theorem wp_setPtr_brefInc {Q : Unit → FsState → Prop} (i a : Nat) :
    wp E (do setPtr A (.addr i) a; brefInc a) s Q ↔
      wp E (brefInc a) s fun _ s₁ => Q () (s₁.setPtr A (.addr i) a) := by
  rw [wp_bind, wp_setPtr]
  unfold brefInc
  split
  · exact Iff.rfl
  · exact Iff.rfl

theorem Cloning.skip (h : Cloning O M A B K s s₁) (h0 : s.ptrs B k = 0)
    (hK : ∀ c ∈ under k, c ∉ K) : Cloning O M A B (K ∪ under k) s s₁ := by
  refine ⟨h.inv, h.step, fun c hc hi => ?_, fun c hc => h.rest c fun hm => hc (.inl hm)⟩
  by_cases hu : c ∈ under k
  · have hz : s.ptrs B c = 0 := ptr_under_zero h0 hu
    rw [h.rest c (hK c hu), hz]
  · exact h.same c (hc.resolve_right hu) hi

section

variable (h : Cloning O M A B K s s₁) (hl : Lender O M B s) (hne : B ≠ A)

include h hl hne

theorem cloneDirect_spec (hi : i < NDIRECT) (hK : Slot.direct i ∉ K) :
    wp OutOfBlocks (cloneDirect B A i) s₁ fun _ s' =>
      Cloning O M A B (insert (.direct i) K) s s' := by
  have hok : (Slot.direct i).Ok := hi
  obtain ⟨hl₁, hB⟩ := h.lender hl hne
  have hempty := h.rest _ hK
  have hfinish (y : Nat) (s₂ : FsState) (hy : y = s₁.ptrs B (.direct i))
      (h₂ : FileInv O M A (nonzero y) s₂) (hkeep : Keeps ∅ s₁ s₂) (hptrs : s₂.ptrs A = s₁.ptrs A) :
      Cloning O M A B (insert (.direct i) K) s (s₂.setPtr A (.addr i) y) := by
    have h₂' : FileInv O M A (nonzero y + 0) s₂ := h₂.perm (add_zero _).symm
    obtain ⟨h₃, hup, hstep, -⟩ := h₂'.setPtr hok (fun p e => by cases e) (fun e => by cases e)
    rw [hptrs] at h₃ hup hstep
    rw [hempty] at h₃
    refine ⟨h₃, (h.step.trans (hkeep.step.mono (Set.empty_subset _))).trans hstep,
      fun k hk hki => ?_, fun k hk => ?_⟩
    · rcases hk with rfl | hk
      · exact (congrFun hup _).trans ((update_self ..).trans (hy.trans (congrFun hB _)))
      · have hne' : k ≠ .direct i := fun e => hK (e ▸ hk)
        exact (congrFun hup k).trans ((update_of_ne hne' ..).trans (h.same k hk hki))
    · obtain ⟨hne', hk⟩ := not_or.1 hk
      exact (congrFun hup k).trans ((update_of_ne hne' ..).trans (h.rest k hk))
  unfold cloneDirect
  rw [wp_bind]
  apply getPtr_spec (.direct i) hok rfl
  by_cases h0 : s₁.ptrs B (.direct i) = 0
  · rw [if_neg (not_not.2 h0), wp_bind, wp_setPtr]
    exact hfinish _ s₁ rfl (h0.symm ▸ h.inv) (.refl _ _) rfl
  · rw [if_pos h0]
    obtain ⟨hO, hM⟩ := hl₁.leaf _ rfl h0
    apply (wp_setPtr_brefInc _ _).2
    apply (h.inv.brefInc hO hM).mono
    intro _ s₂ hs
    obtain ⟨h₂, hkeep, hptrs, -⟩ := hs
    exact hfinish _ s₂ rfl (h₂.perm (nonzero_of_ne h0).symm) hkeep hptrs

theorem cloneIndex_spec (hk : k.Lowest) (hok : k.Ok) (hK : ∀ c ∈ under k, c ∉ K)
    (hp : ∀ p, k.parent = some p → s₁.ptrs A p ≠ 0) (hB : s₁.ptrs B k ≠ 0) :
    wp OutOfBlocks balloc s₁ fun b s₂ => ∀ l,
      wp OutOfBlocks (shareIndex (s₁.ptrs B k) b)
        { s₂.setPtr A (k.loc (s₁.ptrs A)) b with logged := l } fun _ s' =>
          Cloning O M A B (K ∪ under k) s s' ∧ ∀ c, c ∉ under k → s'.ptrs A c = s₁.ptrs A c := by
  have h0 := h.rest k (hK k k.mem_path)
  apply (h.inv.link hok h0 hp).mono
  intro b s₂ hs l
  obtain ⟨h₂, hstep, hb, -, hup, -⟩ := hs
  have h₃ := (h₂.shed.shrunk.logged l).shed.inv
  generalize hs₃ : { s₂.setPtr A (k.loc (s₁.ptrs A)) b with logged := l } = s₃ at h₃ ⊢
  have hup₃ : s₃.ptrs A = update (s₁.ptrs A) k b := hs₃ ▸ hup
  have hstep₃ : Step A (Free O) s₁ s₃ := by
    rw [← hs₃]
    exact ⟨hstep.blocks, hstep.others, hstep.inode, hstep.valid, hstep.iref⟩
  obtain ⟨hl₁, hB₁⟩ := h.lender hl hne
  have hframe := hstep₃.frame h.inv.data_other
  have hB₃ : s₃.ptrs B = s₁.ptrs B := hl₁.ptrs hframe h.inv.sub hne
  have hself : s₃.ptrs A k = b := by rw [hup₃, update_self]
  have hother (c : Slot) (hc : c ≠ k) : s₃.ptrs A c = s₁.ptrs A c := by
    rw [hup₃, update_of_ne hc]
  have hempty (c : Slot) (hc : c.parent = some k) : s₃.ptrs A c = 0 := by
    have hcne : c ≠ k := fun e => Slot.not_mem_path_parent hc (e ▸ k.mem_path)
    rw [hother c hcne]
    exact h.rest c (hK c (hk.mem_under.2 (.inl hc)))
  rw [← hself, ← hB₃]
  rw [← hself] at hb
  rw [← hB₃] at hB
  apply (shareIndex_spec h₃ (hl₁.frame hframe h.inv.sub hne) hk hb hB hempty).mono
  intro _ s₄ hs
  obtain ⟨h₄, hstep₄, hptrs⟩ := hs
  have hkeep (c : Slot) (hc : c ∉ under k) : s₄.ptrs A c = s₁.ptrs A c := by
    obtain ⟨hpar, hcne⟩ := not_or.1 fun hu => hc (hk.mem_under.2 hu)
    rw [hptrs, if_neg hpar, hother c hcne]
  refine ⟨⟨h₄, (h.step.trans hstep₃).trans hstep₄, fun c hc hi => ?_, fun c hc => ?_⟩, hkeep⟩
  · by_cases hu : c ∈ under k
    · rcases hk.mem_under.1 hu with hpar | rfl
      · rw [hptrs, if_pos hpar, hB₃, hB₁]
      · rw [hk.index] at hi
        cases hi
    · rw [hkeep c hu]
      exact h.same c (hc.resolve_right hu) hi
  · obtain ⟨hcK, hu⟩ := not_or.1 hc
    rw [hkeep c hu, h.rest c hcK]

theorem cloneSingle_spec (hK : ∀ c ∈ under .single, c ∉ K) :
    wp OutOfBlocks (cloneSingle B A) s₁ fun _ s' => Cloning O M A B (K ∪ under .single) s s' := by
  obtain ⟨-, hB⟩ := h.lender hl hne
  unfold cloneSingle
  rw [wp_bind]
  apply getPtr_spec .single trivial rfl
  by_cases h0 : s₁.ptrs B .single = 0
  · rw [if_neg (not_not.2 h0)]
    exact h.skip (hB ▸ h0) hK
  · rw [if_pos h0]
    have hok : Slot.single.Ok := trivial
    apply (cloneIndex_spec h hl hne (.inl rfl) hok hK (fun p e => by cases e) h0).bind
    intro b s₂ hshare
    rw [wp_bind, wp_setPtr]
    apply (hshare _).mono
    intro _ s' hs
    exact hs.1

theorem cloneSeconds_spec (hB : s.ptrs B .double ≠ 0) (hA : s₁.ptrs A .double ≠ 0)
    (hK : ∀ i, ∀ c ∈ under (.second i), c ∉ K) :
    wp OutOfBlocks (loop 0 NADDR_PER_BLOCK () fun i _ =>
      cloneSecond (s.ptrs B .double) (s₁.ptrs A .double) i) s₁ fun _ s' =>
        Cloning O M A B (K ∪ { c | ∃ i, c ∈ under (.second i) }) s s' := by
  refine wp.mono (wp_loop (fun n _ s' =>
    Cloning O M A B (K ∪ { c | ∃ i < n, c ∈ under (.second i) }) s s' ∧
      s'.ptrs A .double = s₁.ptrs A .double) ?_ ?_) ?_
  · refine ⟨h.congr fun c => (or_iff_left ?_).symm, rfl⟩
    rintro ⟨i, hi, -⟩
    exact Nat.not_lt_zero i hi
  · intro n _ s₂ _ hn hs
    obtain ⟨h₂, hd⟩ := hs
    rw [Nat.zero_add] at hn
    obtain ⟨-, hB₂⟩ := h₂.lender hl hne
    have hbe : s₂.ptrs B .double = s.ptrs B .double := congrFun hB₂ _
    have hK' (c : Slot) (hc : c ∈ under (.second n)) :
        c ∉ K ∪ { c | ∃ i < n, c ∈ under (.second i) } := by
      rintro (hk | ⟨i, hi, hc'⟩)
      · exact hK n c hc hk
      · rw [mem_under] at hc hc'
        cases c <;> simp [Slot.path] at hc hc' <;> omega
    have hset (c : Slot) : c ∈ K ∪ { c | ∃ i < n, c ∈ under (.second i) } ∪ under (.second n) ↔
        c ∈ K ∪ { c | ∃ i < n + 1, c ∈ under (.second i) } := by
      simp only [Set.mem_union, Set.mem_ofPred_eq, Nat.exists_lt_succ_right, or_assoc]
    have hread : getWord (s₂.blocks (s.ptrs B .double)) n = s₂.ptrs B (.second n) := by
      rw [← hbe] at hB ⊢
      exact FsState.getWord_ptrs rfl hB hn
    unfold cloneSecond
    rw [wp_bind, wp_bread]
    simp only [hread]
    by_cases h0 : s₂.ptrs B (.second n) = 0
    · rw [if_pos h0]
      exact ⟨(h₂.skip (hB₂ ▸ h0) hK').congr hset, hd⟩
    · rw [if_neg h0]
      have hok : (Slot.second n).Ok := hn
      have hp (p : Slot) (e : (Slot.second n).parent = some p) : s₂.ptrs A p ≠ 0 := by
        cases e
        rw [hd]
        exact hA
      apply (cloneIndex_spec h₂ hl hne (.inr ⟨n, rfl⟩) hok hK' hp h0).bind
      intro b s₃ hshare
      rw [wp_bind, wp_bread, wp_bind, wp_bstore, ← hd]
      apply (hshare s₃.logged).mono
      intro _ s₄ hs
      obtain ⟨h₄, hkeep⟩ := hs
      refine ⟨h₄.congr hset, ?_⟩
      rw [hkeep .double (by simp [mem_under, Slot.path]), hd]
  · intro _ s' hs
    obtain ⟨h', -⟩ := hs
    have hbig (c : Slot) (i : Nat) (hi : ¬ i < 0 + NADDR_PER_BLOCK) (hc : c ∈ under (.second i))
        (d : Disk) (ip : Inode) : ptr d ip c = 0 := by
      rw [Nat.zero_add] at hi
      have hnot : ¬ (Slot.second i).Ok := hi
      exact ptr_under_zero (ptr_not_ok d ip hnot) hc
    refine ⟨h'.inv, h'.step, fun c hc hi => ?_, fun c hc => h'.rest c fun hm => hc ?_⟩
    · rcases hc with hc | ⟨i, hc⟩
      · exact h'.same c (.inl hc) hi
      · by_cases hlt : i < 0 + NADDR_PER_BLOCK
        · exact h'.same c (.inr ⟨i, hlt, hc⟩) hi
        · rw [FsState.ptrs, FsState.ptrs, hbig c i hlt hc, hbig c i hlt hc]
    · rcases hm with hm | ⟨i, -, hm⟩
      · exact .inl hm
      · exact .inr ⟨i, hm⟩

theorem cloneDouble_spec (hK : ∀ c ∈ under .double, c ∉ K) :
    wp OutOfBlocks (cloneDouble B A) s₁ fun _ s' => Cloning O M A B (K ∪ under .double) s s' := by
  obtain ⟨-, hB⟩ := h.lender hl hne
  unfold cloneDouble
  rw [wp_bind]
  apply getPtr_spec .double trivial rfl
  by_cases h0 : s₁.ptrs B .double = 0
  · rw [if_neg (not_not.2 h0)]
    exact h.skip (hB ▸ h0) hK
  · rw [if_pos h0]
    have hok : Slot.double.Ok := trivial
    have hroot (p : Slot) (e : Slot.double.parent = some p) : s₁.ptrs A p ≠ 0 := by cases e
    apply (h.inv.link hok (h.rest _ (hK _ (Slot.mem_path _))) hroot).bind
    intro b s₂ hs
    obtain ⟨h₂, hstep, hb, hz, hup, -⟩ := hs
    rw [wp_bind, wp_setPtr, wp_bind, wp_bstore]
    generalize hs₃ : s₂.setPtr A (.addr (NDIRECT + 1)) b = s₃
    have he : s₂.setPtr A (Slot.double.loc (s₁.ptrs A)) b = s₃ := hs₃
    rw [he] at h₂ hstep hz hup
    rw [update_eq_self_iff.2 hz.symm]
    have h₃ : Cloning O M A B (insert .double K) s s₃ := by
      refine ⟨h₂, h.step.trans hstep, fun k hk hi => ?_, fun k hk => ?_⟩
      · rcases hk with rfl | hk
        · cases hi
        · have hne' : k ≠ .double := fun e => hK k (e ▸ Slot.mem_path _) hk
          rw [hup, update_of_ne hne', h.same k hk hi]
      · obtain ⟨hne', hk⟩ := not_or.1 hk
        rw [hup, update_of_ne hne', h.rest k hk]
    have hself : s₃.ptrs A .double = b := by rw [hup, update_self]
    have hK' (i : Nat) (c : Slot) (hc : c ∈ under (.second i)) : c ∉ insert .double K := by
      rintro (rfl | hk)
      · simp [mem_under, Slot.path] at hc
      · refine hK c ?_ hk
        rw [mem_under] at hc ⊢
        cases c <;> simp [Slot.path] at hc ⊢
    rw [congrFun hB .double] at h0 ⊢
    rw [← hself] at hb ⊢
    apply (cloneSeconds_spec h₃ hl hne h0 hb hK').bind
    intro _ s₄ h₄
    rw [wp_logWrite]
    have hlog := h₄.inv.shed.shrunk.logged (s₃.ptrs A .double :: s₄.logged)
    have hs := h₄.step
    have h₅ : Cloning O M A B (insert .double K ∪ { c | ∃ i, c ∈ under (.second i) }) s
        { s₄ with logged := s₃.ptrs A .double :: s₄.logged } :=
      ⟨hlog.shed.inv, ⟨hs.blocks, hs.others, hs.inode, hs.valid, hs.iref⟩, h₄.same, h₄.rest⟩
    refine h₅.congr fun c => ?_
    rw [Set.mem_union, Set.mem_insert_iff, Set.mem_union, Set.mem_ofPred_eq, mem_under]
    cases c <;> simp [mem_under, Slot.path]

end

theorem cloneBlocks_spec (h : FileInv O M A 0 s) (hl : Lender O M B s) (hne : B ≠ A)
    (hempty : ∀ k, s.ptrs A k = 0) :
    wp OutOfBlocks (do
      loop 0 NDIRECT () fun i _ => cloneDirect B A i
      cloneSingle B A
      cloneDouble B A) s fun _ s' => FileInv O M A 0 s' ∧ Step A (Free O) s s' ∧
        ∀ k, k.index = false → s'.ptrs A k = s.ptrs B k := by
  refine wp.bind (wp_loop (fun n _ s' =>
    Cloning O M A B { c | ∃ i < n, c = .direct i } s s') ?_ ?_) ?_
  · refine ⟨h, .refl _ _ _, fun k hk => ?_, fun k _ => hempty k⟩
    obtain ⟨i, hi, -⟩ := hk
    exact (Nat.not_lt_zero i hi).elim
  · intro n _ s₁ _ hn h₁
    rw [Nat.zero_add] at hn
    have hK : Slot.direct n ∉ { c | ∃ i < n, c = .direct i } := by
      rintro ⟨i, hi, e⟩
      cases e
      exact Nat.lt_irrefl n hi
    apply (cloneDirect_spec h₁ hl hne hn hK).mono
    intro _ s₂ h₂
    refine h₂.congr fun c => ?_
    rw [Set.mem_insert_iff, Set.mem_ofPred_eq, Set.mem_ofPred_eq, Nat.exists_lt_succ_right, or_comm]
  · intro _ s₁ h₁
    rw [Nat.zero_add] at h₁
    have hK₁ (c : Slot) (hc : c ∈ under .single) : c ∉ { c | ∃ i < NDIRECT, c = .direct i } := by
      rintro ⟨i, -, rfl⟩
      simp [mem_under, Slot.path] at hc
    apply (cloneSingle_spec h₁ hl hne hK₁).bind
    intro _ s₂ h₂
    have hK₂ (c : Slot) (hc : c ∈ under .double) :
        c ∉ { c | ∃ i < NDIRECT, c = .direct i } ∪ under .single := by
      rintro (⟨i, -, rfl⟩ | hs)
      · simp [mem_under, Slot.path] at hc
      · rw [mem_under] at hc hs
        cases c <;> simp [Slot.path] at hc hs
    apply (cloneDouble_spec h₂ hl hne hK₂).mono
    intro _ s₃ h₃
    refine ⟨h₃.inv, h₃.step, fun k hi => ?_⟩
    cases k with
    | direct i =>
      by_cases hlt : i < NDIRECT
      · exact h₃.same _ (.inl (.inl ⟨i, hlt, rfl⟩)) rfl
      · have hnot : ¬ (Slot.direct i).Ok := hlt
        rw [FsState.ptrs, FsState.ptrs, ptr_not_ok _ _ hnot, ptr_not_ok _ _ hnot]
    | sentry j => exact h₃.same _ (.inl (.inr (by simp [mem_under, Slot.path]))) rfl
    | dentry i j => exact h₃.same _ (.inr (by simp [mem_under, Slot.path])) rfl
    | single => cases hi
    | double => cases hi
    | second i => cases hi

theorem FileInv.modified (h : FileInv O M A 0 s) (ip : Inode) (ha : ip.addrs = (s.inode A).addrs)
    (ht : ip.type = (s.inode A).type)
    (hs : s' = { s with inode := update s.inode A ip }) :
    Done O M A s s' ∧ s'.ptrs A = s.ptrs A ∧ s'.inode A = ip ∧ s'.blocks = s.blocks := by
  have hip : s'.inode A = ip := by
    rw [hs]
    exact update_self ..
  have hb : s'.blocks = s.blocks := by rw [hs]
  have hptrs : s'.ptrs A = s.ptrs A := by
    apply ptr_congr
    · rw [hip, ha]
    · intro k _ _
      rw [hb]
  refine ⟨⟨⟨?_, ?_, hptrs ▸ h.once, hptrs ▸ h.apart, h.sub⟩, ⟨fun x _ => ?_, fun i _ _ => ?_,
    fun i hne => ?_, fun i _ => ?_⟩, ?_, hip ▸ ht⟩, hptrs, hip, hb⟩
  · rw [hs]
    exact h.valid
  · rw [hptrs]
    refine h.acct.congr (fun x _ => ?_) ?_
    · rw [hb]
    · rw [hs]
  · rw [hb]
  · rw [hb]
  · rw [hs]
    exact update_of_ne hne ..
  · rw [hs]
  · rw [hs]

theorem iclone_spec (h : FileInv O M A 0 s) (hl : Lender O M B s) (hne : B ≠ A)
    (hA : A < sb.ninodes) (hempty : ∀ k, s.ptrs A k = 0) :
    wp OutOfBlocks (iclone B A) s fun r s' => Stored O M A s s' ∧ (r = -1 ∧ s' = s ∨ r = 0 ∧
      ((s.inode B).type = T_FILE ∧ (s.inode A).type = T_FILE) ∧
      (s'.inode A).size = (s.inode B).size ∧ (s'.inode A).mode = (s.inode B).mode ∧
      ∀ k, k.index = false → s'.data A k = s.data B k) := by
  unfold iclone
  rw [wp_bind, wp_get]
  by_cases ht : (s.inode B).type ≠ T_FILE ∨ (s.inode A).type ≠ T_FILE
  · rw [if_pos ht]
    exact ⟨.of_unchanged h (.refl _ _ _) hA rfl, .inl ⟨rfl, rfl⟩⟩
  · rw [if_neg ht]
    unfold modifyInode
    rw [wp_bind, wp_modify]
    generalize hs₁ : FsState.mk _ _ _ _ _ _ _ = s₁
    obtain ⟨hdone, hptrs, hip, hblocks⟩ := h.modified { s.inode A with
      mode := (s.inode B).mode, size := (s.inode B).size } rfl rfl hs₁.symm
    have hBp : s₁.ptrs B = s.ptrs B := hl.ptrs hdone.frame h.sub hne
    have hclone := cloneBlocks_spec hdone.inv (hl.frame hdone.frame h.sub hne) hne
      fun k => hptrs ▸ hempty k
    simp only [wp_bind] at hclone ⊢
    apply hclone.mono
    intro _ s₂ h₂
    apply h₂.mono
    intro _ s₃ h₃
    apply h₃.mono
    intro _ s₄ hs
    obtain ⟨h₄, hstep, hsame⟩ := hs
    rw [wp_iupdate, wp_pure]
    obtain ⟨-, hptrs₅, hdata₅⟩ := h₄.saved hA (s₄.inode A) rfl
    refine ⟨.of_saved (hdone.trans (h₄.done hstep)) hA _ rfl rfl,
      .inr ⟨rfl, ?_, ?_, ?_, fun k hk => ?_⟩⟩
    · rw [not_or, not_not, not_not] at ht
      exact ht
    · rw [s₄.saved_inode, hstep.inode.size, hip]
    · rw [s₄.saved_inode, hstep.inode.mode, hip]
    · rw [hdata₅ k hk]
      unfold FsState.data
      rw [hsame k hk, hBp]
      rw [hstep.blockData h.data_other fun h0 => (hl.leaf k hk h0).1, hblocks]

end OopsOS
