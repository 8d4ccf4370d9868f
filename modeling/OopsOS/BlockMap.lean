import OopsOS.FileInv

namespace OopsOS
set_option autoImplicit true
open Function

variable {s s' s'' : FsState} {O P : Multiset Nat} {M : Set Nat} {A b bn y : Nat} {k k' p : Slot}
  {K K' : Set Slot}

/-- The file has grown by the slots in `K`; what was mapped still is. -/
structure Grown (O : Multiset Nat) (M : Set Nat) (A : Nat) (P : Multiset Nat) (K : Set Slot)
    (s s' : FsState) : Prop where
  inv : FileInv O M A P s'
  step : Step A (Free O) s s'
  data : SameData A s s'
  filled : ∀ k ∈ K, s'.ptrs A k ≠ 0
  kept : ∀ k, s.ptrs A k ≠ 0 → s'.ptrs A k = s.ptrs A k
  same : ∀ k, k ∉ K → s'.ptrs A k = s.ptrs A k
  fresh : ∀ k, s.ptrs A k = 0 → s'.ptrs A k ≠ 0 → Fresh O A s (s'.ptrs A k)
  logged : ∀ x ∈ s'.logged, x ∈ s.logged ∨
    ∃ k ∈ K, s.ptrs A k = 0 ∧ s'.ptrs A k ≠ 0 ∧ NewLog (s'.ptrs A) k x

theorem NewLog.congr (h : NewLog v k x) (hk : w k = v k)
    (hp : ∀ p, k.parent = some p → w p = v p) : NewLog w k x := by
  rcases h with rfl | rfl | ⟨p, hpar, rfl⟩
  · exact .inl hk.symm
  · exact .inr (.inl (by rw [hk]))
  · exact .inr (.inr ⟨p, hpar, (hp p hpar).symm⟩)

theorem Grown.trans (h : Grown O M A P K s s') (h' : Grown O M A P K' s' s'') :
    Grown O M A P (K ∪ K') s s'' := by
  have hempty (k : Slot) (hk : s'.ptrs A k = 0) : s.ptrs A k = 0 := by
    by_contra h0
    exact h0 (h.kept k h0 ▸ hk)
  refine ⟨h'.inv, h.step.trans h'.step, h.data.trans h'.data, ?_, ?_, ?_, fun k h0 hne => ?_,
    fun x hx => ?_⟩
  · rintro k (hk | hk)
    · have h1 := h.filled k hk
      rw [h'.kept k h1]
      exact h1
    · exact h'.filled k hk
  · intro k hk
    have h1 := h.kept k hk
    rw [h'.kept k (h1 ▸ hk), h1]
  · intro k hk
    obtain ⟨h1, h2⟩ := not_or.1 hk
    rw [h'.same k h2, h.same k h1]
  · by_cases h1 : s'.ptrs A k = 0
    · obtain ⟨hfree, hown⟩ := h'.fresh k h1 hne
      refine ⟨hfree, fun k' e => ?_⟩
      have h2 : s.ptrs A k' ≠ 0 := e ▸ hne
      exact hown k' (by rw [h.kept k' h2, e])
    · rw [h'.kept k h1]
      exact h.fresh k h0 h1
  · rcases h'.logged x hx with hx | ⟨k, hk, h0, hne, hnew⟩
    · rcases h.logged x hx with hx | ⟨k, hk, h0, hne, hnew⟩
      · exact .inl hx
      · have he := h'.kept k hne
        refine .inr ⟨k, .inl hk, h0, he ▸ hne, hnew.congr he fun p hp => ?_⟩
        exact h'.kept p (ptr_parent_ne_zero hp hne)
    · exact .inr ⟨k, .inr hk, hempty k h0, hne, hnew⟩

theorem Grown.congr (h : Grown O M A P K s s') (he : ∀ k, k ∈ K ↔ k ∈ K') :
    Grown O M A P K' s s' := by
  have hK : K = K' := Set.ext he
  exact hK ▸ h

theorem double_range (hbn : bn < MAXFILE) : bn - NDIRECT - NINDIRECT < NDINDIRECT := by
  change bn < 65803 at hbn
  change bn - 11 - 256 < 65536
  omega

theorem Grown.second (h : Grown O M A P {.double} s s') (p : Slot)
    (e : (Slot.second i).parent = some p) : s'.ptrs A p ≠ 0 := by
  cases e
  exact h.filled _ rfl

theorem FileInv.relink (h : FileInv O M A (nonzero y + P) s) (hk : k.Ok) (hi : k.index = false)
    (hp : ∀ p, k.parent = some p → s.ptrs A p ≠ 0) :
    wp OutOfBlocks (freePtr (s.ptrs A k)) (s.setPtr A (k.loc (s.ptrs A)) y) fun _ s' =>
      FileInv O M A P s' ∧ Step A (Free O) s s' ∧ s'.ptrs A = update (s.ptrs A) k y ∧
        s'.data A k = blockData s.blocks y ∧
        (∀ k', k'.index = false → k' ≠ k → s'.data A k' = s.data A k') ∧
        ∀ x ∈ s'.logged, x ∈ s.logged ∨ (∃ p, k.parent = some p ∧ x = s.ptrs A p) ∨
          s.ptrs A k ≠ 0 ∧ s.ref (s.ptrs A k) = 1 ∧ x = BBLOCK (s.ptrs A k) := by
  have hlog₁ (x : Nat) (hx : x ∈ (s.setPtr A (k.loc (s.ptrs A)) y).logged) :=
    s.setPtr_logged A k (s.ptrs A) y x hx
  obtain ⟨h₁, hup, hstep, hdata⟩ := h.setPtr hk hp (fun e => by rw [hi] at e; cases e)
  have hy (hy0 : y ≠ 0) : DataBlock y ∧ y ∈ nonzero y + P := by
    have hm : y ∈ nonzero y + P := Multiset.mem_add.2 (.inl (mem_nonzero.2 ⟨rfl, hy0⟩))
    exact ⟨h.acct.mem y (Multiset.mem_add.2 (.inr (Multiset.mem_add.2 (.inl hm)))), hm⟩
  have hself : (s.setPtr A (k.loc (s.ptrs A)) y).data A k = blockData s.blocks y := by
    unfold FsState.data blockData
    rw [hup, update_self]
    by_cases hy0 : y = 0
    · rw [if_pos hy0, if_pos hy0]
    · rw [if_neg hy0, if_neg hy0]
      apply (s.setPtr_step A k (s.ptrs A) y).blocks y (hy hy0).1.not_isMap
      rintro ⟨p, hpar, e⟩
      exact h.index_not_held (Slot.parent_index hpar) (hp p hpar) (e ▸ (hy hy0).2)
  unfold freePtr
  by_cases h0 : s.ptrs A k = 0
  · rw [if_neg (not_not.2 h0), wp_pure]
    rw [h0, nonzero_zero, zero_add] at h₁
    exact ⟨h₁, hstep, hup, hself, hdata, fun x hx => (hlog₁ x hx).imp_right .inl⟩
  · rw [if_pos h0]
    rw [nonzero_of_ne h0, Multiset.singleton_add] at h₁
    apply h₁.bfree.mono
    rintro _ s' ⟨h', hkeep, hptrs, hsame, hlog⟩
    refine ⟨h', hstep.trans (hkeep.step.mono (Set.empty_subset _)), hptrs.trans hup,
      (hsame k hi).trans hself, fun k' hi' hne => (hsame k' hi').trans (hdata k' hi' hne),
      fun x hx => ?_⟩
    rcases hlog x hx with hx | ⟨href, rfl⟩
    · exact (hlog₁ x hx).imp_right .inl
    · rw [s.setPtr_ref] at href
      exact .inr (.inr ⟨h0, href, rfl⟩)

theorem Step.inode_eq (h : Step A X s s')
    (hroot : ∀ k, k.Ok → k.parent = none → s'.ptrs A k = s.ptrs A k) :
    s'.inode A = s.inode A := by
  have haddr (i : Fin 13) : (s'.inode A).addr i = (s.inode A).addr i := by
    obtain ⟨k, hk, hp, hpos⟩ : ∃ k : Slot, k.Ok ∧ k.parent = none ∧ k.pos = i := by
      by_cases h1 : (i : Nat) < 11
      · exact ⟨.direct i, h1, rfl, rfl⟩
      · by_cases h2 : (i : Nat) = 11
        · exact ⟨.single, trivial, rfl, h2.symm⟩
        · exact ⟨.double, trivial, rfl, by change 12 = (i : Nat); omega⟩
    have he := hroot k hk hp
    rw [FsState.ptrs, FsState.ptrs, ptr_root _ _ hk hp, ptr_root _ _ hk hp, hpos] at he
    exact he
  have haddrs : (s'.inode A).addrs = (s.inode A).addrs := by
    funext i
    have he := haddr i
    rw [Inode.addr, Inode.addr, dif_pos i.2, dif_pos i.2] at he
    exact UInt32.toNat.inj he
  have hm := h.inode
  unfold SameMeta at hm
  rw [← haddrs] at hm
  exact hm

theorem Grown.inode_eq (h : Grown O M A P K s s')
    (hroot : ∀ k ∈ K, k.parent = none → s.ptrs A k ≠ 0) : s'.inode A = s.inode A := by
  apply h.step.inode_eq
  intro k _ hp
  by_cases hk : k ∈ K
  · exact h.kept k (hroot k hk hp)
  · exact h.same k hk

section
variable (h : FileInv O M A P s)
include h

theorem Grown.refl : Grown O M A P ∅ s s :=
  ⟨h, .refl _ _ _, .refl _ _, fun _ h => h.elim, fun _ _ => rfl, fun _ _ => rfl,
    fun _ h0 hne => (hne h0).elim, fun _ hx => .inl hx⟩

theorem ensure_grown (hk : k.Ok) (hp : ∀ p, k.parent = some p → s.ptrs A p ≠ 0) :
    wp OutOfBlocks (ensure A (k.loc (s.ptrs A))) s fun b s' =>
      Grown O M A P {k} s s' ∧ b = s'.ptrs A k ∧ (s.ptrs A k = 0 → s'.ref b = 1) := by
  apply (h.ensure hk hp).mono
  rintro b s' ⟨hinv, hstep, hb, hup, hold, hdata, hfresh, hlog⟩
  have hself : s'.ptrs A k = b := by rw [hup, update_self]
  refine ⟨⟨hinv, hstep, hdata, ?_, ?_, ?_, ?_, ?_⟩, hself.symm, fun h0 => (hfresh h0).2⟩
  · rintro _ rfl
    rw [hself]
    exact hb
  · intro k' hk'
    by_cases he : k' = k
    · subst he
      rw [hself, hold hk']
    · rw [hup, update_of_ne he]
  · intro k' hne
    rw [hup, update_of_ne hne]
  · intro k' h0 hne
    by_cases he : k' = k
    · subst he
      rw [hself]
      exact (hfresh h0).1
    · rw [hup, update_of_ne he] at hne
      exact (hne h0).elim
  · intro x hx
    refine (hlog x hx).imp_right fun ⟨h0, hnew⟩ => ⟨k, rfl, h0, ?_, hnew⟩
    rw [hself]
    exact hb

theorem bmapLoc_spec (hbn : bn < MAXFILE) : wp OutOfBlocks (bmapLoc A bn) s fun l s' =>
      Grown O M A P { k | k ∈ (slotOf bn).path ∧ k ≠ slotOf bn } s s' ∧
        l = (slotOf bn).loc (s'.ptrs A) := by
  have hok := slotOf_ok hbn
  unfold bmapLoc
  unfold slotOf at hok ⊢
  by_cases h1 : bn < NDIRECT
  · simp only [if_pos h1, wp_pure]
    refine ⟨(Grown.refl h).congr fun k => ?_, rfl⟩
    simp [Slot.path]
  · by_cases h2 : bn - NDIRECT < NINDIRECT
    · simp only [if_neg h1, if_pos h2]
      have hs : Slot.single.Ok := trivial
      apply (ensure_grown h hs (fun _ e => by cases e)).bind
      rintro x s' ⟨hg, rfl, -⟩
      refine ⟨hg.congr fun k => ?_, rfl⟩
      simp only [Slot.path, List.mem_cons, List.not_mem_nil, or_false, Set.mem_singleton_iff,
        Set.mem_ofPred_eq]
      grind
    · have h3 := double_range hbn
      simp only [if_neg h1, if_neg h2, if_pos h3] at hok ⊢
      generalize bn - NDIRECT - NINDIRECT = n at hok ⊢
      have hd : Slot.double.Ok := trivial
      apply (ensure_grown h hd (fun _ e => by cases e)).bind
      rintro x s₁ ⟨hg₁, rfl, -⟩
      have hi : (Slot.second (n / NADDR_PER_BLOCK)).Ok := hok.1
      apply (ensure_grown hg₁.inv hi hg₁.second).bind
      rintro y s₂ ⟨hg₂, rfl, -⟩
      refine ⟨(hg₁.trans hg₂).congr fun k => ?_, rfl⟩
      simp only [Slot.path, List.mem_cons, List.not_mem_nil, or_false, Set.mem_singleton_iff,
        Set.mem_ofPred_eq, Set.mem_union]
      grind

theorem FileInv.store (hd : DataBlock b)
    (hne : ∀ k, k.index = true → s.ptrs A k ≠ 0 → s.ptrs A k ≠ b)
    (hb : ∀ x, x ≠ b → s'.blocks x = s.blocks x) (hr : s'.ref = s.ref)
    (hi : s'.inode A = s.inode A) (hv : s'.valid A = s.valid A) :
    FileInv O M A P s' ∧ s'.ptrs A = s.ptrs A := by
  have hptrs : s'.ptrs A = s.ptrs A :=
    ptr_congr (congrArg Inode.addrs hi) fun k hk h0 => hb _ (hne k hk h0)
  refine ⟨⟨hv ▸ h.valid, ?_, hptrs ▸ h.once, hptrs ▸ h.apart, h.sub⟩, hptrs⟩
  rw [hptrs]
  exact h.acct.congr (fun x hx => hb x fun e => hd.not_isMap (e ▸ hx)) hr

theorem bmapEnsure_spec (hbn : bn < MAXFILE) : wp OutOfBlocks (bmapEnsure A bn) s fun r s' =>
      Grown O M A P { k | k ∈ (slotOf bn).path ∧ k ≠ slotOf bn } s s' ∧
        (r = 1 ∨ r = 0 ∧ s'.inode A = s.inode A) := by
  have hok := slotOf_ok hbn
  have hroot {P : Slot → Prop} (k : Slot) (e : none = some k) : P k := by cases e
  unfold bmapEnsure
  unfold slotOf at hok ⊢
  by_cases h1 : bn < NDIRECT
  · simp only [if_pos h1, wp_pure]
    refine ⟨(Grown.refl h).congr fun k => ?_, .inr ⟨trivial, trivial⟩⟩
    simp [Slot.path]
  · by_cases h2 : bn - NDIRECT < NINDIRECT
    · simp only [if_neg h1, if_pos h2]
      have hs : Slot.single.Ok := trivial
      rw [wp_bind]
      refine (wp_getPtr hs hroot).2 ?_
      apply (ensure_grown h hs hroot).bind
      rintro x s' ⟨hg, -⟩
      refine ⟨hg.congr fun k => ?_, ?_⟩
      · simp only [Slot.path, List.mem_cons, List.not_mem_nil, or_false, Set.mem_singleton_iff,
          Set.mem_ofPred_eq]
        grind
      · by_cases h0 : s.ptrs A .single = 0
        · exact .inl (if_pos h0)
        · refine .inr ⟨if_neg h0, hg.inode_eq ?_⟩
          rintro _ rfl _
          exact h0
    · have h3 := double_range hbn
      simp only [if_neg h1, if_neg h2, if_pos h3] at hok ⊢
      generalize bn - NDIRECT - NINDIRECT = n at hok ⊢
      have hd : Slot.double.Ok := trivial
      rw [wp_bind]
      refine (wp_getPtr hd hroot).2 ?_
      apply (ensure_grown h hd hroot).bind
      rintro x s₁ ⟨hg₁, rfl, -⟩
      have hi : (Slot.second (n / NADDR_PER_BLOCK)).Ok := hok.1
      apply (ensure_grown hg₁.inv hi hg₁.second).bind
      rintro y s₂ ⟨hg₂, -⟩
      have hg := hg₁.trans hg₂
      refine ⟨hg.congr fun k => ?_, ?_⟩
      · simp only [Slot.path, List.mem_cons, List.not_mem_nil, or_false, Set.mem_singleton_iff,
          Set.mem_ofPred_eq, Set.mem_union]
        grind
      · by_cases h0 : s.ptrs A .double = 0
        · exact .inl (if_pos h0)
        · refine .inr ⟨if_neg h0, hg.inode_eq ?_⟩
          rintro _ (rfl | rfl) e
          · exact h0
          · cases e

end

theorem wp_bmapSetExisting {Q : Int → FsState → Prop} (hbn : bn < MAXFILE)
    (hp : ∀ p, (slotOf bn).parent = some p → s.ptrs A p ≠ 0)
    (h : Q (if bn < NDIRECT then 1 else 0) (s.setPtr A ((slotOf bn).loc (s.ptrs A)) y)) :
    wp E (bmapSetExisting A bn y) s Q := by
  have hok := slotOf_ok hbn
  have hroot {P : Slot → Prop} (k : Slot) (e : none = some k) : P k := by cases e
  unfold bmapSetExisting
  unfold slotOf at hok h hp
  by_cases h1 : bn < NDIRECT
  · simp only [if_pos h1] at h ⊢
    exact h
  · by_cases h2 : bn - NDIRECT < NINDIRECT
    · simp only [if_neg h1, if_pos h2] at h hp ⊢
      have hs : Slot.single.Ok := trivial
      rw [wp_bind]
      refine (wp_getPtr hs hroot).2 ?_
      rw [if_neg (hp _ rfl)]
      exact h
    · have h3 := double_range hbn
      simp only [if_neg h1, if_neg h2, if_pos h3] at hok h hp ⊢
      generalize bn - NDIRECT - NINDIRECT = n at hok h hp ⊢
      have hd : Slot.double.Ok := trivial
      have hi : (Slot.second (n / NADDR_PER_BLOCK)).Ok := hok.1
      have hl : s.ptrs A (.second (n / NADDR_PER_BLOCK)) ≠ 0 := hp _ rfl
      have h0 : s.ptrs A .double ≠ 0 := ptr_parent_ne_zero rfl hl
      rw [wp_bind]
      refine (wp_getPtr hd hroot).2 ?_
      rw [if_neg h0, wp_bind]
      refine (wp_getPtr hi fun p e => ?_).2 ?_
      · cases e
        exact h0
      · rw [if_neg hl]
        exact h

/-- Slots in `K` got new blocks where there was none or a shared one, and only that is logged. -/
structure Filled (O : Multiset Nat) (A : Nat) (K : Set Slot) (s s' : FsState) : Prop where
  kept : ∀ k, k.index = true → s.ptrs A k ≠ 0 → s'.ptrs A k = s.ptrs A k
  same : ∀ k, k ∉ K → s'.ptrs A k = s.ptrs A k
  remain : ∀ k, s.ptrs A k ≠ 0 → s.ptrs A k ∈ O ∨ ∃ k', s'.ptrs A k' = s.ptrs A k
  fresh : ∀ k, s'.ptrs A k ≠ s.ptrs A k →
    Fresh O A s (s'.ptrs A k) ∧ (s.ptrs A k = 0 ∨ 1 < s.ref (s.ptrs A k))
  logged : ∀ x ∈ s'.logged, x ∈ s.logged ∨ x = IBLOCK A ∨ ∃ k ∈ K, s'.ptrs A k ≠ 0 ∧
    (k.index = false ∧ x = s'.ptrs A k ∨ s'.ptrs A k ≠ s.ptrs A k ∧ NewLog (s'.ptrs A) k x)

theorem Filled.refl (O : Multiset Nat) (A : Nat) (K : Set Slot) (s : FsState) :
    Filled O A K s s :=
  ⟨fun _ _ _ => rfl, fun _ _ => rfl, fun k _ => .inr ⟨k, rfl⟩, fun _ hne => (hne rfl).elim,
    fun _ hx => .inl hx⟩

theorem Filled.mono (h : Filled O A K s s') (hK : K ⊆ K') : Filled O A K' s s' := by
  refine ⟨h.kept, fun k hk => h.same k fun hk' => hk (hK hk'), h.remain, h.fresh, fun x hx => ?_⟩
  refine (h.logged x hx).imp_right fun hx => hx.imp_right fun hx => ?_
  obtain ⟨k, hk, hnew⟩ := hx
  exact ⟨k, hK hk, hnew⟩

theorem Grown.toFilled (h : Grown O M A P K s s') : Filled O A K s s' := by
  have hzero (k : Slot) (hne : s'.ptrs A k ≠ s.ptrs A k) : s.ptrs A k = 0 :=
    by_contra fun h0 => hne (h.kept k h0)
  refine ⟨fun k _ hk => h.kept k hk, h.same, fun k hk => .inr ⟨k, h.kept k hk⟩, fun k hne => ?_,
    fun x hx => ?_⟩
  · have h0 := hzero k hne
    exact ⟨h.fresh k h0 (h0 ▸ hne), .inl h0⟩
  · refine (h.logged x hx).imp_right fun ⟨k, hk, h0, hne, hnew⟩ => .inr ?_
    exact ⟨k, hk, hne, .inr ⟨h0.symm ▸ hne, hnew⟩⟩

theorem Filled.ref_le (h : Filled O A K s s') (hs : FileInv O M A 0 s) (hs' : FileInv O M A 0 s')
    (hk : s.ptrs A k ≠ 0) : s'.ref (s.ptrs A k) ≤ s.ref (s.ptrs A k) := by
  rw [hs.acct.ref_eq, hs'.acct.ref_eq, zero_add, zero_add, Multiset.count_add, Multiset.count_add]
  apply Nat.add_le_add_left
  apply count_values_le hk
  intro k' _ he
  by_contra hne
  rw [← he] at hne
  exact (h.fresh k' fun e => hne e.symm).1.own k he.symm

theorem Filled.trans (h : Filled O A K s s') (h' : Filled O A K' s' s'')
    (hs : FileInv O M A 0 s) (hs' : FileInv O M A 0 s')
    (hleaf : ∀ k ∈ K, k.index = false → k ∉ K') : Filled O A (K ∪ K') s s'' := by
  have hkeep (k : Slot) (hk : k ∈ K) (h0 : s'.ptrs A k ≠ 0) : s''.ptrs A k = s'.ptrs A k := by
    cases hi : k.index with
    | true => exact h'.kept k hi h0
    | false => exact h'.same k (hleaf k hk hi)
  have hold (k : Slot) (hne : s''.ptrs A k ≠ s'.ptrs A k) : s'.ptrs A k = s.ptrs A k := by
    by_contra hne'
    have hk : k ∈ K := by_contra fun hk => hne' (h.same k hk)
    exact hne (hkeep k hk (h.fresh k hne').1.free.1.ne_zero)
  refine ⟨fun k hi hk => ?_, fun k hk => ?_, fun k hk => ?_, fun k hne => ?_, fun x hx => ?_⟩
  · have he := h.kept k hi hk
    rw [h'.kept k hi (he ▸ hk), he]
  · obtain ⟨h1, h2⟩ := not_or.1 hk
    rw [h'.same k h2, h.same k h1]
  · rcases h.remain k hk with hO | ⟨k', he⟩
    · exact .inl hO
    · rw [← he] at hk ⊢
      exact h'.remain k' hk
  · by_cases he : s''.ptrs A k = s'.ptrs A k
    · rw [he] at hne ⊢
      exact h.fresh k hne
    · obtain ⟨⟨hfree, hown⟩, hshared⟩ := h'.fresh k he
      rw [hold k he] at hshared
      refine ⟨⟨hfree, fun k' e => ?_⟩, ?_⟩
      · have hk' : s.ptrs A k' ≠ 0 := e ▸ hfree.1.ne_zero
        rcases h.remain k' hk' with hO | ⟨j, hj⟩
        · exact hfree.2 (e ▸ hO)
        · exact hown j (hj.trans e)
      · by_cases h0 : s.ptrs A k = 0
        · exact .inl h0
        · exact .inr ((hshared.resolve_left h0).trans_le (h.ref_le hs hs' h0))
  · rcases h'.logged x hx with hx | hx | ⟨k, hk, h0, hor⟩
    · rcases h.logged x hx with hx | hx | ⟨k, hk, h0, hor⟩
      · exact .inl hx
      · exact .inr (.inl hx)
      · have he := hkeep k hk h0
        refine .inr (.inr ⟨k, .inl hk, he ▸ h0, ?_⟩)
        rw [he]
        refine hor.imp_right fun ⟨hne, hnew⟩ => ⟨hne, hnew.congr he fun p hp => ?_⟩
        exact h'.kept p (Slot.parent_index hp) (ptr_parent_ne_zero hp h0)
    · exact .inr (.inl hx)
    · refine .inr (.inr ⟨k, .inr hk, h0, hor.imp_right fun ⟨hne, hnew⟩ => ⟨?_, hnew⟩⟩)
      rw [← hold k hne]
      exact hne

theorem Filled.log (h : Filled O A K s s') (hptrs : s''.ptrs A = s'.ptrs A)
    (hl : ∀ x ∈ s''.logged, x ∈ s'.logged ∨ x = IBLOCK A ∨
      ∃ k ∈ K, s'.ptrs A k ≠ 0 ∧ k.index = false ∧ x = s'.ptrs A k) : Filled O A K s s'' := by
  refine ⟨hptrs ▸ h.kept, hptrs ▸ h.same, hptrs ▸ h.remain, hptrs ▸ h.fresh, fun x hx => ?_⟩
  rw [hptrs]
  rcases hl x hx with hx | hx | ⟨k, hk, h0, hleaf⟩
  · exact h.logged x hx
  · exact .inr (.inl hx)
  · exact .inr (.inr ⟨k, hk, h0, .inl hleaf⟩)

theorem FileInv.copied (h : FileInv O M A 0 s) (hi : k.index = false) (hk : s.ptrs A k ≠ 0)
    (hshared : 1 < s.ref (s.ptrs A k)) (hb : Fresh O A s b)
    (hup : s'.ptrs A = update (s.ptrs A) k b)
    (hlog : ∀ x ∈ s'.logged, x ∈ s.logged ∨ x = b ∨ x = BBLOCK b ∨
      ∃ p, k.parent = some p ∧ x = s.ptrs A p) : Filled O A {k} s s' := by
  have hother (k' : Slot) (hne : k' ≠ k) : s'.ptrs A k' = s.ptrs A k' := by
    rw [hup, update_of_ne hne]
  have hself : s'.ptrs A k = b := by rw [hup, update_self]
  refine ⟨fun k' hi' _ => hother k' fun e => ?_, hother, fun k' hk' => ?_, fun k' hne => ?_,
    fun x hx => ?_⟩
  · rw [e, hi] at hi'
    cases hi'
  · by_cases he : k' = k
    · subst he
      by_contra hnot
      obtain ⟨hO, hnone⟩ := not_or.1 hnot
      have hone := count_values_eq_one (mem_slots.2 (Slot.ok_of_ptr hk)) hk fun k'' _ e =>
        by_contra fun hne => hnone ⟨k'', (hother k'' hne).trans e⟩
      rw [h.acct.ref_eq, Multiset.count_add, zero_add, hone, Multiset.count_eq_zero.2 hO]
        at hshared
      omega
    · exact .inr ⟨k', hother k' he⟩
  · by_cases he : k' = k
    · rw [he, hself]
      exact ⟨hb, .inr hshared⟩
    · exact (hne (hother k' he)).elim
  · refine (hlog x hx).imp_right fun hx => .inr ⟨k, rfl, hself ▸ hb.free.1.ne_zero, .inr ⟨?_, ?_⟩⟩
    · rw [hself]
      exact fun e => hb.own k e.symm
    · rcases hx with rfl | rfl | ⟨p, hp, rfl⟩
      · exact .inl hself.symm
      · exact .inr (.inl (by rw [hself]))
      · have hne : p ≠ k := fun e => Slot.not_mem_path_parent hp (e ▸ p.mem_path)
        exact .inr (.inr ⟨p, hp, (hother p hne).symm⟩)

theorem copyOnWrite_spec (h : FileInv O M A 0 s) (hi : k.index = false) (hk : s.ptrs A k ≠ 0) :
    wp OutOfBlocks (copyOnWrite A (k.loc (s.ptrs A)) (s.ptrs A k)) s fun b s' =>
      FileInv O M A 0 s' ∧ Step A (Free O) s s' ∧ SameData A s s' ∧ b ≠ 0 ∧
        s'.ptrs A = update (s.ptrs A) k b ∧
        (O + (0 + values slots (s'.ptrs A))).count b = 1 ∧
        (s' = s ∨ 1 < s.ref (s.ptrs A k) ∧ Filled O A {k} s s') := by
  have hd := h.data_ptr hk
  have hok := Slot.ok_of_ptr hk
  have hpar (p : Slot) (hp : k.parent = some p) : s.ptrs A p ≠ 0 := ptr_parent_ne_zero hp hk
  have href := h.acct.ref_eq (s.ptrs A k)
  simp only [copyOnWrite, brefGet, if_neg (Nat.not_le.2 hd.2), wp_bind, wp_get, wp_pure]
  by_cases h1 : s.ref (s.ptrs A k) > 1
  · rw [if_pos h1]
    apply h.balloc.bind
    rintro b s₁ ⟨h₁, hkeep, hfree, hnew, -, hptrs, hsame, hlog⟩
    have hb0 : b ≠ 0 := hfree.1.ne_zero
    simp only [wp_bind, wp_bread, wp_bstore, wp_logWrite, wp_setPtr]
    generalize hs₂ : FsState.mk _ _ _ _ _ _ _ = s₂
    have hb₂ (x : Nat) (hx : x ≠ b) : s₂.blocks x = s₁.blocks x := by
      rw [← hs₂]
      exact update_of_ne hx ..
    have hne₁ (k' : Slot) (hk' : s₁.ptrs A k' ≠ 0) : s₁.ptrs A k' ≠ b := by
      rw [hptrs] at hk' ⊢
      exact fun e => hnew (e ▸ h.mem_own hk')
    obtain ⟨h₂, hptrs₂⟩ := h₁.store hfree.1 (fun k' _ => hne₁ k') hb₂
      (by rw [← hs₂]) (by rw [← hs₂]) (by rw [← hs₂])
    have hheld : b ::ₘ 0 = nonzero b + 0 := by rw [nonzero_of_ne hb0, Multiset.singleton_add]
    rw [hptrs] at hptrs₂
    have hrel := (h₂.perm hheld).relink hok hi (hptrs₂ ▸ hpar)
    rw [hptrs₂, freePtr, if_pos hk] at hrel
    apply hrel.mono
    rintro _ s₃ ⟨h₃, hstep, hup, hself, hdata, hlog₃⟩
    have hcopy : s₂.blocks b = s.blocks (s.ptrs A k) := by
      have hne : s.ptrs A k ≠ b := fun e => hnew (e ▸ h.mem_own hk)
      rw [← hkeep.data hd hne, ← hs₂]
      exact update_self ..
    have hdata₂ (k' : Slot) : s₂.data A k' = s₁.data A k' :=
      FsState.data_congr (congrFun (hptrs₂.trans hptrs.symm) k') fun h0 => hb₂ _ (hne₁ k' h0)
    refine ⟨h₃, Step.trans ⟨fun x hm hx => ?_, fun i _ => ?_, ?_, ?_, ?_⟩ hstep, fun k' hi' => ?_,
      hb0, hup, ?_, .inr ⟨h1, ?_⟩⟩
    · have hne : x ≠ b := fun e => hx (e ▸ hfree)
      rw [hb₂ x hne, hkeep.blocks x hm hne]
    · rw [← hs₂, ← hkeep.inode]
    · rw [← hs₂, ← hkeep.inode]
      rfl
    · rw [← hs₂, ← hkeep.valid]
    · rw [← hs₂, ← hkeep.iref]
    · by_cases he : k' = k
      · subst he
        rw [hself, FsState.data, blockData, blockData, if_neg hb0, if_neg hk, hcopy]
      · rw [hdata k' hi' he, hdata₂, hsame k' hi']
    · have hne : b ≠ s.ptrs A k := fun e => hnew (e ▸ h.mem_own hk)
      obtain ⟨hP, hv⟩ := not_or.1 fun hm => hnew (Multiset.mem_add.2 hm)
      rw [hup, values_update_change (mem_slots.2 hok) hk hb0, Multiset.count_add,
        Multiset.count_add, Multiset.count_erase_of_ne hne, Multiset.count_cons_self,
        Multiset.count_eq_zero.2 hP, Multiset.count_eq_zero.2 hv,
        Multiset.count_eq_zero.2 hfree.2]
    · have hshared : s₂.ref (s.ptrs A k) ≠ 1 := by
        have hle : (O + (0 + values slots (s.ptrs A))).count (s.ptrs A k) ≤
            (O + (b ::ₘ 0 + values slots (s₁.ptrs A))).count (s.ptrs A k) := by
          rw [hptrs, Multiset.cons_add, Multiset.add_cons]
          exact Multiset.count_le_count_cons ..
        have he : s₂.ref = s₁.ref := by rw [← hs₂]
        rw [he, h₁.acct.ref_eq]
        omega
      apply h.copied hi hk h1 ⟨hfree, fun k' e => hnew (e ▸ h.mem_own (e ▸ hb0))⟩ hup
      intro x hx
      rcases hlog₃ x hx with hx | hx | ⟨-, hr, -⟩
      · have he : s₂.logged = b :: s₁.logged := by rw [← hs₂]
        rw [he, hlog, List.mem_cons, List.mem_cons, List.mem_cons] at hx
        tauto
      · exact .inr (.inr (.inr hx))
      · exact (hshared hr).elim
  · rw [if_neg h1, wp_pure, update_eq_self]
    have hpos := Multiset.count_pos.2 (Multiset.mem_add.2 (.inr (h.mem_own hk) : _ ∈ O ∨ _))
    exact ⟨h, .refl _ _ _, .refl _ _, hk, rfl, by omega, .inl rfl⟩

theorem Slot.loc_congr (h : ∀ p, k.parent = some p → v p = w p) :
    k.loc v = k.loc w := by
  unfold loc
  cases hk : k.parent with
  | none => rfl
  | some p => exact congrArg (Loc.entry · k.pos) (h p hk)

def pathOf (bn : Nat) : Set Slot := fun k => k ∈ (slotOf bn).path

theorem eq_slotOf_of_mem (hk : k ∈ pathOf bn) (hi : k.index = false) : k = slotOf bn := by
  by_contra hne
  rw [Slot.index_of_mem_path hk hne] at hi
  cases hi

theorem bmap_path {f : Loc → Nat → FsM β} {Q : β → FsState → Prop} (h : FileInv O M A P s)
    (hbn : bn < MAXFILE) (hf : ∀ s', Grown O M A P (pathOf bn) s s' →
      (s.ptrs A (slotOf bn) = 0 → s'.ref (s'.ptrs A (slotOf bn)) = 1) →
      wp OutOfBlocks (f ((slotOf bn).loc (s'.ptrs A)) (s'.ptrs A (slotOf bn))) s' Q) :
    wp OutOfBlocks (do
      let p ← bmapLoc A bn
      let addr ← ensure A p
      f p addr) s Q := by
  apply (bmapLoc_spec h hbn).bind
  rintro _ s₁ ⟨hg₁, rfl⟩
  have hpar (p : Slot) (hp : (slotOf bn).parent = some p) : s₁.ptrs A p ≠ 0 := by
    apply hg₁.filled p
    rw [Slot.path_child hp]
    refine ⟨List.mem_cons_of_mem _ p.mem_path, ?_⟩
    rintro rfl
    exact Slot.not_mem_path_parent hp (Slot.mem_path _)
  apply (ensure_grown hg₁.inv (slotOf_ok hbn) hpar).bind
  rintro _ s₂ ⟨hg₂, rfl, hone⟩
  rw [hg₁.same _ fun hk => hk.2 rfl] at hone
  have hloc : (slotOf bn).loc (s₁.ptrs A) = (slotOf bn).loc (s₂.ptrs A) :=
    Slot.loc_congr fun p hp => (hg₂.kept p (hpar p hp)).symm
  rw [hloc]
  refine hf s₂ ((hg₁.trans hg₂).congr fun k => ?_) hone
  constructor
  · rintro (hk | rfl)
    · exact hk.1
    · exact Slot.mem_path _
  · intro hk
    by_cases he : k = slotOf bn
    · exact .inr he
    · exact .inl ⟨hk, he⟩

theorem bmap_read_spec (h : FileInv O M A P s) (hbn : bn < MAXFILE) :
    wp OutOfBlocks (bmap A bn false) s fun b s' =>
      Grown O M A P (pathOf bn) s s' ∧ b = s'.ptrs A (slotOf bn) := by
  apply bmap_path h hbn
  intro s' hg _
  exact ⟨hg, rfl⟩

theorem bmap_write_spec (h : FileInv O M A 0 s) (hbn : bn < MAXFILE) :
    wp OutOfBlocks (bmap A bn true) s fun b s' =>
      FileInv O M A 0 s' ∧ Step A (Free O) s s' ∧ SameData A s s' ∧ b ≠ 0 ∧
        b = s'.ptrs A (slotOf bn) ∧ (O + (0 + values slots (s'.ptrs A))).count b = 1 ∧
        Filled O A (pathOf bn) s s' := by
  apply bmap_path h hbn
  intro s₁ hg hone
  have h0 : s₁.ptrs A (slotOf bn) ≠ 0 := hg.filled _ (Slot.mem_path _)
  rw [if_pos ⟨rfl, h0⟩]
  apply (copyOnWrite_spec hg.inv (slotOf_index bn) h0).mono
  rintro b s₂ ⟨h₂, hstep, hdata, hb, hup, hcount, hcow⟩
  refine ⟨h₂, hg.step.trans hstep, hg.data.trans hdata, hb, ?_, hcount, ?_⟩
  · rw [hup, update_self]
  · rcases hcow with rfl | ⟨hshared, hfill⟩
    · exact hg.toFilled
    · have hold : s.ptrs A (slotOf bn) ≠ 0 := fun e => by
        have := hone e
        omega
      have hpath : Filled O A { k | k ∈ pathOf bn ∧ k ≠ slotOf bn } s s₁ := by
        have hf := hg.toFilled
        refine ⟨hf.kept, fun k hk => ?_, hf.remain, hf.fresh, fun x hx => ?_⟩
        · by_cases he : k = slotOf bn
          · rw [he, hg.kept _ hold]
          · exact hf.same k fun hin => hk ⟨hin, he⟩
        · refine (hg.logged x hx).imp_right fun ⟨k, hk, h0, hne, hnew⟩ => .inr ?_
          exact ⟨k, ⟨hk, fun e => hold (e ▸ h0)⟩, hne, .inr ⟨h0.symm ▸ hne, hnew⟩⟩
      refine (hpath.trans hfill h hg.inv fun k hk _ hin => hk.2 hin).mono ?_
      rintro k (hk | rfl)
      · exact hk.1
      · exact Slot.mem_path _

end OopsOS
