import OopsOS.TruncateTo

namespace OopsOS
set_option autoImplicit true
open Function

variable {s s₁ s' : FsState} {O : Multiset Nat} {M : Set Nat} {A bn : Nat} {k c : Slot}

/-- Block `bn` is unmapped and the others are what they were; unless `r`, so is the inode. -/
structure Punched (O : Multiset Nat) (M : Set Nat) (A bn : Nat) (r : Bool) (s s' : FsState) :
    Prop where
  shrunk : Shrunk O M A ∅ s s'
  gone : s'.ptrs A (slotOf bn) = 0
  kept : ∀ k, k.index = false → k ≠ slotOf bn → s'.ptrs A k = s.ptrs A k
  root : r = false → ∀ k, k.Ok → k.parent = none → s'.ptrs A k = s.ptrs A k

theorem Punched.inode (h : Punched O M A bn false s s') : s'.inode A = s.inode A :=
  h.shrunk.step.inode_eq (h.root rfl)

theorem Punched.of_update (h : Shrunk O M A ∅ s s')
    (hptrs : s'.ptrs A = update (s.ptrs A) (slotOf bn) 0)
    (hr : r = false → (slotOf bn).parent ≠ none) : Punched O M A bn r s s' := by
  refine ⟨h, ?_, fun k _ hk => ?_, fun e k _ hp => ?_⟩
  · rw [hptrs, update_self]
  · rw [hptrs, update_of_ne hk]
  · have hne : k ≠ slotOf bn := fun he => hr e (he ▸ hp)
    rw [hptrs, update_of_ne hne]

theorem Punched.prune (h : Punched O M A bn false s s₁) (r : Bool) (hi : k.index = true)
    (h0 : s₁.ptrs A k ≠ 0) (hr : r = false → k.parent ≠ none) {rest : FsM Bool}
    {Q : Bool → FsState → Prop} (hfull : (∃ c, c.parent = some k ∧ s₁.ptrs A c ≠ 0) → Q false s₁)
    (hempty : ∀ s', Punched O M A bn r s s' → (∀ c, c ≠ k → s'.ptrs A c = s₁.ptrs A c) →
      s'.ptrs A k = 0 → wp E rest s' Q) :
    wp E (do
      let bp ← bread (s₁.ptrs A k)
      if addrBlockEmpty bp NADDR_PER_BLOCK then do
        bfree (s₁.ptrs A k)
        setPtr A (k.loc (s₁.ptrs A)) 0
        rest
      else return false) s₁ Q := by
  rw [wp_bind, wp_bread]
  cases he : addrBlockEmpty (s₁.blocks (s₁.ptrs A k)) NADDR_PER_BLOCK with
  | false => exact hfull (exists_entry hi h0 he)
  | true =>
    rw [if_pos rfl]
    apply (h.shrunk.drop h0 fun c hc => addrBlockEmpty_ptrs hi h0 he hc).bind
    rintro _ s₂ ⟨h₂, hptrs⟩
    rw [wp_bind, wp_setPtr]
    have hsame (k' : Slot) (hne : k' ≠ k) :
        (s₂.setPtr A (k.loc (s₁.ptrs A)) 0).ptrs A k' = s₁.ptrs A k' := by
      rw [hptrs, update_of_ne hne]
    have hleaf (k' : Slot) (hi' : k'.index = false) : k' ≠ k := by
      rintro rfl
      rw [hi] at hi'
      cases hi'
    refine hempty _ ⟨h₂, ?_, fun k' hi' hk' => ?_, fun e k' hk' hp => ?_⟩ hsame
      (by rw [hptrs, update_self])
    · rw [hsame _ (hleaf _ (slotOf_index bn)), h.gone]
    · rw [hsame _ (hleaf k' hi'), h.kept k' hi' hk']
    · have hne : k' ≠ k := fun he => hr e (he ▸ hp)
      rw [hsame k' hne, h.root rfl k' hk' hp]

theorem Trims.of_changed {K : Set Slot}
    (hkept : ∀ k c, k ∉ K → c.parent = some k → s'.ptrs A c = s.ptrs A c)
    (hK : ∀ k ∈ K, s'.ptrs A k ≠ 0 → ∃ c, c.parent = some k ∧ s'.ptrs A c ≠ 0) : Trims A s s' := by
  intro k _ h0
  by_cases hk : k ∈ K
  · exact .inl (hK k hk h0)
  · exact .inr fun c hc => hkept k c hk hc

section
variable (h : Shed O M A ∅ s)
include h

theorem Punched.of_gone (h0 : s.ptrs A (slotOf bn) = 0) : Punched O M A bn false s s :=
  ⟨h.shrunk, h0, fun _ _ _ => rfl, fun _ _ _ _ => rfl⟩

theorem punchDirect_spec (h1 : bn < NDIRECT) :
    wp E (punchBlock A bn) s fun r s' => Punched O M A bn r s s' ∧ Trims A s s' := by
  have hslot : slotOf bn = .direct bn := if_pos h1
  have hok : (Slot.direct bn).Ok := h1
  unfold punchBlock
  simp only [if_pos h1]
  rw [wp_bind]
  apply getPtr_spec (.direct bn) hok rfl
  by_cases h0 : s.ptrs A (.direct bn) = 0
  · rw [if_neg (not_not.2 h0)]
    exact ⟨.of_gone h (hslot ▸ h0), .of_kept fun _ _ _ _ => rfl⟩
  · rw [if_pos h0]
    apply (h.shrunk.drop h0 fun c hc => by cases c <;> cases hc).bind
    rintro _ s₁ ⟨h₁, hptrs⟩
    rw [wp_bind, wp_setPtr]
    refine ⟨.of_update h₁ (hslot ▸ hptrs) (fun e => by cases e), .of_kept fun k c _ hc => ?_⟩
    have hne : c ≠ .direct bn := by
      rintro rfl
      cases hc
    exact (congrFun hptrs c).trans (update_of_ne hne _ _)

theorem punchEntry_spec (hslot : slotOf bn = c) (hok : c.Ok) (hc : c.parent = some k)
    (h0 : s.ptrs A k ≠ 0) :
    wp E (freeAt A (c.loc (s.ptrs A))) s fun _ s₁ => Punched O M A bn false s s₁ ∧
      ∀ c', c' ≠ c → s₁.ptrs A c' = s.ptrs A c' := by
  subst hslot
  apply (freeAt_spec h.shrunk hok (slotOf_index bn) fun p e => ?_).mono
  · rintro _ s₁ ⟨h₁, hptrs⟩
    exact ⟨.of_update h₁ hptrs (by simp [hc]), fun c' hne => by rw [hptrs, update_of_ne hne]⟩
  · rwa [← Option.some.inj (hc.symm.trans e)]

theorem punchSingle_spec (h1 : ¬ bn < NDIRECT) (h2 : bn < NDIRECT + NINDIRECT) :
    wp E (punchBlock A bn) s fun r s' => Punched O M A bn r s s' ∧ Trims A s s' := by
  have hslot : slotOf bn = .sentry (bn - NDIRECT) := by
    rw [slotOf, if_neg h1, if_pos (by omega)]
  have hok : (Slot.sentry (bn - NDIRECT)).Ok := by
    change bn - NDIRECT < NINDIRECT
    omega
  unfold punchBlock
  simp only [if_neg h1, if_pos h2]
  rw [wp_bind]
  apply getPtr_spec .single trivial rfl
  by_cases hx : s.ptrs A .single = 0
  · rw [if_pos hx]
    refine ⟨.of_gone h ?_, .of_kept fun _ _ _ _ => rfl⟩
    rw [hslot]
    exact ptr_under_zero hx (List.mem_cons_of_mem _ List.mem_cons_self)
  · rw [if_neg hx]
    apply (punchEntry_spec h hslot hok rfl hx).bind
    rintro _ s₁ ⟨hpun, hkept⟩
    have hchild (k c : Slot) (hne : k ∉ ({.single} : Set Slot)) (hc : c.parent = some k) :
        s₁.ptrs A c = s.ptrs A c := hkept c (by rintro rfl; cases hc; exact hne rfl)
    rw [← hkept .single (by simp)] at hx ⊢
    refine hpun.prune true rfl hx (by simp) (fun hfull => ⟨hpun, .of_changed hchild ?_⟩)
      fun s₂ h₂ hsame hzero => ⟨h₂, .of_changed (K := {.single}) (fun k c hne hc => ?_) ?_⟩
    · rintro _ rfl _
      exact hfull
    · exact (hsame c (by rintro rfl; cases hc)).trans (hchild k c hne hc)
    · rintro _ rfl h0
      exact absurd hzero h0

theorem punchDouble_spec (h1 : ¬ bn < NDIRECT)
    (h2 : ¬ bn < NDIRECT + NINDIRECT) (h3 : bn < NDIRECT + NINDIRECT + NDINDIRECT) :
    wp E (punchBlock A bn) s fun r s' => Punched O M A bn r s s' ∧ Trims A s s' := by
  have hslot : slotOf bn = .dentry ((bn - NDIRECT - NINDIRECT) / NADDR_PER_BLOCK)
      ((bn - NDIRECT - NINDIRECT) % NADDR_PER_BLOCK) := by
    rw [slotOf, if_neg h1, if_neg (by omega)]
  have hok : (slotOf bn).Ok := slotOf_ok h3
  unfold punchBlock
  simp only [if_neg h1, if_neg h2, if_pos h3]
  generalize (bn - NDIRECT - NINDIRECT) / NADDR_PER_BLOCK = i at hslot ⊢
  generalize (bn - NDIRECT - NINDIRECT) % NADDR_PER_BLOCK = j at hslot ⊢
  rw [hslot] at hok
  rw [wp_bind]
  apply getPtr_spec .double trivial rfl
  by_cases hy : s.ptrs A .double = 0
  · rw [if_pos hy]
    refine ⟨.of_gone h ?_, .of_kept fun _ _ _ _ => rfl⟩
    rw [hslot]
    exact ptr_under_zero hy (List.mem_cons_of_mem _ (List.mem_cons_of_mem _ List.mem_cons_self))
  · rw [if_neg hy, wp_bind]
    have hi : (Slot.second i).Ok := hok.1
    refine (wp_getPtr hi fun p e => ?_).2 ?_
    · cases e
      exact hy
    by_cases hl : s.ptrs A (.second i) = 0
    · rw [if_pos hl]
      refine ⟨.of_gone h ?_, .of_kept fun _ _ _ _ => rfl⟩
      rw [hslot]
      exact ptr_under_zero hl (List.mem_cons_of_mem _ List.mem_cons_self)
    · rw [if_neg hl]
      apply (punchEntry_spec h hslot hok rfl hl).bind
      rintro _ s₁ ⟨hpun, hkept⟩
      have hchild (k c : Slot) (hne : k ∉ ({.second i} : Set Slot)) (hc : c.parent = some k) :
          s₁.ptrs A c = s.ptrs A c := hkept c (by rintro rfl; cases hc; exact hne rfl)
      rw [← hkept (.second i) (by simp)] at hl ⊢
      rw [← hkept .double (by simp)] at hy ⊢
      refine hpun.prune false rfl hl (by simp [Slot.parent])
        (fun hfull => ⟨hpun, .of_changed hchild ?_⟩) fun s₂ h₂ hsame hzero => ?_
      · rintro _ rfl _
        exact hfull
      have hchild₂ (k c : Slot) (hne : k ∉ ({.second i, .double} : Set Slot))
          (hc : c.parent = some k) : s₂.ptrs A c = s.ptrs A c := by
        rw [hsame, hchild k c (fun hm => hne (.inl hm)) hc]
        rintro rfl
        cases hc
        exact hne (.inr rfl)
      rw [← hsame .double (by simp)] at hy ⊢
      refine h₂.prune true rfl hy (by simp) (fun hfull => ⟨h₂, .of_changed hchild₂ ?_⟩)
        fun s₃ h₃ hsame₃ hzero₃ =>
          ⟨h₃, .of_changed (K := {.second i, .double}) (fun k c hne hc => ?_) ?_⟩
      · rintro _ (rfl | rfl) h0
        · exact absurd hzero h0
        · exact hfull
      · exact (hsame₃ c (by rintro rfl; cases hc)).trans (hchild₂ k c hne hc)
      · rintro _ (rfl | rfl) h0
        · exact absurd ((hsame₃ _ (by simp)).trans hzero) h0
        · exact absurd hzero₃ h0

theorem punchBlock_spec : wp E (punchBlock A bn) s fun r s' => Punched O M A bn r s s' ∧
    Trims A s s' := by
  by_cases h1 : bn < NDIRECT
  · exact punchDirect_spec h h1
  · by_cases h2 : bn < NDIRECT + NINDIRECT
    · exact punchSingle_spec h h1 h2
    · by_cases h3 : bn < NDIRECT + NINDIRECT + NDINDIRECT
      · exact punchDouble_spec h h1 h2 h3
      · unfold punchBlock
        simp only [if_neg h1, if_neg h2, if_neg h3]
        refine ⟨.of_gone h ?_, .of_kept fun _ _ _ _ => rfl⟩
        apply ptr_not_ok
        unfold slotOf
        rw [if_neg h1, if_neg (by omega)]
        rintro ⟨hi, -⟩
        change ¬ bn < 11 + 256 + 65536 at h3
        change (bn - 11 - 256) / 256 < 256 at hi
        omega

end

theorem punchLoop_spec (h : FileInv O M A 0 s) (lo n : Nat) :
    wp E (loop lo n false fun bn update => do
      let changed ← punchBlock A bn
      return update || changed) s fun r s' => Shrunk O M A ∅ s s' ∧ Trims A s s' ∧
        (∀ bn, lo ≤ bn → bn < lo + n → s'.ptrs A (slotOf bn) = 0) ∧
        (∀ bn, ¬ (lo ≤ bn ∧ bn < lo + n) → s'.ptrs A (slotOf bn) = s.ptrs A (slotOf bn)) ∧
        (r = false → s'.inode A = s.inode A) := by
  refine wp_loop (fun m r s' => Shrunk O M A ∅ s s' ∧ Trims A s s' ∧
    (∀ bn, lo ≤ bn → bn < m → s'.ptrs A (slotOf bn) = 0) ∧
    (∀ bn, ¬ (lo ≤ bn ∧ bn < m) → s'.ptrs A (slotOf bn) = s.ptrs A (slotOf bn)) ∧
    (r = false → s'.inode A = s.inode A)) ?_ ?_
  · exact ⟨h.shed.shrunk, .of_kept fun _ _ _ _ => rfl, fun bn h1 h2 => by omega, fun _ _ => rfl,
      fun _ => rfl⟩
  · rintro m r s₁ hlo - ⟨h₁, htrim, hgone, hkept, hr⟩
    apply (punchBlock_spec h₁.shed).bind
    rintro r' s₂ ⟨h₂, htrim₂⟩
    have hother (bn : Nat) (hne : bn ≠ m) : s₂.ptrs A (slotOf bn) = s₁.ptrs A (slotOf bn) :=
      h₂.kept _ (slotOf_index bn) fun e => hne (slotOf_inj e)
    refine ⟨h₁.trans h₂.shrunk, htrim.trans htrim₂ h₂.shrunk.less, fun bn h1 h2 => ?_,
      fun bn hbn => ?_, fun e => ?_⟩
    · by_cases he : bn = m
      · exact he ▸ h₂.gone
      · rw [hother bn he]
        exact hgone bn h1 (by omega)
    · rw [hother bn (by omega), hkept bn (by omega)]
    · obtain ⟨hr', rfl⟩ := Bool.or_eq_false_iff.1 e
      rw [h₂.inode, hr hr']

end OopsOS
