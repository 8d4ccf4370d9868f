import OopsOS.Shrinking

namespace OopsOS
set_option autoImplicit true
open Function

variable {s s₁ s' : FsState} {O : Multiset Nat} {M : Set Nat} {A lo : Nat} {k : Slot}

theorem getPtr_spec {Q : Nat → FsState → Prop} (k : Slot) (hk : k.Ok) (hp : k.parent = none)
    (h : Q (s.ptrs A k) s) : wp E (getPtr A (.addr k.pos)) s Q := by
  have he : k.loc (s.ptrs A) = .addr k.pos := by
    unfold Slot.loc
    rw [hp]
  rw [← he]
  refine (wp_getPtr hk fun p e => ?_).2 h
  rw [hp] at e
  cases e

theorem Slot.loc_root (v : Slot → Nat) (hp : k.parent = none) : k.loc v = .addr k.pos := by
  unfold loc
  rw [hp]

theorem ptrs_leaf (hi : k.index = false) (h : s'.ptrs A = update (s.ptrs A) k 0) (k' : Slot) :
    s'.ptrs A k' = if k ∈ k'.path then 0 else s.ptrs A k' := by
  simp only [h, update_apply, Slot.leaf_mem_path hi]

theorem clearRoot_spec (h : Shrunk O M A (under k) s s₁) (hk : k.Ok) (hp : k.parent = none) :
    wp E (setPtr A (.addr k.pos) 0) s₁ fun _ s' =>
      Shrunk O M A ∅ s s' ∧ ∀ k', s'.ptrs A k' = if k ∈ k'.path then 0 else s₁.ptrs A k' := by
  rw [wp_setPtr, ← Slot.loc_root (s₁.ptrs A) hp]
  apply h.clear hk
  intro p e
  rw [hp] at e
  cases e

section
variable (h : Shrunk O M A ∅ s s₁)
include h

theorem freeAt_spec (hk : k.Ok) (hi : k.index = false)
    (hp : ∀ p, k.parent = some p → s₁.ptrs A p ≠ 0) :
    wp E (freeAt A (k.loc (s₁.ptrs A))) s₁ fun _ s' =>
      Shrunk O M A ∅ s s' ∧ s'.ptrs A = update (s₁.ptrs A) k 0 := by
  unfold freeAt
  rw [wp_bind, wp_getPtr hk hp]
  by_cases h0 : s₁.ptrs A k = 0
  · rw [if_neg (not_not.2 h0), wp_pure, update_eq_self_iff.2 h0.symm]
    exact ⟨h, rfl⟩
  · rw [if_pos h0]
    have hleaf (c : Slot) (hc : c.parent = some k) : s₁.ptrs A c = 0 := by
      rw [Slot.parent_index hc] at hi
      cases hi
    apply (h.drop h0 hleaf).bind
    intro _ s₂ h₂
    exact (wp_setPtr _).2 h₂

/-- A loop whose body clears the slot of its index and what is below clears them all. -/
theorem Shrunk.sweep {f : Nat → Slot} {body : Nat → β → FsM β} (hok : ∀ i, (f i).Ok → i < n)
    (hbody : ∀ i acc s₂, lo ≤ i → i < n → Shrunk O M A ∅ s s₂ →
      (∀ k, (∀ i, lo ≤ i → f i ∉ k.path) → s₂.ptrs A k = s₁.ptrs A k) →
      wp E (body i acc) s₂ fun _ s' => Shrunk O M A ∅ s s' ∧
        ∀ k, s'.ptrs A k = if f i ∈ k.path then 0 else s₂.ptrs A k) :
    wp E (loop lo (n - lo) acc body) s₁ fun _ s' => Shrunk O M A ∅ s s' ∧
      (∀ i, lo ≤ i → s'.ptrs A (f i) = 0) ∧
        ∀ k, (∀ i, lo ≤ i → f i ∉ k.path) → s'.ptrs A k = s₁.ptrs A k := by
  refine wp.mono (wp_loop (fun m _ s' => Shrunk O M A ∅ s s' ∧
    (∀ i, lo ≤ i → i < m → s'.ptrs A (f i) = 0) ∧
      ∀ k, (∀ i, lo ≤ i → f i ∉ k.path) → s'.ptrs A k = s₁.ptrs A k) ?_ ?_) ?_
  · exact ⟨h, fun i h1 h2 => by omega, fun _ _ => rfl⟩
  · rintro m acc s₂ hlo hm ⟨h₂, hgone, hkept⟩
    apply (hbody m acc s₂ hlo (by omega) h₂ hkept).mono
    rintro _ s' ⟨h', hptrs⟩
    refine ⟨h', fun i h1 h2 => ?_, fun k hk => ?_⟩
    · rw [hptrs]
      split
      · rfl
      · next hne =>
        apply hgone i h1
        have : i ≠ m := fun e => hne (e ▸ (f i).mem_path)
        omega
    · rw [hptrs, if_neg (hk m hlo), hkept k hk]
  · rintro _ s' ⟨h', hgone, hkept⟩
    refine ⟨h', fun i hi => ?_, hkept⟩
    by_cases hlt : (f i).Ok
    · have hin := hok i hlt
      exact hgone i hi (by omega)
    · exact ptr_not_ok _ _ hlt

theorem freeAddrs_spec : wp E (loop lo (NDIRECT - lo) () fun i _ => freeAt A (.addr i)) s₁
    fun _ s' =>
      Shrunk O M A ∅ s s' ∧ (∀ i, lo ≤ i → s'.ptrs A (.direct i) = 0) ∧
        ∀ k, (∀ i, lo ≤ i → .direct i ∉ k.path) → s'.ptrs A k = s₁.ptrs A k := by
  refine h.sweep (f := .direct) (fun i hi => hi) fun i _ s₂ _ hi h₂ _ => ?_
  apply (freeAt_spec h₂ (k := .direct i) hi rfl nofun).mono
  rintro _ s' ⟨h', hptrs⟩
  exact ⟨h', ptrs_leaf rfl hptrs⟩

theorem dropSingle_spec : wp E (do
      freeIndirectBlock (s₁.ptrs A .single)
      setPtr A (.addr NDIRECT) 0) s₁ fun _ s' =>
      Shrunk O M A ∅ s s' ∧
        ∀ k, s'.ptrs A k = if Slot.single ∈ k.path then 0 else s₁.ptrs A k := by
  apply (freeIndirectBlock_spec h (.inl rfl) fun c _ => Set.notMem_empty c).bind
  rintro _ s₂ ⟨h₂, hptrs⟩
  rw [Set.empty_union] at h₂
  rw [← hptrs]
  exact clearRoot_spec h₂ trivial rfl

theorem dropDouble_spec (h0 : s₁.ptrs A .double ≠ 0) : wp E (do
      loop 0 NADDR_PER_BLOCK () fun i _ => do
        let bp ← bread (s₁.ptrs A .double)
        freeIndirectBlock (getWord bp i)
      bfree (s₁.ptrs A .double)
      setPtr A (.addr (NDIRECT + 1)) 0) s₁ fun _ s' =>
      Shrunk O M A ∅ s s' ∧
        ∀ k, s'.ptrs A k = if Slot.double ∈ k.path then 0 else s₁.ptrs A k := by
  have hfree := freeIndex_spec (E := E) h rfl h0 (fun c _ => Set.notMem_empty c) fun i _ _ h₂ hD =>
    freeIndirectBlock_spec h₂ (.inr ⟨i, rfl⟩) hD
  rw [wp_bind] at hfree ⊢
  apply hfree.mono
  intro _ s₂ h₂
  apply h₂.bind
  rintro _ s₃ ⟨h₃, hptrs⟩
  rw [Set.empty_union] at h₃
  rw [← hptrs]
  exact clearRoot_spec h₃ trivial rfl

theorem itruncSingle_spec : wp E (itruncSingle A) s₁ fun _ s' =>
      Shrunk O M A ∅ s s' ∧
        ∀ k, s'.ptrs A k = if Slot.single ∈ k.path then 0 else s₁.ptrs A k := by
  unfold itruncSingle
  rw [wp_bind]
  apply getPtr_spec .single trivial rfl
  have hdrop := dropSingle_spec (E := E) h
  unfold freeIndirectBlock at hdrop
  by_cases h0 : s₁.ptrs A .single = 0
  · rw [if_neg (not_not.2 h0)]
    refine ⟨h, fun k => ?_⟩
    split
    · next hu => exact ptr_under_zero h0 hu
    · rfl
  · rw [if_pos h0]
    simp only [if_neg h0, wp_bind] at hdrop ⊢
    exact hdrop

theorem itruncDouble_spec : wp E (itruncDouble A) s₁ fun _ s' =>
      Shrunk O M A ∅ s s' ∧
        ∀ k, s'.ptrs A k = if Slot.double ∈ k.path then 0 else s₁.ptrs A k := by
  unfold itruncDouble
  rw [wp_bind]
  apply getPtr_spec .double trivial rfl
  by_cases h0 : s₁.ptrs A .double = 0
  · rw [if_neg (not_not.2 h0)]
    refine ⟨h, fun k => ?_⟩
    split
    · next hu => exact ptr_under_zero h0 hu
    · rfl
  · rw [if_pos h0]
    have hdrop := dropDouble_spec (E := E) h h0
    unfold freeIndirectBlock at hdrop
    simp only [← ite_not (_ = 0)] at hdrop
    exact hdrop

end

theorem itrunc_shrunk (h : FileInv O M A 0 s) :
    wp E (itrunc A) s fun _ s' => ∃ s₁, Shrunk O M A ∅ s s₁ ∧
      (∀ k, s₁.ptrs A k = 0) ∧ s' = s₁.saved A { s₁.inode A with size := 0 } := by
  unfold itrunc
  apply (freeAddrs_spec h.shed.shrunk).bind
  rintro _ s₁ ⟨h₁, hdirect, -⟩
  apply (itruncSingle_spec h₁).bind
  rintro _ s₂ ⟨h₂, hptrs₂⟩
  apply (itruncDouble_spec h₂).bind
  rintro _ s₃ ⟨h₃, hptrs₃⟩
  apply wp_setSize_iupdate.2
  refine ⟨s₃, h₃, fun k => ?_, rfl⟩
  rw [hptrs₃, hptrs₂]
  cases k with
  | direct i => exact hdirect i (Nat.zero_le i)
  | single => rfl
  | sentry j => rfl
  | double => rfl
  | second i => rfl
  | dentry i j => rfl

variable {nb : Nat} {c : Slot} {D : Set Slot} {v : Slot → Nat}

theorem Slot.loc_child (v : Slot → Nat) (hi : k.index = true) (j : Nat) :
    (k.child j).loc v = .entry (v k) j := by
  unfold loc
  rw [parent_child hi, pos_child hi]

theorem wp_clearEntry {Q : Unit → FsState → Prop} (hi : k.index = true)
    (h : Q () { s.setPtr A ((k.child j).loc v) 0 with logged := s.logged }) :
    wp E (clearEntry (v k) j) s Q := by
  rw [Slot.loc_child v hi] at h
  exact h

theorem logIf_spec (h : Shrunk O M A D s s₁) (b : Bool) (x : Nat) :
    wp E (logIf b x) s₁ fun _ s' =>
      Shrunk O M A D s s' ∧ s'.ptrs A = s₁.ptrs A ∧ s'.blocks = s₁.blocks := by
  unfold logIf
  split
  · exact ⟨h.logged _, rfl, rfl⟩
  · exact ⟨h, rfl, rfl⟩

/-- An index block that is left has an entry, or has lost none. -/
def Trims (A : Nat) (s s' : FsState) : Prop :=
  ∀ k, k.index = true → s'.ptrs A k ≠ 0 → (∃ c, c.parent = some k ∧ s'.ptrs A c ≠ 0) ∨
    ∀ c, c.parent = some k → s'.ptrs A c = s.ptrs A c

theorem Trims.trans (h : Trims A s s₁) (h' : Trims A s₁ s')
    (hless : ∀ k, s'.ptrs A k ≠ 0 → s'.ptrs A k = s₁.ptrs A k) : Trims A s s' := by
  intro k hi hk
  obtain hc | hsame := h' k hi hk
  · exact .inl hc
  · obtain ⟨c, hc, h0⟩ | hold := h k hi (hless k hk ▸ hk)
    · exact .inl ⟨c, hc, (hsame c hc).symm ▸ h0⟩
    · exact .inr fun c hc => (hsame c hc).trans (hold c hc)

theorem Trims.of_kept (h : ∀ k c, s'.ptrs A k ≠ 0 → c.parent = some k → s'.ptrs A c = s.ptrs A c) :
    Trims A s s' := fun k _ hk => .inr fun c => h k c hk

theorem addrBlockEmpty_ptrs (hi : k.index = true) (h0 : s.ptrs A k ≠ 0)
    (he : addrBlockEmpty (s.blocks (s.ptrs A k)) NADDR_PER_BLOCK = true) (hc : c.parent = some k) :
    s.ptrs A c = 0 := by
  by_cases hok : c.Ok
  · have hj := hok.pos_lt hc
    have h1 := List.all_eq_true.1 he c.pos (List.mem_range.2 hj)
    rw [FsState.getWord_ptrs hi h0 hj, ← Slot.eq_child hc] at h1
    exact beq_iff_eq.1 h1
  · exact ptr_not_ok _ _ hok

theorem exists_entry (hi : k.index = true) (h0 : s.ptrs A k ≠ 0)
    (he : addrBlockEmpty (s.blocks (s.ptrs A k)) NADDR_PER_BLOCK = false) :
    ∃ c, c.parent = some k ∧ s.ptrs A c ≠ 0 := by
  obtain ⟨j, hj, hne⟩ := List.all_eq_false.1 he
  rw [FsState.getWord_ptrs hi h0 (List.mem_range.1 hj)] at hne
  exact ⟨k.child j, Slot.parent_child hi j, fun h => hne (beq_iff_eq.2 h)⟩

section
variable (h : Shrunk O M A ∅ s s₁)
include h

/-- A loop that frees and clears the entries of an index block from `lo` on. -/
theorem dropChildren_spec {free : Nat → FsM Unit} (hi : k.index = true) (h0 : s₁.ptrs A k ≠ 0)
    (hfree : ∀ j s₂, Shrunk O M A ∅ s s₂ → s₂.ptrs A (k.child j) ≠ 0 →
      wp E (do
        free (s₂.ptrs A (k.child j))
        clearEntry (s₂.ptrs A k) j) s₂ fun _ s' => Shrunk O M A ∅ s s' ∧
          ∀ c, s'.ptrs A c = if k.child j ∈ c.path then 0 else s₂.ptrs A c) :
    wp E (loop lo (NADDR_PER_BLOCK - lo) false fun j changed => do
      let bp ← bread (s₁.ptrs A k)
      let a := getWord bp j
      if a ≠ 0 then do
        free a
        clearEntry (s₁.ptrs A k) j
        return true
      else return changed) s₁ fun _ s' =>
      Shrunk O M A ∅ s s' ∧ (∀ j, lo ≤ j → s'.ptrs A (k.child j) = 0) ∧
        ∀ c, (∀ j, lo ≤ j → k.child j ∉ c.path) → s'.ptrs A c = s₁.ptrs A c := by
  have hpos (j : Nat) (hj : (k.child j).Ok) : j < NADDR_PER_BLOCK := by
    have hlt := hj.pos_lt (Slot.parent_child hi j)
    rwa [Slot.pos_child hi] at hlt
  refine h.sweep hpos fun j changed s₂ _ hj h₂ hkept => ?_
  have hk := hkept k fun j _ => Slot.not_mem_path_parent (Slot.parent_child hi j)
  rw [wp_bind, wp_bread, ← hk]
  rw [← hk] at h0
  simp only [FsState.getWord_ptrs hi h0 hj]
  by_cases ha : s₂.ptrs A (k.child j) = 0
  · rw [if_neg (not_not.2 ha)]
    refine ⟨h₂, fun c => ?_⟩
    split
    · next hu => exact ptr_under_zero ha hu
    · rfl
  · rw [if_pos ha]
    have hdrop := hfree j s₂ h₂ ha
    rw [wp_bind] at hdrop ⊢
    apply hdrop.mono
    intro _ s₃ hclear
    exact hclear.bind fun _ s' h' => h'

theorem dropEntries_spec (hl : k.Lowest) (h0 : s₁.ptrs A k ≠ 0) :
    wp E (dropEntries (s₁.ptrs A k) lo) s₁ fun _ s' =>
      Shrunk O M A ∅ s s' ∧ (∀ j, lo ≤ j → s'.ptrs A (k.child j) = 0) ∧
        ∀ c, (∀ j, lo ≤ j → c ≠ k.child j) → s'.ptrs A c = s₁.ptrs A c := by
  have hi := hl.index
  have hleaf (j : Nat) : (k.child j).index = false := hl.child_index (Slot.parent_child hi j)
  simp only [ne_eq, ← Slot.leaf_mem_path (hleaf _)]
  refine dropChildren_spec h hi h0 fun j s₂ h₂ ha => ?_
  apply (h₂.drop ha fun c hc => ?_).bind
  · rintro _ s₃ ⟨h₃, hptrs⟩
    exact wp_clearEntry hi ⟨h₃.logged _, ptrs_leaf (hleaf j) hptrs⟩
  · have h1 := Slot.parent_index hc
    rw [hleaf j] at h1
    cases h1

/-- An index block that has no entry left is freed, and the pointer to it is cleared. -/
theorem Shrunk.prune (hi : k.index = true) (h0 : s₁.ptrs A k ≠ 0)
    (log : Bool → Bool) {free keep : FsM β} {Q : β → FsState → Prop}
    (hkeep : ∀ s', Shrunk O M A ∅ s s' → s'.ptrs A = s₁.ptrs A →
      (∃ c, c.parent = some k ∧ s'.ptrs A c ≠ 0) → wp E keep s' Q)
    (hfree : ∀ s', Shrunk O M A ∅ s (s'.setPtr A (k.loc (s₁.ptrs A)) 0) →
      (s'.setPtr A (k.loc (s₁.ptrs A)) 0).ptrs A = update (s₁.ptrs A) k 0 → wp E free s' Q) :
    wp E (do
      let bp ← bread (s₁.ptrs A k)
      let empty := addrBlockEmpty bp NADDR_PER_BLOCK
      logIf (log empty) (s₁.ptrs A k)
      if empty then do
        OopsOS.bfree (s₁.ptrs A k)
        free
      else keep) s₁ Q := by
  rw [wp_bind, wp_bread]
  apply (logIf_spec h _ _).bind
  rintro _ s₂ ⟨h₂, hptrs, hblocks⟩
  rw [← hptrs] at hkeep hfree h0 ⊢
  rw [← hblocks]
  cases he : addrBlockEmpty (s₂.blocks (s₂.ptrs A k)) NADDR_PER_BLOCK with
  | false => exact hkeep s₂ h₂ rfl (exists_entry hi h0 he)
  | true =>
    apply (h₂.drop h0 fun c hc => addrBlockEmpty_ptrs hi h0 he hc).bind
    rintro _ s₃ ⟨h₃, hptrs₃⟩
    exact hfree s₃ h₃ hptrs₃

theorem dropEmptyRoot_spec (hi : k.index = true) (hp : k.parent = none)
    (h0 : s₁.ptrs A k ≠ 0) (log : Bool → Bool) :
    wp E (do
      let bp ← bread (s₁.ptrs A k)
      let empty := addrBlockEmpty bp NADDR_PER_BLOCK
      logIf (log empty) (s₁.ptrs A k)
      if empty then do
        bfree (s₁.ptrs A k)
        setPtr A (.addr k.pos) 0
      else return ()) s₁ fun _ s' =>
      Shrunk O M A ∅ s s' ∧ (∀ c, c ≠ k → s'.ptrs A c = s₁.ptrs A c) ∧
        (s'.ptrs A k ≠ 0 → ∃ c, c.parent = some k ∧ s'.ptrs A c ≠ 0) := by
  refine h.prune hi h0 log (fun s' h' hptrs hc => ⟨h', fun c _ => congrFun hptrs c, fun _ => hc⟩)
    fun s' h' hptrs => ?_
  rw [wp_setPtr, ← Slot.loc_root (s₁.ptrs A) hp]
  refine ⟨h', fun c hne => ?_, fun hk => (hk ?_).elim⟩
  · rw [hptrs, update_of_ne hne]
  · rw [hptrs, update_self]

theorem truncSingle_spec : wp E (truncSingle A nb) s₁ fun _ s' =>
      Shrunk O M A ∅ s s' ∧ (∀ j, nb ≤ NDIRECT + j → s'.ptrs A (.sentry j) = 0) ∧
        (∀ k, k.index = false → (∀ j, nb ≤ NDIRECT + j → k ≠ .sentry j) →
          s'.ptrs A k = s₁.ptrs A k) ∧ Trims A s₁ s' := by
  unfold truncSingle
  rw [wp_bind]
  apply getPtr_spec .single trivial rfl
  by_cases h0 : s₁.ptrs A .single = 0
  · have hsame : ∀ j, nb ≤ NDIRECT + j → s₁.ptrs A (.sentry j) = 0 := fun j _ =>
      ptr_under_zero h0 (List.mem_cons_of_mem _ List.mem_cons_self)
    simp only [if_neg (not_not.2 h0), ite_self]
    exact ⟨h, hsame, fun _ _ _ => rfl, .of_kept fun _ _ _ _ => rfl⟩
  · simp only [if_pos h0]
    by_cases hnb : nb ≤ NDIRECT
    · rw [if_pos hnb]
      apply (dropSingle_spec h).mono
      rintro _ s' ⟨h', hptrs⟩
      refine ⟨h', fun j _ => hptrs _, fun k hi hk => ?_, .of_kept fun k c hk hc => ?_⟩
      · rw [hptrs, if_neg]
        intro hu
        cases k with
        | sentry j => exact hk j (by omega) rfl
        | single => cases hi
        | _ => simp [Slot.path] at hu
      · rw [hptrs] at hk ⊢
        cases c <;> cases hc <;> simp_all [Slot.path]
    · rw [if_neg hnb]
      apply (dropEntries_spec h (.inl rfl) h0).bind
      rintro changed s₂ ⟨h₂, hgone, hkept⟩
      have hk : s₂.ptrs A .single = s₁.ptrs A .single := hkept _ (by simp [Slot.child])
      rw [← hk] at h0 ⊢
      apply (dropEmptyRoot_spec h₂ rfl rfl h0 fun e => changed && !e).mono
      rintro _ s' ⟨h', hleaf, hroot⟩
      refine ⟨h', fun j hj => ?_, fun k hi hk => ?_, fun k hi hk => ?_⟩
      · rw [hleaf _ (by simp)]
        exact hgone j (by omega)
      · rw [hleaf k fun e => by rw [e] at hi; cases hi]
        exact hkept k fun j hj => hk j (by omega)
      · by_cases he : k = .single
        · subst he
          exact .inl (hroot hk)
        · refine .inr fun c hc => ?_
          rw [hleaf c fun e => by rw [e] at hc; cases hc]
          refine hkept c fun j _ e => he ?_
          subst e
          exact (Option.some.inj hc).symm

theorem dropSecond_spec (h0 : s₁.ptrs A (.second i) ≠ 0) : wp E (do
      freeIndirectBlock (s₁.ptrs A (.second i))
      clearEntry (s₁.ptrs A .double) i) s₁ fun _ s' =>
      Shrunk O M A ∅ s s' ∧
        ∀ k, s'.ptrs A k = if Slot.second i ∈ k.path then 0 else s₁.ptrs A k := by
  apply (freeIndirectBlock_spec h (.inr ⟨i, rfl⟩) fun c _ => Set.notMem_empty c).bind
  rintro _ s₂ ⟨h₂, hptrs⟩
  rw [Set.empty_union] at h₂
  rw [← hptrs] at h0 ⊢
  have hd : Slot.double.index = true := rfl
  apply wp_clearEntry hd
  obtain ⟨h', hclear⟩ := h₂.clear (Slot.ok_of_ptr h0) fun p e => ptr_parent_ne_zero e h0
  exact ⟨h'.logged _, hclear⟩

theorem truncSecond_spec (h0 : s₁.ptrs A .double ≠ 0) :
    wp E (truncSecond (s₁.ptrs A .double) n lo) s₁ fun _ s' =>
      Shrunk O M A ∅ s s' ∧ s'.ptrs A .double = s₁.ptrs A .double ∧
        (∀ j, lo ≤ j → s'.ptrs A (.dentry n j) = 0) ∧
        (∀ k, k ≠ .second n → (∀ j, lo ≤ j → k ≠ .dentry n j) → s'.ptrs A k = s₁.ptrs A k) ∧
        (s'.ptrs A (.second n) ≠ 0 → ∃ c, c.parent = some (.second n) ∧ s'.ptrs A c ≠ 0) := by
  unfold truncSecond
  rw [wp_bind, wp_bread]
  by_cases hn : n < NADDR_PER_BLOCK ∧ s₁.ptrs A (.second n) ≠ 0
  · obtain ⟨hn, ha⟩ := hn
    have hread : getWord (s₁.blocks (s₁.ptrs A .double)) n = s₁.ptrs A (.second n) :=
      FsState.getWord_ptrs rfl h0 hn
    simp only [hread, if_pos (And.intro hn ha)]
    by_cases hlo : lo = 0
    · rw [if_pos hlo]
      have hdrop := dropSecond_spec (E := E) h ha
      rw [wp_bind] at hdrop ⊢
      apply hdrop.mono
      intro _ s₂ hclear
      apply hclear.bind
      rintro _ s₃ ⟨h₃, hptrs⟩
      refine ⟨h₃, hptrs _, fun j _ => ?_, fun k hi hk => ?_, fun h => (h ?_).elim⟩
      · rw [hptrs]
        exact if_pos (List.mem_cons_of_mem _ List.mem_cons_self)
      · rw [hptrs, if_neg]
        rw [Slot.second_mem_path, not_or, not_exists]
        exact ⟨hi, fun j => hk j (by omega)⟩
      · rw [hptrs]
        exact if_pos List.mem_cons_self
    · rw [if_neg hlo]
      apply (dropEntries_spec h (.inr ⟨n, rfl⟩) ha).bind
      rintro changed s₂ ⟨h₂, hgone, hkept⟩
      have hk : s₂.ptrs A (.second n) = s₁.ptrs A (.second n) := hkept _ nofun
      have hd : s₂.ptrs A .double = s₁.ptrs A .double := hkept _ nofun
      rw [← hk] at ha ⊢
      rw [← hd]
      refine h₂.prune rfl ha (fun e => changed && !e) (fun s₃ h₃ hptrs hc => ?_) fun s₃ h₃ hptrs =>
        ?_
      · rw [wp_pure, hptrs]
        exact ⟨h₃, rfl, hgone, fun k _ => hkept k, fun _ => hptrs ▸ hc⟩
      · have hup (k : Slot) (hne : k ≠ .second n) :
            (s₃.setPtr A (Slot.loc (s₂.ptrs A) (.second n)) 0).ptrs A k = s₂.ptrs A k := by
          rw [hptrs, update_of_ne hne]
        have hdi : Slot.double.index = true := rfl
        rw [wp_bind]
        apply wp_clearEntry hdi
        refine ⟨h₃.logged _, hup _ (by simp), fun j hj => (hup _ (by simp)).trans (hgone j hj),
          fun k hi hk => (hup k hi).trans (hkept k hk), fun h => (h ?_).elim⟩
        exact (congrFun hptrs _).trans (update_self ..)
  · have hread : ¬ (n < NADDR_PER_BLOCK ∧ getWord (s₁.blocks (s₁.ptrs A .double)) n ≠ 0) := by
      rintro ⟨h1, h2⟩
      rw [FsState.getWord_ptrs rfl h0 h1] at h2
      exact hn ⟨h1, h2⟩
    simp only [if_neg hread]
    have h1 : s₁.ptrs A (.second n) = 0 := by
      by_contra h1
      exact hn ⟨Slot.ok_of_ptr h1, h1⟩
    refine ⟨h, rfl, fun j _ => ?_, fun _ _ _ => rfl, fun h2 => (h2 h1).elim⟩
    exact ptr_under_zero h1 (List.mem_cons_of_mem _ List.mem_cons_self)

theorem truncDouble_spec : wp E (truncDouble A nb) s₁ fun _ s' =>
      Shrunk O M A ∅ s s' ∧
        (∀ i j, nb ≤ NDIRECT + NINDIRECT + NADDR_PER_BLOCK * i + j → j < NADDR_PER_BLOCK →
          s'.ptrs A (.dentry i j) = 0) ∧
        (∀ k, k.index = false →
          (∀ i j, nb ≤ NDIRECT + NINDIRECT + NADDR_PER_BLOCK * i + j → k ≠ .dentry i j) →
          s'.ptrs A k = s₁.ptrs A k) ∧ Trims A s₁ s' := by
  unfold truncDouble
  rw [wp_bind]
  apply getPtr_spec .double trivial rfl
  by_cases h0 : s₁.ptrs A .double = 0
  · simp only [if_neg (not_not.2 h0), ite_self]
    refine ⟨h, fun i j _ _ => ptr_under_zero h0 ?_, fun _ _ _ => rfl, .of_kept fun _ _ _ _ => rfl⟩
    exact List.mem_cons_of_mem _ (List.mem_cons_of_mem _ List.mem_cons_self)
  · simp only [if_pos h0]
    by_cases hnb : nb ≤ NDIRECT + NINDIRECT
    · rw [if_pos hnb]
      apply (dropDouble_spec h h0).mono
      rintro _ s' ⟨h', hptrs⟩
      refine ⟨h', fun i j _ _ => hptrs _, fun k hi hk => ?_, .of_kept fun k c hk hc => ?_⟩
      · rw [hptrs, if_neg]
        intro hu
        cases k with
        | dentry i j => exact hk i j (by omega) rfl
        | double => cases hi
        | second i => cases hi
        | _ => simp [Slot.path] at hu
      · rw [hptrs] at hk ⊢
        cases c <;> cases hc <;> simp_all [Slot.path]
    · rw [if_neg hnb]
      apply (dropChildren_spec h rfl h0 fun i s₂ h₂ hi => dropSecond_spec h₂ hi).bind
      rintro changed s₂ ⟨h₂, hgone₂, hkept₂⟩
      have hk : s₂.ptrs A .double = s₁.ptrs A .double :=
        hkept₂ _ fun i _ => by simp [Slot.path, Slot.child]
      rw [← hk] at h0 ⊢
      apply (truncSecond_spec h₂ h0).bind
      rintro changed' s₃ ⟨h₃, hd, hgone₃, hkept₃, hsecond⟩
      rw [← hd] at h0 ⊢
      apply (dropEmptyRoot_spec h₃ rfl rfl h0 fun e => (changed || changed') && !e).mono
      rintro _ s' ⟨h', hleaf, hroot⟩
      simp only [NDIRECT, NINDIRECT, NADDR_PER_BLOCK, BSIZE, Slot.child]
        at hnb hgone₂ hkept₂ hgone₃ hkept₃ ⊢
      refine ⟨h', fun i j hij hj => ?_, fun k hi hk => ?_, fun k hi hk => ?_⟩
      · rw [hleaf _ (by simp)]
        by_cases he : i = (nb - (11 + 1024 / 4)) / (1024 / 4)
        · rw [he]
          exact hgone₃ j (by omega)
        · rw [hkept₃ _ (by simp) fun j' _ e => he (Slot.dentry.inj e).1]
          exact ptr_under_zero (hgone₂ i (by omega)) (List.mem_cons_of_mem _ List.mem_cons_self)
      · have hne (k' : Slot) (hk' : k'.index = true) : k ≠ k' := fun e => by simp_all
        rw [hleaf k (hne _ rfl), hkept₃ k (hne _ rfl), hkept₂ k]
        · intro i h1 hu
          obtain rfl | ⟨j, rfl⟩ := Slot.second_mem_path.1 hu
          · cases hi
          · exact hk i j (by omega) rfl
        · intro j hj e
          exact hk _ j (by omega) e
      · cases k with
        | double => exact .inl (hroot hk)
        | single =>
          refine .inr fun c hc => ?_
          cases c <;> cases hc
          rw [hleaf _ (by simp), hkept₃ _ (by simp) (by simp), hkept₂ _ (by simp [Slot.path])]
        | second i =>
          rw [hleaf _ (by simp)] at hk
          by_cases he : i = (nb - (11 + 1024 / 4)) / (1024 / 4)
          · obtain ⟨c, hc, hc0⟩ := hsecond (he ▸ hk)
            exact .inl ⟨c, he ▸ hc, by rwa [hleaf c fun e => by rw [e] at hc; cases hc]⟩
          · rw [hkept₃ _ (by simpa using he) (by simp)] at hk
            have hlt : i < (nb - (11 + 1024 / 4)) / (1024 / 4) + 1 := by
              by_contra hge
              exact hk (hgone₂ i (Nat.not_lt.1 hge))
            refine .inr fun c hc => ?_
            cases c <;> cases hc
            rw [hleaf _ (by simp), hkept₃ _ (by simp) (by simp [he]), hkept₂]
            intro i' hi' hu
            simp [Slot.second_mem_path] at hu
            omega
        | _ => cases hi

end

structure CutAt (A nb : Nat) (s s' : FsState) : Prop where
  gone : ∀ bn < MAXFILE, nb ≤ bn → s'.ptrs A (slotOf bn) = 0
  kept : ∀ bn, bn < nb → s'.ptrs A (slotOf bn) = s.ptrs A (slotOf bn)

theorem truncBlocks_spec (nb : Nat) (h : Shrunk O M A ∅ s s) :
    wp E (do
      loop nb (NDIRECT - nb) () fun i _ => freeAt A (.addr i)
      truncSingle A nb
      truncDouble A nb) s fun _ s' =>
        Shrunk O M A ∅ s s' ∧ CutAt A nb s s' ∧ Trims A s s' := by
  apply (freeAddrs_spec h).bind
  rintro _ s₁ ⟨h₁, hgone₁, hkept₁⟩
  apply (truncSingle_spec h₁.shed.shrunk).bind
  rintro _ s₂ ⟨h₂, hgone₂, hkept₂, htrim₂⟩
  apply (truncDouble_spec h₂.shed.shrunk).mono
  rintro _ s₃ ⟨h₃, hgone₃, hkept₃, htrim₃⟩
  simp only [Slot.leaf_mem_path (show (Slot.direct _).index = false from rfl)] at hkept₁
  have htrim₁ : Trims A s s₁ := .of_kept fun k c _ hc => hkept₁ c fun i _ e => by subst e; cases hc
  refine ⟨(h₁.trans h₂).trans h₃, ⟨fun bn hbn hnb => ?_, fun bn hnb => ?_⟩,
    (htrim₁.trans htrim₂ h₂.less).trans htrim₃ h₃.less⟩
  · have hi := slotOf_index bn
    unfold slotOf at hi ⊢
    simp only [NDIRECT, NINDIRECT, NADDR_PER_BLOCK, BSIZE] at *
    split
    · rw [hkept₃ _ rfl (by simp), hkept₂ _ rfl (by simp)]
      exact hgone₁ bn hnb
    · split
      · rw [hkept₃ _ rfl (by simp)]
        exact hgone₂ _ (by omega)
      · exact hgone₃ _ _ (by omega) (by omega)
  · unfold slotOf
    simp only [NDIRECT, NINDIRECT, NADDR_PER_BLOCK, BSIZE] at *
    split
    · rw [hkept₃ _ rfl (by simp), hkept₂ _ rfl (by simp), hkept₁]
      rintro i hi ⟨⟩
      omega
    · split
      · rw [hkept₃ _ rfl (by simp), hkept₂ _ rfl, hkept₁ _ (by simp)]
        rintro j hj ⟨⟩
        omega
      · rw [hkept₃ _ rfl, hkept₂ _ rfl (by simp), hkept₁ _ (by simp)]
        rintro i j hij ⟨⟩
        omega

theorem itruncTo_grow {Q : Unit → FsState → Prop} (hn : (s.inode A).size.toNat ≤ n)
    (h : Q () (s.saved A { s.inode A with size := UInt32.ofNat n })) : wp E (itruncTo A n) s Q := by
  unfold itruncTo
  rw [wp_bind, wp_get]
  simp only [ge_iff_le, if_pos hn]
  exact wp_setSize_iupdate.2 h

theorem itruncTo_shrunk (h : FileInv O M A 0 s) (hn : n < (s.inode A).size.toNat) :
    wp E (itruncTo A n) s fun _ s' => ∃ s₁, Shrunk O M A ∅ s s₁ ∧
      CutAt A ((n + BSIZE - 1) % 2 ^ 32 / BSIZE) s s₁ ∧ Trims A s s₁ ∧
      s' = s₁.saved A { s₁.inode A with size := UInt32.ofNat n } := by
  unfold itruncTo
  rw [wp_bind, wp_get]
  simp only [ge_iff_le, if_neg (Nat.not_le.2 hn)]
  have hcut := truncBlocks_spec (E := E) ((n + BSIZE - 1) % 2 ^ 32 / BSIZE) h.shed.shrunk
  simp only [wp_bind] at hcut ⊢
  apply hcut.mono
  intro _ s₁ h₁
  apply h₁.mono
  intro _ s₂ h₂
  apply h₂.mono
  rintro _ s₃ ⟨h₃, hc, htrim⟩
  rw [← wp_bind, wp_setSize_iupdate]
  exact ⟨s₃, h₃, hc, htrim, rfl⟩

end OopsOS
