import OopsOS.BlockMap

namespace OopsOS
set_option autoImplicit true
open Function

variable {s s₁ s' s'' : FsState} {O P : Multiset Nat} {M : Set Nat} {A b bn : Nat} {k : Slot}
  {Q : Unit → FsState → Prop}

/-- What an operation on inode `A` leaves alone: the blocks of resting files and other inodes. -/
structure Frame (O : Multiset Nat) (A : Nat) (s s' : FsState) : Prop where
  blocks : ∀ x ∈ O, s'.blocks x = s.blocks x
  dinode : ∀ i < sb.ninodes, i ≠ A → dinodeOf s'.blocks i = dinodeOf s.blocks i
  inode : ∀ i, i ≠ A → s'.inode i = s.inode i
  valid : ∀ i, i ≠ A → s'.valid i = s.valid i

theorem Frame.refl (O : Multiset Nat) (A : Nat) (s : FsState) : Frame O A s s :=
  ⟨fun _ _ => rfl, fun _ _ _ => rfl, fun _ _ => rfl, fun _ _ => rfl⟩

theorem Frame.trans (h : Frame O A s s') (h' : Frame O A s' s'') : Frame O A s s'' :=
  ⟨fun x hx => (h'.blocks x hx).trans (h.blocks x hx),
    fun i hi hne => (h'.dinode i hi hne).trans (h.dinode i hi hne),
    fun i hne => (h'.inode i hne).trans (h.inode i hne),
    fun i hne => (h'.valid i hne).trans (h.valid i hne)⟩

theorem Step.dinode (h : Step A (Free O) s s') (hi : i < sb.ninodes) :
    dinodeOf s'.blocks i = dinodeOf s.blocks i := by
  rw [dinodeOf, h.blocks _ (not_isMap_IBLOCK hi) (fun hx => hx.1.ne_IBLOCK hi rfl), dinodeOf]

theorem Step.frame (h : Step A (Free O) s s') (hO : ∀ x ∈ O, DataBlock x) : Frame O A s s' :=
  ⟨fun x hx => h.blocks x (hO x hx).not_isMap fun hf => hf.2 hx, fun _ hi _ => h.dinode hi,
    h.others, fun i _ => congrFun h.valid i⟩

theorem FileInv.data_other (h : FileInv O M A P s) (x : Nat) (hx : x ∈ O) : DataBlock x :=
  h.acct.mem x (Multiset.mem_add.2 (.inl hx))

def Synced (s : FsState) (A : Nat) : Prop := dinodeOf s.blocks A = s.inode A

def FsState.saved (s : FsState) (A : Nat) (ip : Inode) : FsState :=
  { s with
    blocks := update s.blocks (IBLOCK A) (putDinode (s.blocks (IBLOCK A)) (A % IPB) ip)
    inode := update s.inode A ip
    logged := IBLOCK A :: s.logged }

theorem wp_iupdate : wp E (iupdate A) s Q ↔ Q () (s.saved A (s.inode A)) := by
  rw [FsState.saved, update_eq_self]
  exact Iff.rfl

theorem wp_setSize : wp E (setSize A n) s Q ↔
    Q () { s with inode := update s.inode A { s.inode A with size := UInt32.ofNat n } } :=
  Iff.rfl

theorem FsState.saved_modified (s : FsState) (A : Nat) (ip ip' : Inode) :
    FsState.saved { s with inode := update s.inode A ip } A ip' = s.saved A ip' := by
  rw [saved, saved, update_idem]

theorem wp_setSize_iupdate : wp E (do setSize A n; iupdate A) s Q ↔
      Q () (s.saved A { s.inode A with size := UInt32.ofNat n }) := by
  simp only [wp_bind, wp_setSize, wp_iupdate, FsState.saved_modified, update_self]

theorem FsState.saved_block (s : FsState) (ip : Inode) (hx : x ≠ IBLOCK A) :
    (s.saved A ip).blocks x = s.blocks x := update_of_ne hx ..

theorem FsState.saved_self (s : FsState) (A : Nat) (ip : Inode) :
    (s.saved A ip).blocks (IBLOCK A) = putDinode (s.blocks (IBLOCK A)) (A % IPB) ip :=
  update_self ..

theorem FsState.saved_inode (s : FsState) (A : Nat) (ip : Inode) :
    (s.saved A ip).inode A = ip := update_self ..

theorem FsState.saved_synced (s : FsState) (A : Nat) (ip : Inode) : Synced (s.saved A ip) A := by
  rw [Synced, saved_inode, dinodeOf, saved_self, getDinode_putDinode]

theorem FsState.saved_frame (s : FsState) (ip : Inode) (hA : A < sb.ninodes)
    (hO : ∀ x ∈ O, DataBlock x) : Frame O A s (s.saved A ip) := by
  refine ⟨fun x hx => ?_, fun i hi hne => ?_, fun i hne => ?_, fun _ _ => rfl⟩
  · exact s.saved_block ip ((hO x hx).ne_IBLOCK hA)
  · by_cases he : IBLOCK i = IBLOCK A
    · have hmod : i % IPB ≠ A % IPB := by
        rw [IBLOCK_eq, IBLOCK_eq] at he
        change i % 16 ≠ A % 16
        omega
      rw [dinodeOf, dinodeOf, he, saved_self, getDinode_putDinode_ne _ _ hmod]
    · rw [dinodeOf, s.saved_block ip he, dinodeOf]
  · exact update_of_ne hne ..

theorem FileInv.saved (h : FileInv O M A P s) (hA : A < sb.ninodes) (ip : Inode)
    (ha : ip.addrs = (s.inode A).addrs) :
    FileInv O M A P (s.saved A ip) ∧ (s.saved A ip).ptrs A = s.ptrs A ∧
      SameData A s (s.saved A ip) := by
  have hblock (k : Slot) (hk : s.ptrs A k ≠ 0) :
      (s.saved A ip).blocks (s.ptrs A k) = s.blocks (s.ptrs A k) :=
    s.saved_block ip ((h.data_ptr hk).ne_IBLOCK hA)
  have hptrs : (s.saved A ip).ptrs A = s.ptrs A := by
    apply ptr_congr
    · rw [s.saved_inode, ha]
    · exact fun k _ hk => hblock k hk
  refine ⟨⟨h.valid, ?_, hptrs ▸ h.once, hptrs ▸ h.apart, h.sub⟩, hptrs, fun k _ => ?_⟩
  · rw [hptrs]
    refine h.acct.congr (fun x hx => s.saved_block ip ?_) rfl
    rintro rfl
    exact not_isMap_IBLOCK hA hx
  · exact FsState.data_congr (congrFun hptrs k) (hblock k)

/-- What operations on inode `A` guarantee: the invariant, the other files and the type. -/
structure Done (O : Multiset Nat) (M : Set Nat) (A : Nat) (s s' : FsState) : Prop where
  inv : FileInv O M A 0 s'
  frame : Frame O A s s'
  iref : s'.iref = s.iref
  type : (s'.inode A).type = (s.inode A).type

theorem Done.refl (h : FileInv O M A 0 s) : Done O M A s s :=
  ⟨h, .refl _ _ _, rfl, rfl⟩

theorem Done.trans (h : Done O M A s s') (h' : Done O M A s' s'') : Done O M A s s'' :=
  ⟨h'.inv, h.frame.trans h'.frame, h'.iref.trans h.iref, h'.type.trans h.type⟩

theorem FileInv.done (h' : FileInv O M A 0 s') (h : Step A (Free O) s s') : Done O M A s s' :=
  ⟨h', h.frame h'.data_other, h.iref, h.inode.type⟩

theorem FileInv.saved_done (h : FileInv O M A 0 s) (hA : A < sb.ninodes) (ip : Inode)
    (ha : ip.addrs = (s.inode A).addrs) (ht : ip.type = (s.inode A).type) :
    Done O M A s (s.saved A ip) :=
  ⟨(h.saved hA ip ha).1, s.saved_frame ip hA h.data_other, rfl, (s.saved_inode A ip).symm ▸ ht⟩

/-- An operation may leave the inode to a later `iupdate` only if nothing in it changed. -/
structure Stored (O : Multiset Nat) (M : Set Nat) (A : Nat) (s s' : FsState) : Prop where
  done : Done O M A s s'
  synced : Synced s A → Synced s' A

theorem Stored.of_unchanged (h : FileInv O M A 0 s') (hstep : Step A (Free O) s s')
    (hA : A < sb.ninodes) (hi : s'.inode A = s.inode A) : Stored O M A s s' := by
  refine ⟨h.done hstep, fun hs => ?_⟩
  rw [Synced, hstep.dinode hA, hi]
  exact hs

theorem Stored.of_saved (h : Done O M A s s₁) (hA : A < sb.ninodes) (ip : Inode)
    (ha : ip.addrs = (s₁.inode A).addrs) (ht : ip.type = (s₁.inode A).type) :
    Stored O M A s (s₁.saved A ip) :=
  ⟨h.trans (h.inv.saved_done hA ip ha ht), fun _ => s₁.saved_synced A ip⟩

theorem Stored.trans (h : Stored O M A s s') (h' : Stored O M A s' s'') : Stored O M A s s'' :=
  ⟨h.done.trans h'.done, fun hs => h'.synced (h.synced hs)⟩

variable {x y : Nat} {k' p : Slot} {D D' G G' K K' : Set Slot} {v w : Slot → Nat}

open Classical in
noncomputable def live (D : Set Slot) : Finset Slot := slots.filter (· ∉ D)

theorem mem_live : k ∈ live D ↔ k.Ok ∧ k ∉ D := by
  simp only [live, Finset.mem_filter, mem_slots]

/-- The pointers of a file lead to data blocks, and its index blocks are its own. -/
structure Private (O : Multiset Nat) (M : Set Nat) (v : Slot → Nat) : Prop where
  data : ∀ k, v k ≠ 0 → DataBlock (v k) ∧ v k ∉ M
  index : ∀ k, k.index = true → v k ≠ 0 → v k ∉ O ∧ ∀ k', v k' = v k → k' = k

theorem Private.mono (h : Private O M v) (hw : ∀ k, w k ≠ 0 → w k = v k) : Private O M w := by
  refine ⟨fun k hk => ?_, fun k hi hk => ?_⟩
  · have he := hw k hk
    rw [he] at hk ⊢
    exact h.data k hk
  · have he := hw k hk
    have hk' := hk
    rw [he] at hk'
    refine ⟨he ▸ (h.index k hi hk').1, fun k' e => (h.index k hi hk').2 k' ?_⟩
    rw [← he, ← e]
    exact (hw k' (e ▸ hk)).symm

/-- The file `A` while it sheds blocks: those of the slots in `D` are freed already. -/
structure Shed (O : Multiset Nat) (M : Set Nat) (A : Nat) (D : Set Slot) (s : FsState) : Prop where
  valid : s.valid A = true
  acct : Acct s O (values (live D) (s.ptrs A))
  own : Private O M (s.ptrs A)
  sub : ∀ x ∈ M, x ∈ O

theorem Shed.change (h : Shed O M A D s) (hD : ∀ k, s.ptrs A k ≠ 0 → (k ∈ D ↔ k ∈ D')) :
    Shed O M A D' s := by
  refine ⟨h.valid, ?_, h.own, h.sub⟩
  rw [← values_eq_of_support]
  · exact h.acct
  · intro k hk
    rw [mem_live, mem_live, hD k hk]

theorem FileInv.shed (h : FileInv O M A 0 s) : Shed O M A ∅ s := by
  refine ⟨h.valid, ?_, ⟨fun k hk => ⟨h.data_ptr hk, h.apart _ (h.mem_own hk)⟩, fun k hi hk =>
    ⟨h.index_not_mem hi hk, fun k' he => h.index_inj hi hk he⟩⟩, h.sub⟩
  have hacct := h.acct
  rw [zero_add] at hacct
  rw [values_eq_of_support]
  · exact hacct
  · intro k _
    rw [mem_live, mem_slots]
    exact and_iff_left (Set.notMem_empty k)

theorem Shed.inv (h : Shed O M A ∅ s) : FileInv O M A 0 s := by
  have hlive : values (live ∅) (s.ptrs A) = values slots (s.ptrs A) := by
    apply values_eq_of_support
    intro k _
    rw [mem_live, mem_slots]
    exact and_iff_left (Set.notMem_empty k)
  refine ⟨h.valid, ?_, ?_, ?_, h.sub⟩
  · rw [zero_add, ← hlive]
    exact h.acct
  · intro k hi hk
    obtain ⟨hO, huniq⟩ := h.own.index k hi hk
    rw [zero_add, Multiset.count_add, Multiset.count_eq_zero.2 hO,
      count_values_eq_one (mem_slots.2 (Slot.ok_of_ptr hk)) hk fun k' _ => huniq k']
  · intro x hx
    rw [zero_add, mem_values] at hx
    obtain ⟨h0, k, -, rfl⟩ := hx
    exact (h.own.data k h0).2

theorem Shed.bfree (h : Shed O M A D s) (hk : s.ptrs A k ≠ 0) (hD : k ∉ D) :
    wp E (bfree (s.ptrs A k)) s fun _ s' =>
      Shed O M A (insert k D) s' ∧ Keeps ∅ s s' ∧ s'.ptrs A = s.ptrs A := by
  have hlive : k ∈ live D := mem_live.2 ⟨Slot.ok_of_ptr hk, hD⟩
  apply (bfree_spec h.acct (mem_values.2 ⟨hk, k, hlive, rfl⟩)).mono
  rintro _ s' ⟨hacct, hkeep, -⟩
  have hptrs : s'.ptrs A = s.ptrs A := by
    refine hkeep.ptrs (fun x hx => ?_) (fun _ _ => Set.notMem_empty _)
    obtain ⟨h0, k', -, rfl⟩ := mem_values.1 hx
    exact (h.own.data k' h0).1
  refine ⟨⟨hkeep.valid ▸ h.valid, ?_, hptrs ▸ h.own, h.sub⟩, hkeep, hptrs⟩
  rw [hptrs]
  have he : values (live (insert k D)) (s.ptrs A) = values ((live D).erase k) (s.ptrs A) := by
    apply values_eq_of_support
    intro k' _
    rw [Finset.mem_erase, mem_live, mem_live, Set.mem_insert_iff, not_or]
    tauto
  rw [he]
  rw [values_erase hlive, nonzero_of_ne hk, Multiset.singleton_add,
    Multiset.erase_cons_head] at hacct
  exact hacct

theorem Shed.clear (h : Shed O M A D s) (hk : k.Ok)
    (hp : ∀ p, k.parent = some p → s.ptrs A p ≠ 0)
    (hD : ∀ k', k ∈ k'.path → s.ptrs A k' ≠ 0 → k' ∈ D) :
    Shed O M A D (s.setPtr A (k.loc (s.ptrs A)) 0) ∧
      Step A (Free O) s (s.setPtr A (k.loc (s.ptrs A)) 0) ∧
      (∀ k', (s.setPtr A (k.loc (s.ptrs A)) 0).ptrs A k' =
        if k ∈ k'.path then 0 else s.ptrs A k') ∧
      ∀ k', k'.index = false → s.ptrs A k' ≠ 0 →
        (s.setPtr A (k.loc (s.ptrs A)) 0).blocks (s.ptrs A k') = s.blocks (s.ptrs A k') := by
  have hstep := s.setPtr_step A k (s.ptrs A) 0
  have hptrs (k' : Slot) : (s.setPtr A (k.loc (s.ptrs A)) 0).ptrs A k' =
      if k ∈ k'.path then 0 else s.ptrs A k' := by
    apply FsState.ptrs_clear hk (by omega) _ hp rfl
    intro p hpar k' _ he
    exact (h.own.index p (Slot.parent_index hpar) (hp p hpar)).2 k' he
  refine ⟨⟨hstep.valid ▸ h.valid, ?_, h.own.mono fun k' h0 => ?_, h.sub⟩, hstep.mono ?_, hptrs, ?_⟩
  · have he : values (live D) ((s.setPtr A (k.loc (s.ptrs A)) 0).ptrs A) =
        values (live D) (s.ptrs A) := by
      apply values_congr
      intro k' hk'
      rw [hptrs]
      split
      · next hu =>
        by_contra h0
        exact (mem_live.1 hk').2 (hD k' hu fun e => h0 e.symm)
      · rfl
    rw [he]
    exact h.acct.setPtr fun p hpar => (h.own.data p (hp p hpar)).1
  · rw [hptrs] at h0 ⊢
    split at h0
    · exact (h0 rfl).elim
    · next hu => rw [if_neg hu]
  · rintro x ⟨p, hpar, rfl⟩
    have hi := Slot.parent_index hpar
    exact ⟨(h.own.data p (hp p hpar)).1, (h.own.index p hi (hp p hpar)).1⟩
  · intro k' hi' h0
    apply hstep.blocks _ (h.own.data k' h0).1.not_isMap
    rintro ⟨p, hpar, e⟩
    have he := (h.own.index p (Slot.parent_index hpar) (hp p hpar)).2 k' e
    rw [he, Slot.parent_index hpar] at hi'
    cases hi'

variable {c : Slot}

/-- From `s` to `s'` the file has only lost pointers, and what is left has its contents. -/
structure Shrunk (O : Multiset Nat) (M : Set Nat) (A : Nat) (D : Set Slot) (s s' : FsState) :
    Prop where
  shed : Shed O M A D s'
  step : Step A (Free O) s s'
  less : ∀ k, s'.ptrs A k ≠ 0 → s'.ptrs A k = s.ptrs A k
  data : ∀ k, k.index = false → s'.ptrs A k ≠ 0 →
    s'.blocks (s'.ptrs A k) = s.blocks (s'.ptrs A k)

theorem Shed.shrunk (h : Shed O M A D s) : Shrunk O M A D s s :=
  ⟨h, .refl _ _ _, fun _ _ => rfl, fun _ _ _ => rfl⟩

theorem Shrunk.change (h : Shrunk O M A D s s') (hD : ∀ k, s'.ptrs A k ≠ 0 → (k ∈ D ↔ k ∈ D')) :
    Shrunk O M A D' s s' :=
  ⟨h.shed.change hD, h.step, h.less, h.data⟩

theorem Shrunk.logged (h : Shrunk O M A D s s') (l : List Nat) :
    Shrunk O M A D s { s' with logged := l } :=
  ⟨⟨h.shed.valid, h.shed.acct.congr (fun _ _ => rfl) rfl, h.shed.own, h.shed.sub⟩,
    ⟨h.step.blocks, h.step.others, h.step.inode, h.step.valid, h.step.iref⟩, h.less, h.data⟩

def under (k : Slot) : Set Slot := fun k' => k ∈ k'.path

theorem mem_under : k' ∈ under k ↔ k ∈ k'.path := Iff.rfl

theorem Shrunk.clear (h : Shrunk O M A (under k) s s₁) (hk : k.Ok)
    (hp : ∀ p, k.parent = some p → s₁.ptrs A p ≠ 0) :
    Shrunk O M A ∅ s (s₁.setPtr A (k.loc (s₁.ptrs A)) 0) ∧
      ∀ k', (s₁.setPtr A (k.loc (s₁.ptrs A)) 0).ptrs A k' =
        if k ∈ k'.path then 0 else s₁.ptrs A k' := by
  obtain ⟨h', hstep, hptrs, hdata⟩ := h.shed.clear hk hp fun _ hu _ => hu
  have hless (k' : Slot) (h0 : (s₁.setPtr A (k.loc (s₁.ptrs A)) 0).ptrs A k' ≠ 0) :
      k ∉ k'.path ∧ s₁.ptrs A k' ≠ 0 := by
    rw [hptrs] at h0
    split at h0
    · exact (h0 rfl).elim
    · next hu => exact ⟨hu, h0⟩
  refine ⟨⟨h'.change fun k' h0 => ?_, h.step.trans hstep, fun k' h0 => ?_, fun k' hi h0 => ?_⟩,
    hptrs⟩
  · exact iff_of_false (hless k' h0).1 (Set.notMem_empty _)
  · obtain ⟨hu, h1⟩ := hless k' h0
    rw [hptrs, if_neg hu, h.less k' h1]
  · obtain ⟨hu, h1⟩ := hless k' h0
    rw [hptrs, if_neg hu, hdata k' hi h1, h.data k' hi h1]

theorem FsState.getWord_ptrs (hi : k.index = true) (hk : s.ptrs A k ≠ 0)
    (hj : j < NADDR_PER_BLOCK) : getWord (s.blocks (s.ptrs A k)) j = s.ptrs A (k.child j) := by
  have he : s.ptrs A (k.child j) = entryAt s.blocks (s.ptrs A k) (k.child j).pos :=
    ptr_child _ _ (Slot.parent_child hi j)
  rw [he, Slot.pos_child hi, entryAt_of_ne _ hk hj]

def Slot.Lowest (k : Slot) : Prop := k = .single ∨ ∃ i, k = .second i

theorem Slot.Lowest.index (h : Lowest k) : k.index = true := by
  rcases h with rfl | ⟨i, rfl⟩ <;> rfl

theorem Slot.Lowest.mem_under (h : Lowest k) : c ∈ under k ↔ c.parent = some k ∨ c = k := by
  rw [OopsOS.mem_under]
  rcases h with rfl | ⟨i, rfl⟩ <;> cases c <;> simp [path, Slot.parent, eq_comm]

theorem Slot.Lowest.child_index (h : Lowest k) (hc : c.parent = some k) : c.index = false := by
  rcases h with rfl | ⟨i, rfl⟩ <;> cases c <;> cases hc <;> rfl

theorem under_child (hi : k.index = true) : c ∈ under k ∧ c ≠ k ↔ ∃ j, c ∈ under (k.child j) := by
  simp only [mem_under]
  cases k <;> cases hi <;> cases c <;> simp [Slot.path, Slot.child, eq_comm]

theorem under_child_inj (hi : k.index = true) (hj : c ∈ under (k.child j))
    (hj' : c ∈ under (k.child j')) : j = j' := by
  rw [mem_under] at hj hj'
  cases k <;> cases hi <;> cases c <;> simp [Slot.path, Slot.child] at hj hj' <;> omega

section
variable (h : Shrunk O M A D s s₁)
include h

theorem Shrunk.trans (h' : Shrunk O M A D' s₁ s') : Shrunk O M A D' s s' := by
  refine ⟨h'.shed, h.step.trans h'.step, fun k hk => ?_, fun k hi hk => ?_⟩
  · have he := h'.less k hk
    rw [he, h.less k (he ▸ hk)]
  · have he := h'.less k hk
    rw [h'.data k hi hk, he, h.data k hi (he ▸ hk)]

theorem Shrunk.bfree (hk : s₁.ptrs A k ≠ 0) (hD : k ∉ D) : wp E (bfree (s₁.ptrs A k)) s₁ fun _ s' =>
      Shrunk O M A (insert k D) s s' ∧ s'.ptrs A = s₁.ptrs A := by
  apply (h.shed.bfree hk hD).mono
  rintro _ s' ⟨h', hkeep, hptrs⟩
  refine ⟨⟨h', h.step.trans (hkeep.step.mono (Set.empty_subset _)), hptrs ▸ h.less, ?_⟩, hptrs⟩
  intro k' hi hk'
  rw [hptrs] at hk' ⊢
  rw [hkeep.data (h.shed.own.data k' hk').1 (Set.notMem_empty _), h.data k' hi hk']

theorem freePtr_spec (hi : k.index = false) (hD : k ∉ D) :
    wp E (freePtr (s₁.ptrs A k)) s₁ fun _ s' =>
      Shrunk O M A (D ∪ under k) s s' ∧ s'.ptrs A = s₁.ptrs A := by
  have hleaf : D ∪ under k = insert k D := by
    ext k'
    rw [Set.mem_union, mem_under, Slot.leaf_mem_path hi, or_comm, Set.mem_insert_iff]
  rw [hleaf, freePtr]
  by_cases hk : s₁.ptrs A k = 0
  · rw [if_neg (not_not.2 hk), wp_pure]
    refine ⟨h.change fun k' hk' => ?_, rfl⟩
    have hne : k' ≠ k := fun e => hk' (e ▸ hk)
    rw [Set.mem_insert_iff, or_iff_right hne]
  · rw [if_pos hk]
    exact h.bfree hk hD

/-- The code frees what hangs at the entries of an index block, and then the block. -/
theorem freeIndex_spec {free : Nat → FsM Unit} (hi : k.index = true)
    (hk : s₁.ptrs A k ≠ 0) (hD : ∀ c ∈ under k, c ∉ D)
    (hfree : ∀ j D' s₂, Shrunk O M A D' s s₂ → (∀ c ∈ under (k.child j), c ∉ D') →
      wp E (free (s₂.ptrs A (k.child j))) s₂ fun _ s' =>
        Shrunk O M A (D' ∪ under (k.child j)) s s' ∧ s'.ptrs A = s₂.ptrs A) :
    wp E (do
      loop 0 NADDR_PER_BLOCK () fun j _ => do
        let bp ← bread (s₁.ptrs A k)
        free (getWord bp j)
      bfree (s₁.ptrs A k)) s₁ fun _ s' =>
      Shrunk O M A (D ∪ under k) s s' ∧ s'.ptrs A = s₁.ptrs A := by
  refine wp.bind (wp_loop (fun j _ s' =>
    Shrunk O M A (D ∪ { c | ∃ i < j, c ∈ under (k.child i) }) s s' ∧ s'.ptrs A = s₁.ptrs A) ?_ ?_)
      ?_
  · refine ⟨h.change fun c _ => (or_iff_left ?_).symm, rfl⟩
    rintro ⟨i, hlt, -⟩
    exact Nat.not_lt_zero i hlt
  · rintro j _ s₂ - hj ⟨h₂, hptrs⟩
    rw [Nat.zero_add] at hj
    rw [← hptrs] at hk ⊢
    rw [wp_bind, wp_bread, FsState.getWord_ptrs hi hk hj]
    apply (hfree j _ s₂ h₂ fun c hc => ?_).mono
    · rintro _ s₃ ⟨h₃, hptrs₃⟩
      refine ⟨h₃.change fun c _ => ?_, hptrs₃⟩
      simp only [Set.mem_union, Set.mem_ofPred_eq, Nat.exists_lt_succ_right, or_assoc]
    · rintro (hc' | ⟨i, hlt, hc'⟩)
      · exact hD c ((under_child hi).2 ⟨j, hc⟩).1 hc'
      · exact Nat.ne_of_lt hlt (under_child_inj hi hc' hc)
  · rintro _ s₂ ⟨h₂, hptrs⟩
    rw [← hptrs] at hk ⊢
    apply (h₂.bfree hk ?_).mono
    · rintro _ s₃ ⟨h₃, hptrs₃⟩
      refine ⟨h₃.change fun c hc => ?_, hptrs₃⟩
      have hlt (i : Nat) (hu : c ∈ under (k.child i)) : i < NADDR_PER_BLOCK := by
        have hok := Slot.ok_of_ptr fun h0 => hc (ptr_under_zero h0 hu)
        have hpos := hok.pos_lt (Slot.parent_child hi i)
        rwa [Slot.pos_child hi] at hpos
      by_cases he : c = k
      · subst he
        exact iff_of_true (.inl rfl) (.inr c.mem_path)
      · have hu := under_child hi (c := c)
        simp only [he, ne_eq, not_false_eq_true, and_true] at hu
        simp only [Set.mem_insert_iff, he, false_or, Set.mem_union, hu, Nat.zero_add]
        exact or_congr_right (exists_congr fun i => and_iff_right_of_imp (hlt i))
    · rintro (hc | ⟨i, -, hu⟩)
      · exact hD k k.mem_path hc
      · exact ((under_child hi).2 ⟨i, hu⟩).2 rfl

theorem freeIndirectBlock_spec (hl : k.Lowest) (hD : ∀ c ∈ under k, c ∉ D) :
    wp E (freeIndirectBlock (s₁.ptrs A k)) s₁ fun _ s' =>
      Shrunk O M A (D ∪ under k) s s' ∧ s'.ptrs A = s₁.ptrs A := by
  unfold freeIndirectBlock
  by_cases hk : s₁.ptrs A k = 0
  · rw [if_pos hk, wp_pure]
    refine ⟨h.change fun c hc => ?_, rfl⟩
    have hnot : c ∉ under k := fun hu => hc (ptr_under_zero hk hu)
    exact (or_iff_left hnot).symm
  · rw [if_neg hk]
    refine freeIndex_spec h hl.index hk hD fun j D' s₂ h₂ hD' => ?_
    exact freePtr_spec h₂ (hl.child_index (Slot.parent_child hl.index j)) (hD' _ (Slot.mem_path _))

end

theorem Shrunk.drop (h : Shrunk O M A ∅ s s₁) (hk : s₁.ptrs A k ≠ 0)
    (hbelow : ∀ c, c.parent = some k → s₁.ptrs A c = 0) :
    wp E (OopsOS.bfree (s₁.ptrs A k)) s₁ fun _ s₂ =>
      Shrunk O M A ∅ s (s₂.setPtr A (k.loc (s₁.ptrs A)) 0) ∧
        (s₂.setPtr A (k.loc (s₁.ptrs A)) 0).ptrs A = Function.update (s₁.ptrs A) k 0 := by
  have hzero (k' : Slot) (hu : k ∈ k'.path) (hne : k' ≠ k) : s₁.ptrs A k' = 0 :=
    ptr_below_zero (fun c _ hc => hbelow c hc) hu hne
  apply (h.bfree hk (Set.notMem_empty _)).mono
  rintro _ s₂ ⟨h₂, hptrs⟩
  have h₃ : Shrunk O M A (under k) s s₂ := by
    apply h₂.change
    intro k' h0
    rw [hptrs] at h0
    constructor
    · rintro (rfl | hf)
      · exact k'.mem_path
      · exact hf.elim
    · intro hu
      by_contra hne
      exact h0 (hzero k' hu fun e => hne (.inl e))
  have hp (p : Slot) (hpar : k.parent = some p) : s₂.ptrs A p ≠ 0 := by
    rw [hptrs]
    exact ptr_parent_ne_zero hpar hk
  obtain ⟨h', hclear⟩ := h₃.clear (Slot.ok_of_ptr hk) hp
  rw [hptrs] at h' hclear
  refine ⟨h', funext fun k' => ?_⟩
  rw [hclear, Function.update_apply]
  by_cases he : k' = k
  · rw [if_pos he, if_pos (he ▸ k'.mem_path)]
  · rw [if_neg he]
    split
    · next hu => exact (hzero k' hu he).symm
    · rfl

end OopsOS
