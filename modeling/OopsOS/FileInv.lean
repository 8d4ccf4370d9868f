import OopsOS.Accounting
import OopsOS.FileOps
import OopsOS.Slots

namespace OopsOS
set_option autoImplicit true
open Function

variable {s s' s'' : FsState} {O own : Multiset Nat} {M : Set Nat} {A b x y : Nat} {k k' p : Slot}

def FsState.ptrs (s : FsState) (A : Nat) : Slot → Nat := ptr s.blocks (s.inode A)

def FsState.data (s : FsState) (A : Nat) (k : Slot) : Bytes := blockData s.blocks (s.ptrs A k)

def Free (O : Multiset Nat) : Set Nat := fun x => DataBlock x ∧ x ∉ O

def SameMeta (ip ip' : Inode) : Prop := { ip' with addrs := ip.addrs } = ip

/-- The step changes only the allocator, the blocks in `X` and addresses of inode `A`. -/
structure Step (A : Nat) (X : Set Nat) (s s' : FsState) : Prop where
  blocks : ∀ x, ¬ IsMap x → x ∉ X → s'.blocks x = s.blocks x
  others : ∀ i, i ≠ A → s'.inode i = s.inode i
  inode : SameMeta (s.inode A) (s'.inode A)
  valid : s'.valid = s.valid
  iref : s'.iref = s.iref

section
variable (h : SameMeta ip ip')
include h

theorem SameMeta.trans (h' : SameMeta ip' ip'') : SameMeta ip ip'' := by
  have he := congrArg (fun i : Inode => { i with addrs := ip.addrs }) h'
  exact he.trans h

theorem SameMeta.type : ip'.type = ip.type := by
  unfold SameMeta at h
  rw [← h]

theorem SameMeta.nlink : ip'.nlink = ip.nlink := by
  unfold SameMeta at h
  rw [← h]

theorem SameMeta.mode : ip'.mode = ip.mode := by
  unfold SameMeta at h
  rw [← h]

theorem SameMeta.size : ip'.size = ip.size := by
  unfold SameMeta at h
  rw [← h]

end

theorem Step.refl (A : Nat) (X : Set Nat) (s : FsState) : Step A X s s :=
  ⟨fun _ _ _ => rfl, fun _ _ => rfl, rfl, rfl, rfl⟩

theorem Step.trans (h : Step A X s s') (h' : Step A X s' s'') : Step A X s s'' :=
  ⟨fun x hm hx => (h'.blocks x hm hx).trans (h.blocks x hm hx),
    fun i hi => (h'.others i hi).trans (h.others i hi), h.inode.trans h'.inode,
    h'.valid.trans h.valid, h'.iref.trans h.iref⟩

theorem Step.mono (h : Step A X s s') (hX : X ⊆ Y) : Step A Y s s' :=
  ⟨fun x hm hx => h.blocks x hm (fun hx' => hx (hX hx')), h.others, h.inode, h.valid, h.iref⟩

theorem Keeps.step (h : Keeps X s s') : Step A X s s' :=
  ⟨h.blocks, fun i _ => congrFun h.inode i, by rw [h.inode]; rfl, h.valid, h.iref⟩

theorem Keeps.ptrs (h : Keeps X s s') (hd : ∀ x ∈ values slots (s.ptrs A), DataBlock x)
    (hX : ∀ x ∈ values slots (s.ptrs A), x ∉ X) : s'.ptrs A = s.ptrs A := by
  apply ptr_congr
  · rw [h.inode]
  · intro k _ hk
    have hm : ptr s.blocks (s.inode A) k ∈ values slots (s.ptrs A) :=
      mem_values.2 ⟨hk, k, mem_slots.2 (Slot.ok_of_ptr hk), rfl⟩
    exact h.data (hd _ hm) (hX _ hm)

theorem mem_ptrs (hk : s.ptrs A k ≠ 0) : s.ptrs A k ∈ values slots (s.ptrs A) :=
  mem_values.2 ⟨hk, k, mem_slots.2 (Slot.ok_of_ptr hk), rfl⟩

/-- File `A` during an operation, with the pointers `O` and index blocks `M` of the others and the
references `P` in hand. -/
structure FileInv (O : Multiset Nat) (M : Set Nat) (A : Nat) (P : Multiset Nat) (s : FsState) :
    Prop where
  valid : s.valid A = true
  acct : Acct s O (P + values slots (s.ptrs A))
  once : ∀ k, k.index = true → s.ptrs A k ≠ 0 →
    (O + (P + values slots (s.ptrs A))).count (s.ptrs A k) = 1
  apart : ∀ x ∈ P + values slots (s.ptrs A), x ∉ M
  sub : ∀ x ∈ M, x ∈ O

theorem FileInv.mem_own (_ : FileInv O M A P s) (hk : s.ptrs A k ≠ 0) :
    s.ptrs A k ∈ P + values slots (s.ptrs A) :=
  Multiset.mem_add.2 (.inr (mem_ptrs hk))

section
variable (h : FileInv O M A P s)
include h

theorem FileInv.data_ptr (hk : s.ptrs A k ≠ 0) : DataBlock (s.ptrs A k) :=
  h.acct.mem _ (Multiset.mem_add.2 (.inr (h.mem_own hk)))

section
variable (hi : k.index = true)
include hi

section
variable (hk : s.ptrs A k ≠ 0)
include hk

theorem FileInv.index_count : O.count (s.ptrs A k) = 0 ∧ P.count (s.ptrs A k) = 0 ∧
      (values slots (s.ptrs A)).count (s.ptrs A k) = 1 := by
  have h1 := h.once k hi hk
  have h2 := Multiset.count_pos.2 (mem_ptrs hk)
  rw [Multiset.count_add, Multiset.count_add] at h1
  omega

theorem FileInv.index_not_mem : s.ptrs A k ∉ O :=
  Multiset.count_eq_zero.1 (h.index_count hi hk).1

theorem FileInv.index_not_held : s.ptrs A k ∉ P :=
  Multiset.count_eq_zero.1 (h.index_count hi hk).2.1

theorem FileInv.index_inj (he : s.ptrs A k' = s.ptrs A k) : k' = k := by
  have hk' : s.ptrs A k' ≠ 0 := he ▸ hk
  exact eq_of_count_le_one (Nat.le_of_eq (h.index_count hi hk).2.2) hk
    (mem_slots.2 (Slot.ok_of_ptr hk')) he (mem_slots.2 (Slot.ok_of_ptr hk)) rfl

theorem FileInv.leaf_ne_index (hi' : k'.index = false) : s.ptrs A k' ≠ s.ptrs A k := by
  intro he
  rw [h.index_inj hi hk he, hi] at hi'
  cases hi'

theorem FileInv.free_index : s.ptrs A k ∈ Free O := ⟨h.data_ptr hk, h.index_not_mem hi hk⟩

end

end

theorem FileInv.perm (he : P = P') : FileInv O M A P' s := he ▸ h

end

def FsState.setPtr (s : FsState) (A : Nat) (l : Loc) (y : Nat) : FsState :=
  match l with
  | .addr i => { s with inode := update s.inode A ((s.inode A).setAddr i y) }
  | .entry x j =>
    { s with
      blocks := update s.blocks x (setWord (s.blocks x) j y)
      logged := x :: s.logged }

theorem wp_setPtr {Q : Unit → FsState → Prop} (l : Loc) :
    wp E (setPtr A l y) s Q ↔ Q () (s.setPtr A l y) := by
  cases l <;> exact Iff.rfl

theorem wp_getPtr {Q : Nat → FsState → Prop} (hk : k.Ok)
    (hp : ∀ p, k.parent = some p → s.ptrs A p ≠ 0) :
    wp E (getPtr A (k.loc (s.ptrs A))) s Q ↔ Q (s.ptrs A k) s := by
  unfold Slot.loc
  cases h : k.parent with
  | none =>
    change Q ((s.inode A).addr k.pos) s ↔ _
    rw [FsState.ptrs, ptr_root _ _ hk h]
  | some p =>
    change Q (getWord (s.blocks (s.ptrs A p)) k.pos) s ↔ _
    have he : s.ptrs A k = entryAt s.blocks (s.ptrs A p) k.pos := ptr_child _ _ h
    rw [he, entryAt_of_ne _ (hp p h) (hk.pos_lt h)]

section SetPtr

variable (hk : k.Ok) (hy : y < 2 ^ 32)
  (hpar : ∀ p, k.parent = some p → ∀ k', k'.index = true → s.ptrs A k' = s.ptrs A p → k' = p)
include hk hy hpar

theorem FsState.addr_setPtr (hk' : k'.Ok) (h' : k'.parent = none) :
    ((s.setPtr A (k.loc (s.ptrs A)) y).inode A).addr k'.pos =
      if k' = k then y else (s.inode A).addr k'.pos := by
  unfold Slot.loc
  cases h : k.parent with
  | none =>
    have he : k'.pos = k.pos ↔ k' = k :=
      ⟨Slot.eq_of_pos_root hk' hk h' h, fun e => congrArg Slot.pos e⟩
    simp only [setPtr, update_self, Inode.addr_setAddr _ (hk.pos_lt_addrs h) hy, he]
  | some p =>
    have hne : k' ≠ k := by
      rintro rfl
      rw [h'] at h
      cases h
    simp only [setPtr, if_neg hne]

theorem FsState.entry_setPtr (h' : k'.parent = some p) :
    getWord ((s.setPtr A (k.loc (s.ptrs A)) y).blocks (s.ptrs A p)) k'.pos =
      if k' = k then y else getWord (s.blocks (s.ptrs A p)) k'.pos := by
  unfold Slot.loc
  cases h : k.parent with
  | none =>
    have hne : k' ≠ k := by
      rintro rfl
      rw [h'] at h
      cases h
    simp only [setPtr, if_neg hne]
  | some q =>
    by_cases he : p = q
    · subst he
      have hpos : k'.pos = k.pos ↔ k' = k := ⟨Slot.eq_of_pos h' h, fun e => congrArg Slot.pos e⟩
      simp only [setPtr, update_self, getWord_setWord_eq _ _ _ hy, hpos]
    · have hx : s.ptrs A p ≠ s.ptrs A q := fun e => he (hpar q h p (Slot.parent_index h') e)
      have hne : k' ≠ k := by
        rintro rfl
        rw [h'] at h
        exact he (Option.some.inj h)
      simp only [setPtr, update_of_ne hx, if_neg hne]

theorem FsState.ptrs_setPtr (hp : ∀ p, k.parent = some p → s.ptrs A p ≠ 0)
    (hbelow : ∀ c, c.Ok → c.parent = some k → s.ptrs A c = 0 ∧
      (y = 0 ∨ s.blocks y = zeroBytes ∧ ∀ p, k.parent = some p → y ≠ s.ptrs A p)) :
    (s.setPtr A (k.loc (s.ptrs A)) y).ptrs A = update (s.ptrs A) k y := by
  apply ptr_update (fun k' => addr_setPtr hk hy hpar) _ hk hp
  · intro c hc h'
    obtain ⟨h0, hz⟩ := hbelow c hc h'
    refine ⟨h0, hz.imp_right fun ⟨hz, hne⟩ => ?_⟩
    unfold Slot.loc
    cases h : k.parent with
    | none =>
      simp only [setPtr, hz]
      exact getWord_zeroBytes _
    | some p =>
      simp only [setPtr, update_of_ne (hne p h), hz]
      exact getWord_zeroBytes _
  · intro k' p _ h' _ _
    exact entry_setPtr hk hy hpar h'

theorem FsState.ptrs_clear (hp : ∀ p, k.parent = some p → s.ptrs A p ≠ 0) (h0 : y = 0) :
    (s.setPtr A (k.loc (s.ptrs A)) y).ptrs A k' = if k ∈ k'.path then 0 else s.ptrs A k' := by
  have hentry (k' p : Slot) (_ : k'.Ok) (h' : k'.parent = some p) (_ : k ∉ p.path)
      (_ : s.ptrs A p ≠ 0) := entry_setPtr (p := p) hk hy hpar h'
  split
  · next hu =>
    apply ptr_under_zero _ hu
    rw [ptr_store_self (fun k' => addr_setPtr hk hy hpar) hentry hk hp, h0]
  · next hu => exact ptr_store_other (fun k' => addr_setPtr hk hy hpar) hentry hu

end SetPtr

theorem FsState.setPtr_ref (s : FsState) (A : Nat) (l : Loc) (y : Nat) :
    (s.setPtr A l y).ref = s.ref := by
  cases l <;> rfl

theorem FsState.setPtr_step (s : FsState) (A : Nat) (k : Slot) (v : Slot → Nat) (y : Nat) :
    Step A (fun x => ∃ p, k.parent = some p ∧ x = v p) s (s.setPtr A (k.loc v) y) := by
  unfold Slot.loc
  cases h : k.parent with
  | none =>
    refine ⟨fun _ _ _ => rfl, fun i hi => update_of_ne hi .., ?_, rfl, rfl⟩
    simp only [setPtr, update_self]
    rfl
  | some p =>
    refine ⟨fun x _ hx => ?_, fun _ _ => rfl, rfl, rfl, rfl⟩
    have hne : x ≠ v p := fun e => hx ⟨p, rfl, e⟩
    exact update_of_ne hne ..

theorem FsState.setPtr_logged (s : FsState) (A : Nat) (k : Slot) (v : Slot → Nat) (y : Nat) :
    ∀ x ∈ (s.setPtr A (k.loc v) y).logged, x ∈ s.logged ∨ ∃ p, k.parent = some p ∧ x = v p := by
  intro x hx
  unfold Slot.loc at hx
  cases h : k.parent with
  | none =>
    rw [h] at hx
    exact .inl hx
  | some p =>
    rw [h] at hx
    rcases List.mem_cons.1 hx with rfl | hx
    · exact .inr ⟨p, rfl, rfl⟩
    · exact .inl hx

theorem Acct.setPtr (h : Acct s O own) (hp : ∀ p, k.parent = some p → DataBlock (v p)) :
    Acct (s.setPtr A (k.loc v) y) O own := by
  apply h.congr _ (s.setPtr_ref A _ y)
  intro x hx
  unfold Slot.loc
  cases hk : k.parent with
  | none => rfl
  | some p =>
    have hne : x ≠ v p := fun e => (hp p hk).not_isMap (e ▸ hx)
    exact update_of_ne hne ..

def SameData (A : Nat) (s s' : FsState) : Prop :=
  ∀ k : Slot, k.index = false → s'.data A k = s.data A k

theorem SameData.refl (A : Nat) (s : FsState) : SameData A s s := fun _ _ => rfl

theorem SameData.trans (h : SameData A s s') (h' : SameData A s' s'') : SameData A s s'' :=
  fun k hk => (h' k hk).trans (h k hk)

theorem FsState.data_congr (hp : s'.ptrs A k = s.ptrs A k)
    (hb : s.ptrs A k ≠ 0 → s'.blocks (s.ptrs A k) = s.blocks (s.ptrs A k)) :
    s'.data A k = s.data A k := by
  unfold data blockData
  rw [hp]
  by_cases h : s.ptrs A k = 0
  · rw [if_pos h, if_pos h]
  · rw [if_neg h, if_neg h, hb h]

theorem FileInv.balloc (h : FileInv O M A P s) : wp OutOfBlocks balloc s fun b s' =>
    FileInv O M A (b ::ₘ P) s' ∧ Keeps {b} s s' ∧ b ∈ Free O ∧ b ∉ P + values slots (s.ptrs A) ∧
      s'.blocks b = zeroBytes ∧ s'.ptrs A = s.ptrs A ∧ SameData A s s' ∧
      s'.logged = b :: BBLOCK b :: s.logged := by
  apply (balloc_spec h.acct).mono
  rintro b s' ⟨hacct, hd, hnew, hz, hkeep, hlog⟩
  obtain ⟨hO, hown⟩ := not_or.1 (fun hm => hnew (Multiset.mem_add.2 hm))
  have hne (k : Slot) (hk : s.ptrs A k ≠ 0) : s.ptrs A k ≠ b := fun e => hown (e ▸ h.mem_own hk)
  have hptrs : s'.ptrs A = s.ptrs A := hkeep.ptrs
    (fun x hx => h.acct.mem x (Multiset.mem_add.2 (.inr (Multiset.mem_add.2 (.inr hx)))))
    (fun x hx e => hown (Multiset.mem_add.2 (.inr (e ▸ hx))))
  refine ⟨⟨hkeep.valid ▸ h.valid, ?_, ?_, ?_, h.sub⟩, hkeep, ⟨hd, hO⟩, hown, hz, hptrs, ?_, hlog⟩
  · rw [hptrs, Multiset.cons_add]
    exact hacct
  · intro k hi hk
    rw [hptrs] at hk ⊢
    rw [Multiset.cons_add, Multiset.add_cons, Multiset.count_cons_of_ne (hne k hk), h.once k hi hk]
  · intro x hx hM
    rw [hptrs, Multiset.cons_add, Multiset.mem_cons] at hx
    rcases hx with rfl | hx
    · exact hO (h.sub _ hM)
    · exact h.apart x hx hM
  · intro k _
    exact FsState.data_congr (congrFun hptrs k) fun hk => hkeep.data (h.data_ptr hk) (hne k hk)

theorem FileInv.bfree (h : FileInv O M A (b ::ₘ P) s) : wp OutOfBlocks (bfree b) s fun _ s' =>
    FileInv O M A P s' ∧ Keeps ∅ s s' ∧ s'.ptrs A = s.ptrs A ∧ SameData A s s' ∧
      ∀ x ∈ s'.logged, x ∈ s.logged ∨ s.ref b = 1 ∧ x = BBLOCK b := by
  have hb : b ∈ b ::ₘ P + values slots (s.ptrs A) :=
    Multiset.mem_add.2 (.inl (Multiset.mem_cons_self b P))
  apply (bfree_spec h.acct hb).mono
  rintro _ s' ⟨hacct, hkeep, hlog⟩
  have hptrs : s'.ptrs A = s.ptrs A := hkeep.ptrs
    (fun x hx => h.acct.mem x (Multiset.mem_add.2 (.inr (Multiset.mem_add.2 (.inr hx)))))
    (fun _ _ => Set.notMem_empty _)
  rw [Multiset.cons_add, Multiset.erase_cons_head] at hacct
  refine ⟨⟨hkeep.valid ▸ h.valid, hptrs ▸ hacct, ?_, ?_, h.sub⟩, hkeep, hptrs, ?_, hlog⟩
  · intro k hi hk
    rw [hptrs] at hk ⊢
    obtain ⟨h1, h2, h3⟩ := h.index_count hi hk
    have h4 : P.count (s.ptrs A k) ≤ (b ::ₘ P).count (s.ptrs A k) := Multiset.count_le_count_cons ..
    rw [Multiset.count_add, Multiset.count_add]
    omega
  · intro x hx
    rw [hptrs] at hx
    exact h.apart x (by rw [Multiset.cons_add]; exact Multiset.mem_cons_of_mem hx)
  · intro k _
    exact FsState.data_congr (congrFun hptrs k) fun hk =>
      hkeep.data (h.data_ptr hk) (Set.notMem_empty _)

theorem FileInv.brefInc (h : FileInv O M A P s) (hO : b ∈ O) (hM : b ∉ M) :
    wp OutOfBlocks (brefInc b) s fun _ s' =>
      FileInv O M A (b ::ₘ P) s' ∧ Keeps ∅ s s' ∧ s'.ptrs A = s.ptrs A ∧ SameData A s s' := by
  apply (brefInc_spec h.acct (Multiset.mem_add.2 (.inl hO))).mono
  rintro _ s' ⟨hacct, hblocks, hkeep⟩
  have hptrs : s'.ptrs A = s.ptrs A := by
    unfold FsState.ptrs
    rw [hblocks, hkeep.inode]
  refine ⟨⟨hkeep.valid ▸ h.valid, ?_, ?_, ?_, h.sub⟩, hkeep, hptrs, ?_⟩
  · rw [hptrs, Multiset.cons_add]
    exact hacct
  · intro k hi hk
    rw [hptrs] at hk ⊢
    have hne : s.ptrs A k ≠ b := fun e => h.index_not_mem hi hk (e ▸ hO)
    rw [Multiset.cons_add, Multiset.add_cons, Multiset.count_cons_of_ne hne, h.once k hi hk]
  · intro x hx
    rw [hptrs, Multiset.cons_add, Multiset.mem_cons] at hx
    rcases hx with rfl | hx
    · exact hM
    · exact h.apart x hx
  · intro k _
    exact FsState.data_congr (congrFun hptrs k) fun _ => by rw [hblocks]

theorem FileInv.setPtr (h : FileInv O M A (nonzero y + P) s) (hk : k.Ok)
    (hp : ∀ p, k.parent = some p → s.ptrs A p ≠ 0)
    (hbelow : k.index = true → (∀ c, c.parent = some k → s.ptrs A c = 0) ∧
      (y ≠ 0 → s.blocks y = zeroBytes ∧
        (O + (nonzero y + P + values slots (s.ptrs A))).count y = 1)) :
    FileInv O M A (nonzero (s.ptrs A k) + P) (s.setPtr A (k.loc (s.ptrs A)) y) ∧
      (s.setPtr A (k.loc (s.ptrs A)) y).ptrs A = update (s.ptrs A) k y ∧
      Step A (Free O) s (s.setPtr A (k.loc (s.ptrs A)) y) ∧
      (∀ k', k'.index = false → k' ≠ k →
        (s.setPtr A (k.loc (s.ptrs A)) y).data A k' = s.data A k') := by
  have hmem (hy : y ≠ 0) : y ∈ nonzero y + P :=
    Multiset.mem_add.2 (.inl (mem_nonzero.2 ⟨rfl, hy⟩))
  have hlt : y < 2 ^ 32 := by
    by_cases hy : y = 0
    · omega
    · exact (h.acct.mem y (Multiset.mem_add.2 (.inr (Multiset.mem_add.2 (.inl (hmem hy)))))).lt_word
  have hup : (s.setPtr A (k.loc (s.ptrs A)) y).ptrs A = update (s.ptrs A) k y := by
    apply FsState.ptrs_setPtr hk hlt _ hp
    · intro c _ hc
      obtain ⟨h0, hz⟩ := hbelow (Slot.parent_index hc)
      refine ⟨h0 c hc, ?_⟩
      by_cases hy : y = 0
      · exact .inl hy
      · refine .inr ⟨(hz hy).1, fun p hpar e => ?_⟩
        exact h.index_not_held (Slot.parent_index hpar) (hp p hpar) (e ▸ hmem hy)
    · intro p hpar k' _ he
      exact h.index_inj (Slot.parent_index hpar) (hp p hpar) he
  have hsame : nonzero (s.ptrs A k) + P + values slots (update (s.ptrs A) k y) =
      nonzero y + P + values slots (s.ptrs A) := by
    have he := values_update (v := s.ptrs A) (x := y) (mem_slots.2 hk)
    calc nonzero (s.ptrs A k) + P + values slots (update (s.ptrs A) k y)
        = P + (values slots (update (s.ptrs A) k y) + nonzero (s.ptrs A k)) := by abel
      _ = P + (values slots (s.ptrs A) + nonzero y) := by rw [he]
      _ = nonzero y + P + values slots (s.ptrs A) := by abel
  have hstep := s.setPtr_step A k (s.ptrs A) y
  refine ⟨⟨hstep.valid ▸ h.valid, ?_, ?_, ?_, h.sub⟩, hup, hstep.mono ?_, ?_⟩
  · rw [hup, hsame]
    exact h.acct.setPtr fun p hpar => h.data_ptr (hp p hpar)
  · intro k' hi hk'
    rw [hup] at hk' ⊢
    rw [hsame]
    by_cases he : k' = k
    · subst he
      rw [update_self] at hk' ⊢
      exact ((hbelow hi).2 hk').2
    · rw [update_of_ne he] at hk' ⊢
      exact h.once k' hi hk'
  · rw [hup, hsame]
    exact h.apart
  · rintro x ⟨p, hpar, rfl⟩
    exact h.free_index (Slot.parent_index hpar) (hp p hpar)
  · intro k' hi hne
    apply FsState.data_congr
    · rw [hup, update_of_ne hne]
    · intro hk'
      apply hstep.blocks _ (h.data_ptr hk').not_isMap
      rintro ⟨p, hpar, e⟩
      exact h.leaf_ne_index (Slot.parent_index hpar) (hp p hpar) hi e

structure Fresh (O : Multiset Nat) (A : Nat) (s : FsState) (b : Nat) : Prop where
  free : b ∈ Free O
  own : ∀ k', s.ptrs A k' ≠ b

def NewLog (v : Slot → Nat) (k : Slot) (x : Nat) : Prop :=
  x = v k ∨ x = BBLOCK (v k) ∨ ∃ p, k.parent = some p ∧ x = v p

theorem FileInv.link (h : FileInv O M A P s) (hk : k.Ok) (h0 : s.ptrs A k = 0)
    (hp : ∀ p, k.parent = some p → s.ptrs A p ≠ 0) :
    wp OutOfBlocks OopsOS.balloc s fun b s₁ =>
      FileInv O M A P (s₁.setPtr A (k.loc (s.ptrs A)) b) ∧
        Step A (Free O) s (s₁.setPtr A (k.loc (s.ptrs A)) b) ∧ b ≠ 0 ∧
        (s₁.setPtr A (k.loc (s.ptrs A)) b).blocks b = zeroBytes ∧
        (s₁.setPtr A (k.loc (s.ptrs A)) b).ptrs A = update (s.ptrs A) k b ∧
        SameData A s (s₁.setPtr A (k.loc (s.ptrs A)) b) ∧ Fresh O A s b ∧
        (s₁.setPtr A (k.loc (s.ptrs A)) b).ref b = 1 ∧
        ∀ x ∈ (s₁.setPtr A (k.loc (s.ptrs A)) b).logged,
          x ∈ s.logged ∨ NewLog (update (s.ptrs A) k b) k x := by
  apply h.balloc.mono
  rintro b s₁ ⟨h₁, hkeep, hfree, hnew, hz, hptrs, hsame, hlog⟩
  have hb : b ≠ 0 := hfree.1.ne_zero
  have hc : (O + (b ::ₘ P + values slots (s₁.ptrs A))).count b = 1 := by
    rw [hptrs, Multiset.cons_add, Multiset.add_cons, Multiset.count_cons_self,
      Multiset.count_add, Multiset.count_eq_zero.2 hfree.2, Multiset.count_eq_zero.2 hnew]
  have hheld : b ::ₘ P = nonzero b + P := by rw [nonzero_of_ne hb, Multiset.singleton_add]
  have hbelow (c : Slot) (hc : c.parent = some k) : s₁.ptrs A c = 0 := by
    have he : s₁.ptrs A c = entryAt s₁.blocks (s₁.ptrs A k) c.pos := ptr_child _ _ hc
    rw [he, hptrs, h0, entryAt_zero]
  obtain ⟨h₂, hup, hstep, hdata⟩ := (h₁.perm hheld).setPtr hk (hptrs ▸ hp)
    (fun _ => ⟨hbelow, fun _ => ⟨hz, hheld ▸ hc⟩⟩)
  rw [hptrs] at h₂ hup hstep hdata
  rw [h0, nonzero_zero, zero_add] at h₂
  have hb' : (s₁.setPtr A (k.loc (s.ptrs A)) b).blocks b = zeroBytes := by
    rw [← hz]
    apply (s₁.setPtr_step A k (s.ptrs A) b).blocks b hfree.1.not_isMap
    rintro ⟨p, hpar, e⟩
    exact hnew (e ▸ h.mem_own (hp p hpar))
  refine ⟨h₂, (hkeep.step.mono ?_).trans hstep, hb, hb', hup, hsame.trans fun k' hi => ?_,
    ⟨hfree, fun k' e => ?_⟩, ?_, fun x hx => ?_⟩
  · rintro x rfl
    exact hfree
  · by_cases he : k' = k
    · subst he
      unfold FsState.data blockData
      rw [hup, update_self, hptrs, h0, if_neg hb, hb', if_pos rfl]
    · exact hdata k' hi he
  · exact hnew (e ▸ h.mem_own (e ▸ hb))
  · rw [s₁.setPtr_ref, h₁.acct.ref_eq, hc]
  · rcases s₁.setPtr_logged A k (s.ptrs A) b x hx with hx | ⟨p, hpar, rfl⟩
    · rw [hlog, List.mem_cons, List.mem_cons] at hx
      unfold NewLog
      rw [update_self]
      tauto
    · have hne : p ≠ k := fun e => Slot.not_mem_path_parent hpar (e ▸ p.mem_path)
      exact .inr (.inr (.inr ⟨p, hpar, (update_of_ne hne ..).symm⟩))

theorem FileInv.ensure (h : FileInv O M A P s) (hk : k.Ok)
    (hp : ∀ p, k.parent = some p → s.ptrs A p ≠ 0) :
    wp OutOfBlocks (ensure A (k.loc (s.ptrs A))) s fun b s' =>
      FileInv O M A P s' ∧ Step A (Free O) s s' ∧ b ≠ 0 ∧
        s'.ptrs A = update (s.ptrs A) k b ∧ (s.ptrs A k ≠ 0 → b = s.ptrs A k) ∧
        SameData A s s' ∧ (s.ptrs A k = 0 → Fresh O A s b ∧ s'.ref b = 1) ∧
        ∀ x ∈ s'.logged, x ∈ s.logged ∨ s.ptrs A k = 0 ∧ NewLog (s'.ptrs A) k x := by
  rw [OopsOS.ensure, wp_bind, wp_getPtr hk hp]
  by_cases h0 : s.ptrs A k = 0
  · rw [if_pos h0]
    apply (h.link hk h0 hp).bind
    rintro b s₁ ⟨h₂, hstep, hb, -, hup, hsame, hfresh, hone, hlog⟩
    simp only [wp_bind, wp_setPtr, wp_pure]
    refine ⟨h₂, hstep, hb, hup, fun hne => (hne h0).elim, hsame, fun _ => ⟨hfresh, hone⟩,
      fun x hx => ?_⟩
    rw [hup]
    exact (hlog x hx).imp_right fun hnew => ⟨h0, hnew⟩
  · rw [if_neg h0, wp_pure, update_eq_self]
    exact ⟨h, .refl _ _ _, h0, rfl, fun _ => rfl, .refl _ _, fun he => (h0 he).elim,
      fun _ hx => .inl hx⟩

end OopsOS
