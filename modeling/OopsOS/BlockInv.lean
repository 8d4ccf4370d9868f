import Mathlib.Algebra.BigOperators.Intervals
import OopsOS.Operations

namespace OopsOS
set_option autoImplicit true
open Function

variable {d : Disk} {ip : Inode} {r : Nat → Nat} {b x : Nat}

def brefCount (b : Nat) (r : Nat → Nat) : Nat → Nat :=
  if b ≠ 0 then Function.update r b (r b + 1) else r

def brefEntries (d : Disk) (x : Nat) (r : Nat → Nat) : Nat → Nat :=
  (List.range NADDR_PER_BLOCK).foldl (fun r j => brefCount (getWord (d x) j) r) r

def brefDirect (ip : Inode) (r : Nat → Nat) : Nat → Nat :=
  (List.range NDIRECT).foldl (fun r i => brefCount (ip.addr i) r) r

def brefIndex (d : Disk) (x : Nat) (r : Nat → Nat) : Nat → Nat :=
  if x ≠ 0 then brefEntries d x (brefCount x r) else r

def brefDouble (d : Disk) (y : Nat) (r : Nat → Nat) : Nat → Nat :=
  if y ≠ 0 then
    (List.range NADDR_PER_BLOCK).foldl (fun r i => brefIndex d (getWord (d y) i) r) (brefCount y r)
  else r

def brefInode (d : Disk) (ip : Inode) (r : Nat → Nat) : Nat → Nat :=
  brefDouble d (ip.addr (NDIRECT + 1)) (brefIndex d (ip.addr NDIRECT) (brefDirect ip r))

def brefInit (d : Disk) : Nat → Nat :=
  (List.range (sb.ninodes - 1)).foldl
    (fun r n => if (dinodeOf d (n + 1)).type ≠ 0 then brefInode d (dinodeOf d (n + 1)) r else r)
    (fun _ => 0)

def Adds (f : (Nat → Nat) → Nat → Nat) (m : Multiset Nat) : Prop :=
  ∀ r b, f r b = r b + m.count b

theorem Adds.comp (h : Adds f m) (h' : Adds g m') : Adds (fun r => g (f r)) (m + m') := by
  intro r b
  change g (f r) b = _
  rw [h', h, Multiset.count_add, Nat.add_assoc]

theorem Adds.ite [Decidable c] (h : c → Adds f m) (h0 : ¬ c → m = 0) :
    Adds (fun r => if c then f r else r) m := by
  intro r b
  change (if c then f r else r) b = _
  by_cases hc : c
  · rw [if_pos hc, h hc]
  · rw [if_neg hc, h0 hc, Multiset.count_zero, Nat.add_zero]

theorem Adds.foldl {f : Nat → (Nat → Nat) → Nat → Nat} {m : Nat → Multiset Nat}
    (h : ∀ i < n, Adds (f i) (m i)) :
    Adds (fun r => (List.range n).foldl (fun r i => f i r) r) (∑ i ∈ Finset.range n, m i) := by
  induction n with
  | zero =>
    intro r b
    rfl
  | succ n ih =>
    intro r b
    simp only [List.range_succ, List.foldl_append, Finset.sum_range_succ]
    exact (ih fun i hi => h i (Nat.lt_succ_of_lt hi)).comp (h n (Nat.lt_succ_self n)) r b

theorem brefCount_adds (b : Nat) : Adds (brefCount b) (nonzero b) := by
  intro r x
  unfold brefCount
  by_cases hb : b = 0
  · rw [if_neg (not_not.2 hb), hb]
    rfl
  · rw [if_pos hb, nonzero_of_ne hb, Multiset.count_singleton, Function.update_apply]
    split
    · next e => rw [e]
    · rfl

theorem sum_entries (d : Disk) (hx : x ≠ 0) :
    ∑ j ∈ Finset.range NADDR_PER_BLOCK, nonzero (entryAt d x j) =
      ∑ j ∈ Finset.range NADDR_PER_BLOCK, nonzero (getWord (d x) j) :=
  Finset.sum_congr rfl fun j hj => by rw [entryAt_of_ne d hx (Finset.mem_range.1 hj)]

theorem brefIndex_adds (d : Disk) (x : Nat) : Adds (brefIndex d x)
    (nonzero x + ∑ j ∈ Finset.range NADDR_PER_BLOCK, nonzero (entryAt d x j)) := by
  apply Adds.ite
  · intro hx
    rw [sum_entries d hx]
    exact (brefCount_adds x).comp (Adds.foldl fun j _ => brefCount_adds _)
  · intro hx
    rw [not_not.1 hx]
    simp only [entryAt_zero, nonzero_zero, Finset.sum_const_zero, add_zero]

theorem brefDirect_adds (d : Disk) (ip : Inode) : Adds (brefDirect ip)
    (∑ i ∈ Finset.range NDIRECT, nonzero (ptr d ip (.direct i))) := by
  apply Adds.foldl
  intro i hi
  have he : ptr d ip (.direct i) = ip.addr i := if_pos hi
  rw [he]
  exact brefCount_adds _

theorem brefDouble_adds (d : Disk) (y : Nat) : Adds (brefDouble d y)
    (nonzero y + ∑ i ∈ Finset.range NADDR_PER_BLOCK, (nonzero (entryAt d y i) +
      ∑ j ∈ Finset.range NADDR_PER_BLOCK, nonzero (entryAt d (entryAt d y i) j))) := by
  apply Adds.ite
  · intro hy
    have hfold : Adds (fun r => (List.range NADDR_PER_BLOCK).foldl
        (fun r i => brefIndex d (getWord (d y) i) r) r)
        (∑ i ∈ Finset.range NADDR_PER_BLOCK, (nonzero (entryAt d y i) +
          ∑ j ∈ Finset.range NADDR_PER_BLOCK, nonzero (entryAt d (entryAt d y i) j))) := by
      apply Adds.foldl
      intro i hi
      rw [entryAt_of_ne d hy hi]
      exact brefIndex_adds d _
    exact (brefCount_adds y).comp hfold
  · intro hy
    rw [not_not.1 hy]
    simp only [entryAt_zero, nonzero_zero, Finset.sum_const_zero, add_zero]

theorem brefInode_adds (d : Disk) (ip : Inode) :
    Adds (brefInode d ip) (values slots (ptr d ip)) := by
  have h := ((brefDirect_adds d ip).comp (brefIndex_adds d (ip.addr NDIRECT))).comp
    (brefDouble_adds d (ip.addr (NDIRECT + 1)))
  rw [values_eq_sum, sum_slots]
  exact h

def usedInodes (inodeOf : Nat → Inode) : Finset Nat :=
  (Finset.Ico 1 sb.ninodes).filter fun i => (inodeOf i).type ≠ 0

def allPtrs (d : Disk) (inodeOf : Nat → Inode) : Multiset Nat :=
  ∑ i ∈ usedInodes inodeOf, values slots (ptr d (inodeOf i))

theorem brefInit_eq (d : Disk) (b : Nat) : brefInit d b = (allPtrs d (dinodeOf d)).count b := by
  have hadds : Adds (fun r => (List.range (sb.ninodes - 1)).foldl
      (fun r n => if (dinodeOf d (n + 1)).type ≠ 0 then brefInode d (dinodeOf d (n + 1)) r else r)
        r)
      (∑ n ∈ Finset.range (sb.ninodes - 1), if (dinodeOf d (n + 1)).type ≠ 0 then
        values slots (ptr d (dinodeOf d (n + 1))) else 0) := by
    apply Adds.foldl
    intro n _
    apply Adds.ite
    · intro ht
      rw [if_pos ht]
      exact brefInode_adds d _
    · intro ht
      rw [if_neg ht]
  have h := hadds (fun _ => 0) b
  rw [Nat.zero_add] at h
  rw [allPtrs, usedInodes, Finset.sum_filter, Finset.sum_Ico_eq_sum_range]
  simp only [Nat.add_comm 1]
  exact h

variable {s s' : FsState} {A B i : Nat} {k : Slot}

/-- An inode as the kernel sees it: the cached copy, or else the copy on disk. -/
def FsState.inodeOf (s : FsState) (i : Nat) : Inode :=
  if s.valid i then s.inode i else dinodeOf s.blocks i

def FsState.used (s : FsState) : Finset Nat := usedInodes s.inodeOf

def FsState.view (s : FsState) (i : Nat) : Slot → Nat := ptr s.blocks (s.inodeOf i)

def FsState.allPtrs (s : FsState) : Multiset Nat := OopsOS.allPtrs s.blocks s.inodeOf

def FsState.others (s : FsState) (A : Nat) : Multiset Nat :=
  ∑ i ∈ s.used.erase A, values slots (s.view i)

def FsState.indexBlocks (s : FsState) (A : Nat) : Set Nat :=
  { x | ∃ i ∈ s.used, i ≠ A ∧ ∃ k, k.index = true ∧ s.view i k = x ∧ x ≠ 0 }

/-- The reference counts are exact, the map marks the metadata and what is pointed to, and index
blocks are not shared. -/
structure BlockInv (s : FsState) : Prop where
  acct : Acct s s.allPtrs 0
  once : ∀ i ∈ s.used, ∀ k, k.index = true → s.view i k ≠ 0 →
    s.allPtrs.count (s.view i k) = 1

theorem FsState.mem_used : i ∈ s.used ↔ (1 ≤ i ∧ i < sb.ninodes) ∧ (s.inodeOf i).type ≠ 0 := by
  rw [used, usedInodes, Finset.mem_filter, Finset.mem_Ico]

theorem FsState.lt_of_used (h : i ∈ s.used) : i < sb.ninodes := (mem_used.1 h).1.2

theorem FsState.inodeOf_valid (h : s.valid i = true) : s.inodeOf i = s.inode i := if_pos h

theorem FsState.view_valid (h : s.valid i = true) : s.view i = s.ptrs i := by
  rw [view, inodeOf_valid h, ptrs]

theorem FsState.allPtrs_eq (h : A ∈ s.used) :
    s.allPtrs = values slots (s.view A) + s.others A :=
  (Finset.add_sum_erase s.used (fun i => values slots (s.view i)) h).symm

theorem FsState.mem_view (h : s.view i k ≠ 0) : s.view i k ∈ values slots (s.view i) :=
  mem_values.2 ⟨h, k, mem_slots.2 (Slot.ok_of_ptr h), rfl⟩

theorem FsState.mem_others (hi : i ∈ s.used) (hne : i ≠ A) (hk : s.view i k ≠ 0) :
    s.view i k ∈ s.others A :=
  Multiset.mem_sum.2 ⟨i, Finset.mem_erase.2 ⟨hne, hi⟩, mem_view hk⟩

theorem FsState.mem_allPtrs (hi : i ∈ s.used) (hk : s.view i k ≠ 0) : s.view i k ∈ s.allPtrs :=
  Multiset.mem_sum.2 ⟨i, hi, mem_view hk⟩

theorem FsState.unique_of_count (h : s.allPtrs.count (s.view i k) = 1) (hi : i ∈ s.used)
    (hk : s.view i k ≠ 0) (hB : B ∈ s.used) (he : s.view B k' = s.view i k) : B = i ∧ k' = k := by
  have hk' : s.view B k' ≠ 0 := he ▸ hk
  rw [allPtrs_eq hi, Multiset.count_add] at h
  have hpos := Multiset.count_pos.2 (mem_view hk)
  have hBi : B = i := by
    by_contra hne
    have hmem := Multiset.count_pos.2 (mem_others hB hne hk')
    rw [he] at hmem
    omega
  subst hBi
  exact ⟨rfl, eq_of_count_le_one (by omega) hk (mem_slots.2 (Slot.ok_of_ptr hk')) he
    (mem_slots.2 (Slot.ok_of_ptr hk)) rfl⟩

theorem BlockInv.file (h : BlockInv s) (hA : A ∈ s.used) (hv : s.valid A = true) :
    FileInv (s.others A) (s.indexBlocks A) A 0 s := by
  have hview := FsState.view_valid hv
  have hall : s.others A + (0 + values slots (s.ptrs A)) = s.allPtrs := by
    rw [zero_add, FsState.allPtrs_eq hA, hview, add_comm]
  refine ⟨hv, ?_, fun k hi hk => ?_, fun x hx hM => ?_, fun x hx => ?_⟩
  · exact h.acct.perm (by rw [hall, add_zero])
  · rw [hall, ← hview] at *
    exact h.once A hA k hi hk
  · rw [zero_add, ← hview] at hx
    obtain ⟨hx0, k, -, rfl⟩ := mem_values.1 hx
    obtain ⟨i, hi, hne, k', hi', he, -⟩ := hM
    rw [← he] at hx0
    exact hne (FsState.unique_of_count (h.once i hi k' hi' hx0) hi hx0 hA he.symm).1.symm
  · obtain ⟨i, hi, hne, k, -, rfl, h0⟩ := hx
    exact FsState.mem_others hi hne h0

theorem BlockInv.lender (h : BlockInv s) (hB : B ∈ s.used) (hv : s.valid B = true) (hne : B ≠ A) :
    Lender (s.others A) (s.indexBlocks A) B s := by
  have hview := FsState.view_valid hv
  refine ⟨fun k hi hk => ?_, fun k hi hk => ?_⟩
  · rw [← hview] at hk ⊢
    refine ⟨FsState.mem_others hB hne hk, fun hM => ?_⟩
    obtain ⟨i, hi', -, k', hi'', he, -⟩ := hM
    rw [← he] at hk
    have huniq := FsState.unique_of_count (h.once i hi' k' hi'' hk) hi' hk hB he.symm
    rw [huniq.2, hi''] at hi
    cases hi
  · rw [← hview] at hk ⊢
    exact ⟨B, hB, hne, k, hi, rfl, hk⟩

theorem Frame.inodeOf (h : Frame O A s s') (hi : i < sb.ninodes) (hne : i ≠ A) :
    s'.inodeOf i = s.inodeOf i := by
  rw [FsState.inodeOf, h.valid i hne, h.inode i hne, h.dinode i hi hne, FsState.inodeOf]

theorem Frame.view (h : Frame (s.others A) A s s') (hi : i ∈ s.used) (hne : i ≠ A) :
    s'.view i = s.view i := by
  apply ptr_congr
  · rw [h.inodeOf (FsState.lt_of_used hi) hne]
  · intro k _ hk
    exact h.blocks _ (FsState.mem_others hi hne hk)

theorem Frame.used (h : Frame O A s s') : s'.used.erase A = s.used.erase A := by
  ext i
  rw [Finset.mem_erase, Finset.mem_erase, FsState.mem_used, FsState.mem_used]
  refine and_congr_right fun hne => and_congr_right fun hi => ?_
  rw [h.inodeOf hi.2 hne]

theorem Frame.others (h : Frame (s.others A) A s s') : s'.others A = s.others A := by
  rw [FsState.others, h.used]
  refine Finset.sum_congr rfl fun i hi => ?_
  obtain ⟨hne, hi⟩ := Finset.mem_erase.1 hi
  rw [h.view hi hne]

theorem Done.used (h : Done O M A s s') (hA : A ∈ s.used) (hv : s.valid A = true) :
    s'.used = s.used := by
  have hA' : A ∈ s'.used := by
    rw [FsState.mem_used, FsState.inodeOf_valid hv] at hA
    rw [FsState.mem_used, FsState.inodeOf_valid h.inv.valid, h.type]
    exact hA
  rw [← Finset.insert_erase hA', h.frame.used, Finset.insert_erase hA]

theorem BlockInv.done (h : BlockInv s) (hA : A ∈ s.used) (hv : s.valid A = true)
    (hd : Done (s.others A) (s.indexBlocks A) A s s') : BlockInv s' := by
  have hused := hd.used hA hv
  have hv' := hd.inv.valid
  have hview := FsState.view_valid hv'
  have hall : s'.allPtrs = s.others A + (0 + values slots (s'.ptrs A)) := by
    rw [FsState.allPtrs_eq (hused ▸ hA), hview, hd.frame.others, zero_add, add_comm]
  refine ⟨?_, fun i hi k hik hk => ?_⟩
  · rw [hall]
    exact hd.inv.acct.perm (add_zero _).symm
  · by_cases hne : i = A
    · subst hne
      rw [hview] at hk
      rw [hall, hview]
      exact hd.inv.once k hik hk
    · rw [hused] at hi
      rw [hd.frame.view hi hne] at hk ⊢
      have hold := h.once i hi k hik hk
      have hmem := Multiset.count_pos.2 (FsState.mem_others hi hne hk)
      have hnew : s.view i k ∉ 0 + values slots (s'.ptrs A) := fun hx =>
        hd.inv.apart _ hx ⟨i, hi, hne, k, hik, rfl, hk⟩
      rw [FsState.allPtrs_eq hA, Multiset.count_add] at hold
      rw [hall, Multiset.count_add, Multiset.count_eq_zero.2 hnew]
      omega

theorem ilock_spec (hA : A ∈ s.used) : wp E (ilock A) s fun _ s' =>
    s'.valid A = true ∧ s'.blocks = s.blocks ∧ s'.ref = s.ref ∧ s'.iref = s.iref ∧
      (∀ i, s'.inodeOf i = s.inodeOf i) ∧ ∀ i, s.valid i = true → s'.valid i = true := by
  unfold ilock
  rw [wp_bind, wp_get]
  cases hv : s.valid A with
  | true =>
    rw [if_pos rfl]
    exact ⟨hv, rfl, rfl, rfl, fun _ => rfl, fun _ h => h⟩
  | false =>
    have htype : (dinodeOf s.blocks A).type ≠ 0 := by
      have h := (FsState.mem_used.1 hA).2
      rwa [FsState.inodeOf, if_neg (by rw [hv]; exact Bool.false_ne_true)] at h
    have hread : getDinode (s.blocks (IBLOCK A)) (A % IPB) = dinodeOf s.blocks A := rfl
    simp only [Bool.false_eq_true, ↓reduceIte, wp_bind, wp_bread, wp_set, hread, if_neg htype,
      wp_pure]
    refine ⟨update_self .., trivial, trivial, trivial, fun i => ?_, fun i hi => ?_⟩
    · by_cases he : i = A
      · subst he
        simp only [FsState.inodeOf, update_self, hv, Bool.false_eq_true, ↓reduceIte]
      · simp only [FsState.inodeOf, update_of_ne he]
    · by_cases he : i = A
      · rw [he]
        exact update_self ..
      · exact (update_of_ne he ..).trans hi

theorem BlockInv.congr (h : BlockInv s) (hb : s'.blocks = s.blocks) (hr : s'.ref = s.ref)
    (hi : ∀ i, s'.inodeOf i = s.inodeOf i) : BlockInv s' := by
  have he : s'.inodeOf = s.inodeOf := funext hi
  have hall : s'.allPtrs = s.allPtrs := by rw [FsState.allPtrs, hb, he, FsState.allPtrs]
  have hused : s'.used = s.used := by rw [FsState.used, he, FsState.used]
  have hview : s'.view = s.view := by
    funext i
    rw [FsState.view, hb, he, FsState.view]
  refine ⟨?_, ?_⟩
  · rw [hall]
    exact h.acct.congr (fun x _ => by rw [hb]) hr
  · rw [hall, hused, hview]
    exact h.once

end OopsOS
