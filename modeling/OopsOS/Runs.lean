import OopsOS.FsOps
import Mathlib.Logic.Relation

namespace OopsOS
set_option autoImplicit true
open Function

variable {s s₁ s' : FsState} {A B i : Nat} {c : Prop} {w : Nat → Prop}

theorem BlockInv.removed (h : BlockInv s) (hA : A ∈ s.used) (hf : Frame (s.others A) A s s')
    (hacct : Acct s' (s.others A) 0) (hgone : A ∉ s'.used) : BlockInv s' := by
  have hused : s'.used = s.used.erase A := by
    rw [← hf.used, Finset.erase_eq_of_notMem hgone]
  have hall : s'.allPtrs = s.others A := by
    rw [← hf.others, FsState.others, Finset.erase_eq_of_notMem hgone]
    rfl
  refine ⟨hall.symm ▸ hacct, fun i hi k hik hk => ?_⟩
  obtain ⟨hne, hi⟩ := Finset.mem_erase.1 (hused ▸ hi)
  rw [hf.view hi hne] at hk ⊢
  have hold := h.once i hi k hik hk
  have hmem := Multiset.count_pos.2 (FsState.mem_others hi hne hk)
  rw [FsState.allPtrs_eq hA, Multiset.count_add] at hold
  rw [hall]
  omega

theorem iput_spec (h : BlockInv s) (hA : A ∈ s.used) (href : s.iref A = 1)
    (hv : s.valid A = true) (hl : (s.inode A).nlink = 0) :
    wp OutOfBlocks (iput A) s fun _ s' => Safe A c w s s' ∧ A ∉ s'.used := by
  have hlt := FsState.lt_of_used hA
  unfold iput
  rw [wp_bind, wp_get]
  simp only [href, hv, hl, and_self, ↓reduceIte]
  apply (itrunc_spec (h.file hA hv) hlt).bind
  intro _ s₁ hs
  obtain ⟨hst, hempty, -⟩ := hs
  have hdone := hst.done
  simp only [modifyInode, wp_bind, wp_modify, wp_iupdate, update_self,
    FsState.saved, hdone.iref, href, ↓reduceIte]
  generalize hip : ({ s₁.inode A with type := 0 } : Inode) = ip
  have hf := hdone.frame.trans (s₁.saved_frame ip hlt hdone.inv.data_other)
  have hacct := (hdone.inv.saved hlt ip (hip ▸ rfl)).1.acct
  have hptrs : values slots ((s₁.saved A ip).ptrs A) = 0 := by
    rw [(hdone.inv.saved hlt ip (hip ▸ rfl)).2.1]
    exact values_eq_zero fun k _ => hempty k
  rw [hptrs, add_zero] at hacct
  generalize hs' : FsState.mk _ _ _ _ _ _ _ = s'
  have hb : s'.blocks = (s₁.saved A ip).blocks := hs' ▸ rfl
  have hvalid : s'.valid A = false := hs' ▸ update_self ..
  have hframe : Frame (s.others A) A s s' := by
    refine hf.trans ⟨fun x _ => by rw [hb], fun i _ _ => by rw [hb], fun i hne => ?_,
      fun i hne => ?_⟩
    · simp only [← hs', FsState.saved, update_of_ne hne]
    · simp only [← hs', FsState.saved, update_of_ne hne]
  have hdisk : s'.inodeOf A = dinodeOf s'.blocks A := by
    rw [FsState.inodeOf, hvalid, if_neg Bool.false_ne_true]
  have hsync := s₁.saved_synced A ip
  rw [Synced, s₁.saved_inode] at hsync
  have hgone : A ∉ s'.used := by
    intro hmem
    have htype := (FsState.mem_used.1 hmem).2
    rw [hdisk, hb, hsync, ← hip] at htype
    exact htype rfl
  have hzero (p : Nat) : s'.byteOf A p = 0 := by
    rw [FsState.byteOf, hdisk, hb, hsync, fileByte, fileBlock, bmapNalloc_eq]
    have hnone := congrFun (hdone.inv.saved hlt ip (hip ▸ rfl)).2.1 (slotOf (p / BSIZE))
    rw [hempty, FsState.ptrs, s₁.saved_inode] at hnone
    rw [hnone]
    rfl
  have hacct' : Acct s' (s.others A) 0 := hacct.congr (fun x _ => by rw [hb]) (hs' ▸ rfl)
  exact ⟨⟨h.removed hA hframe hacct' hgone, fun B hB hne => hframe.untouched hB hne,
    fun _ hall => hframe.through hall hdisk, fun p _ => .inr (hzero p)⟩, hgone⟩

theorem iput_kept (hnot : ¬ (s.iref A = 1 ∧ s.valid A = true ∧ (s.inode A).nlink = 0)) :
    wp E (iput A) s fun _ s' =>
      (s.iref A = 1 → s.valid A = true → Synced s A) → Alike s s' := by
  unfold iput
  rw [wp_bind, wp_get]
  simp only [hnot, ↓reduceIte, wp_modify]
  intro hsync
  refine ⟨rfl, rfl, ?_⟩
  funext i
  by_cases hone : s.iref A = 1
  · simp only [FsState.inodeOf, hone, ↓reduceIte]
    by_cases he : i = A
    · subst he
      rw [update_self, if_neg Bool.false_ne_true]
      split
      · next hv => exact hsync hone hv
      · rfl
    · rw [update_of_ne he]
  · simp only [FsState.inodeOf, hone, ↓reduceIte]

theorem FsOp.exec_safe (op : FsOp) (h : BlockInv s) (ha : op.Allowed s) :
    wp OutOfBlocks op.exec s fun _ s' => Safe op.target (op.WritesThrough s)
    (op.Writes s) s s' := by
  cases op with
  | writei A src off n =>
    obtain ⟨hA, hn⟩ := ha
    apply locked_safe h hA
    intro s₁ O M hlike hinv
    by_cases hok : off ≤ (s₁.inode A).size.toNat ∧ off + n ≤ MAXFILE * BSIZE
    · apply (writei_spec hinv (FsState.lt_of_used hA) hok.1 hok.2).mono
      intro _ s' hs
      refine hs.2.stored.effect fun p hp => .inl (hs.2.old p fun hin => hp ⟨?_, hin⟩)
      rw [hlike.inodeOf hinv.valid]
      exact hok
    · exact writei_refused hn hok (.refl hinv)
  | pwrite A src off n =>
    obtain ⟨hA, hn⟩ := ha
    apply locked_safe h hA
    intro s₁ O M _ hinv
    apply (pwritePass_spec hinv (FsState.lt_of_used hA) hn).mono
    intro _ s' hs
    exact hs.stored.effect fun p hp => .inl (hs.old p hp)
  | falloc A startb endb newsize keepSize =>
    obtain ⟨hA, hle, hmax⟩ := ha
    apply locked_safe h hA
    intro s₁ O M hlike hinv
    by_cases hsize : newsize ≤ MAXFILE * BSIZE
    · apply (falloc_done hinv (FsState.lt_of_used hA) hle hmax hsize).mono
      intro _ s' hs
      obtain ⟨-, hd, -, hbytes, hsync⟩ := hs
      refine ⟨hd, fun hc hs₁ => (hsync hs₁).2 ?_, fun p _ => .inl (hbytes p)⟩
      rw [← FsState.inodeOf_valid hinv.valid, ← FsState.view_valid hinv.valid, hlike.inode,
        hlike.view]
      rcases hc with hkeep | hgrow | hbig | hroot
      · exact .inl hkeep
      · exact .inr (.inl hgrow)
      · exact absurd hbig (Nat.not_lt.2 hsize)
      · exact .inr (.inr hroot)
    · simp only [OopsOS.falloc, if_pos (Nat.not_le.1 hsize)]
      exact .refl hinv
  | ipunch A startb endb =>
    obtain ⟨hA, hle⟩ := ha
    apply locked_safe h hA
    intro s₁ O M _ hinv
    apply (ipunch_spec hinv (FsState.lt_of_used hA) hle).mono
    intro _ s' hs
    obtain ⟨hst, -, hres⟩ := hs
    refine hst.effect fun p _ => ?_
    rcases hres with ⟨-, rfl, -⟩ | ⟨-, -, hbytes⟩
    · exact .inl rfl
    · exact same_or_zero (hbytes p)
  | itrunc A =>
    apply locked_safe h ha
    intro s₁ O M _ hinv
    apply (itrunc_spec hinv (FsState.lt_of_used ha)).mono
    intro _ s' hs
    exact hs.1.effect fun p _ => .inr (FsState.byteAt_hole (hs.2.1 _))
  | itruncTo A newsize =>
    obtain ⟨hA, hmax⟩ := ha
    apply locked_safe h hA
    intro s₁ O M _ hinv
    apply (itruncTo_spec hinv (FsState.lt_of_used hA) hmax).mono
    intro _ s' hs
    exact hs.1.effect fun p _ => same_or_zero (hs.2.2.2.2 p)
  | iclone src dst =>
    obtain ⟨hsrc, hdst, hne, hempty⟩ := ha
    apply bothLocked_safe h hsrc hdst hne
    intro s₁ O M hlike hv hinv hl
    have hempty₁ (k : Slot) : s₁.ptrs dst k = 0 := by
      rw [← FsState.view_valid hinv.valid, hlike.view, hempty k]
    apply (iclone_spec hinv hl hne (FsState.lt_of_used hdst) hempty₁).mono
    intro _ s' hs
    obtain ⟨hst, hres⟩ := hs
    refine hst.effect fun p hp => ?_
    rcases hres with ⟨-, rfl⟩ | ⟨-, ht, -⟩
    · exact .inl rfl
    · rw [Writes, hlike.inodeOf hv, hlike.inodeOf hinv.valid] at hp
      exact absurd ht hp
  | icloneRange src dst srcOff dstOff len =>
    obtain ⟨hsrc, hdst, hne, hmax⟩ := ha
    apply bothLocked_safe h hsrc hdst hne
    intro s₁ O M hlike hv hinv hl
    apply (icloneRange_spec hinv hl hne (FsState.lt_of_used hdst) hmax).mono
    intro _ s' hs
    refine hs.2.1.effect fun p hp => .inl (hs.2.2.1 p ?_)
    rw [Writes, hlike.inodeOf hv, hlike.inodeOf hinv.valid] at hp
    exact hp
  | idedup src dst =>
    obtain ⟨hsrc, hdst, hne⟩ := ha
    apply bothLocked_safe h hsrc hdst hne
    intro s₁ O M _ _ hinv hl
    apply (idedup_spec hinv hl hne (FsState.lt_of_used hdst)).mono
    intro _ s' hs
    exact hs.1.effect fun p _ => .inl (hs.2.2 p)
  | addLink A =>
    apply locked_safe h ha
    intro s₁ O M _ hinv
    simp only [OopsOS.addLink, modifyInode, wp_bind, wp_modify, wp_iupdate, FsState.saved_modified,
      update_self]
    exact .saved hinv (FsState.lt_of_used ha) _ rfl rfl
  | dropLink A =>
    apply locked_safe h ha
    intro s₁ O M _ hinv
    simp only [OopsOS.dropLink, modifyInode, wp_bind, wp_modify, wp_iupdate, FsState.saved_modified,
      update_self]
    exact .saved hinv (FsState.lt_of_used ha) _ rfl rfl
  | iput A =>
    obtain ⟨hA, hpos, hsync⟩ := ha
    by_cases hlast : s.iref A = 1 ∧ s.valid A = true ∧ (s.inode A).nlink = 0
    · apply (iput_spec h hA hlast.1 hlast.2.1 hlast.2.2).mono
      intro _ s' hs
      exact hs.1
    · have hkept : s.iref A = 1 → s.valid A = true → Synced s A := fun h1 hv =>
        hsync h1 hv fun hl => hlast ⟨h1, hv, hl⟩
      apply (iput_kept hlast).mono
      intro _ s' hlike
      exact (hlike hkept).safe_self h A _ _
  | iget A =>
    have hlike : Alike s { s with iref := update s.iref A (s.iref A + 1) } :=
      ⟨rfl, rfl, rfl⟩
    exact hlike.safe_self h A _ _

def FsOp.Completes (op : FsOp) (s s' : FsState) : Prop := op.Allowed s ∧ op.exec s = .ok ((), s')

def FsOp.after (op : FsOp) (s : FsState) : FsState :=
  match op.exec s with
  | .ok (_, s') => s'
  | .error _ => s

def FsOp.succeeds (op : FsOp) (s : FsState) : Bool :=
  match op.exec s with
  | .ok _ => true
  | .error _ => false

theorem FsOp.completes_after {op : FsOp} (ha : op.Allowed s) (h : op.succeeds s = true) :
    op.Completes s (op.after s) := by
  refine ⟨ha, ?_⟩
  unfold succeeds at h
  unfold after
  cases he : op.exec s with
  | ok p => rfl
  | error e =>
    rw [he] at h
    cases h

def Runs (P : FsState → FsOp → Prop) : FsState → FsState → Prop :=
  Relation.ReflTransGen fun s s' => ∃ op, P s op ∧ op.Completes s s'

theorem FsOp.Completes.safe {op : FsOp} (h : op.Completes s s') (hs : BlockInv s) :
    Safe op.target (op.WritesThrough s) (op.Writes s) s s' :=
  (op.exec_safe hs h.1).of_ok h.2

theorem Runs.inv {P : FsState → FsOp → Prop} (h : Runs P s s') (hs : BlockInv s) : BlockInv s' := by
  induction h with
  | refl => exact hs
  | tail _ hop ih =>
    obtain ⟨op, -, hc⟩ := hop
    exact (hc.safe ih).inv

end OopsOS
