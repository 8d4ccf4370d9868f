import OopsOS.DataCalls
import OopsOS.Contents
import OopsOS.Runs

namespace OopsOS
set_option autoImplicit true

variable {s s₁ s' : FsState} {T : Nat} {O : Multiset Nat} {M : Set Nat} {Q : Int → FsState → Prop}

theorem writei_done (h : FileInv O M T 0 s) (hT : T < sb.ninodes) (hn : n < 2 ^ 32) (src : Source)
    (off : Nat) : wp OutOfBlocks (writei T src off n) s (fun _ s' => Done O M T s s') := by
  by_cases hok : off ≤ (s.inode T).size.toNat ∧ off + n ≤ MAXFILE * BSIZE
  · apply (writei_spec h hT hok.1 hok.2).mono
    intro _ s' hs
    exact hs.2.stored.done
  · exact writei_refused hn hok (.refl h)

theorem writeMax_lt (k : Nat) : min k writeMax < 2 ^ 32 :=
  Nat.lt_of_le_of_lt (Nat.min_le_right k writeMax) (by decide)

theorem lockBoth_spec (hsrc : src ∈ s.used) (hdst : dst ∈ s.used) :
    wp E (lockBoth src dst) s (fun _ s' => Alike s s' ∧ s'.valid src = true ∧
      s'.valid dst = true) := by
  have hpair : ∀ i j, i ∈ s.used → j ∈ s.used → wp E (do
      ilock i
      ilock j) s (fun _ s' => Alike s s' ∧ s'.valid i = true ∧ s'.valid j = true) := by
    intro i j hi hj
    apply ilock_then hi
    intro s₁ hlike hv _
    apply (ilock_spec (hlike.used.symm ▸ hj)).mono
    intro _ s₂ h₂
    obtain ⟨hv₂, hb, hr, -, hin, hkeep⟩ := h₂
    exact ⟨hlike.trans ⟨hb, hr, funext hin⟩, hkeep i hv, hv₂⟩
  unfold lockBoth
  rw [wp_ite]
  split
  · exact hpair src dst hsrc hdst
  · apply (hpair dst src hdst hsrc).mono
    intro _ s' h'
    exact ⟨h'.1, h'.2.2, h'.2.1⟩

theorem ilock_synced (hT : T ∈ s.used) (hv : s.valid T = false) :
    wp E (ilock T) s (fun _ s' => Synced s' T) := by
  apply (ilock_spec hT).mono
  intro _ s' h
  obtain ⟨hv', hb, -, -, hi, -⟩ := h
  have hdisk : s.inodeOf T = dinodeOf s.blocks T := by
    rw [FsState.inodeOf, hv, if_neg Bool.false_ne_true]
  rw [Synced, hb, ← hdisk, ← hi, FsState.inodeOf_valid hv']

structure Found (T : Nat) (s : FsState) : Prop where
  linked : (s.inodeOf T).nlink ≠ 0
  cached : s.iref T = 0 → s.valid T = false

theorem Found.ilock (hf : Found T s) (hT : T ∈ s.used) :
    wp E (do iget T; OopsOS.ilock T) s (fun _ s' => Alike s s' ∧ s'.valid T = true ∧
      (s'.inode T).nlink ≠ 0 ∧ (s'.iref T = 1 → Synced s' T)) := by
  unfold iget
  rw [wp_bind, wp_modify]
  generalize hs₁ : FsState.mk _ _ _ _ _ _ _ = s₁
  have hlike : Alike s s₁ := by
    rw [← hs₁]
    exact ⟨rfl, rfl, rfl⟩
  have hvalid : s₁.valid = s.valid := by rw [← hs₁]
  have hiref : s₁.iref T = s.iref T + 1 := by
    rw [← hs₁]
    exact Function.update_self ..
  have hT₁ : T ∈ s₁.used := hlike.used.symm ▸ hT
  have hspec := ilock_spec (E := E) hT₁
  have hsync : wp E (OopsOS.ilock T) s₁ (fun _ s₂ => s₁.valid T = false → Synced s₂ T) := by
    by_cases hv : s₁.valid T = false
    · exact (ilock_synced hT₁ hv).mono (fun _ _ hs _ => hs)
    · exact hspec.mono (fun _ _ _ hv' => absurd hv' hv)
  apply (hspec.and hsync).mono
  intro _ s₂ h₂
  obtain ⟨⟨hv, hb, hr, hi, hin, -⟩, hsy⟩ := h₂
  have hlike₂ : Alike s s₂ := hlike.trans ⟨hb, hr, funext hin⟩
  refine ⟨hlike₂, hv, ?_, fun hone => hsy ?_⟩
  · rw [← hlike₂.inodeOf hv]
    exact hf.linked
  · rw [hvalid]
    apply hf.cached
    rw [hi, hiref] at hone
    omega

theorem wp_sysTruncate (hs : BlockInv s) (hT : T ∈ s.used) (hf : Found T s)
    (hfail : ∀ s', Alike s s' → Q (-1) s')
    (hok : ∀ s₁ s₂ s', length.toNat ≤ MAXFILE * BSIZE → Alike s s₁ → s₁.valid T = true →
      Done (s₁.others T) (s₁.indexBlocks T) T s₁ s₂ → (s₂.inode T).size.toNat = length.toNat →
      Alike s₂ s' → Q 0 s') :
    wp OutOfBlocks (sysTruncate (some T) length) s Q := by
  have hrefl : Alike s s := ⟨rfl, rfl, rfl⟩
  unfold sysTruncate
  simp only [wp_ite]
  split
  · exact hfail s hrefl
  · split
    · exact hfail s hrefl
    case _ hn =>
      have hlock := hf.ilock (E := OutOfBlocks) hT
      rw [wp_bind] at hlock
      rw [wp_bind]
      apply hlock.mono
      intro _ s₁ h₁
      apply h₁.bind
      intro _ s₂ h₂
      obtain ⟨hlike, hv, hlink, hsync⟩ := h₂
      rw [wp_bind, wp_get, wp_ite]
      split
      · apply (iput_kept (fun hlast => hlink hlast.2.2)).bind
        intro _ s₃ hput
        exact hfail s₃ (hlike.trans (hput (fun hone _ => hsync hone)))
      · have hT₂ : T ∈ s₂.used := hlike.used.symm ▸ hT
        apply (itruncTo_spec ((hlike.inv hs).file hT₂ hv) (FsState.lt_of_used hT)
          (Nat.not_lt.1 hn)).bind
        intro _ s₃ h₃
        obtain ⟨hst, hsy, hnl, hsize, -⟩ := h₃
        apply (iput_kept (fun hlast => (hnl ▸ hlink) hlast.2.2)).bind
        intro _ s₄ hput
        exact hok s₂ s₃ s₄ (Nat.not_lt.1 hn) hlike hv hst.done hsize (hput (fun _ _ => hsy))

theorem wp_sysFtruncate {Q : Int × File → FsState → Prop} (hs : BlockInv s)
    (hT : f.ip ∈ s.used) (hfail : ∀ s', Alike s s' → Q (-1, f) s')
    (hok : ∀ s₁ s', length.toNat ≤ MAXFILE * BSIZE → Alike s s₁ → s₁.valid f.ip = true →
      Done (s₁.others f.ip) (s₁.indexBlocks f.ip) f.ip s₁ s' →
      (s'.inode f.ip).size.toNat = length.toNat →
      Q (0, { f with off := min f.off length.toNat }) s') :
    wp OutOfBlocks (sysFtruncate f length) s Q := by
  have hrefl : Alike s s := ⟨rfl, rfl, rfl⟩
  unfold sysFtruncate
  simp only [wp_ite]
  split
  · exact hfail s hrefl
  · split
    · exact hfail s hrefl
    case _ hn =>
      split
      · exact hfail s hrefl
      · split
        · exact hfail s hrefl
        · apply ilock_then hT
          intro s₁ hlike hv _
          rw [wp_bind, wp_get, wp_ite]
          split
          · exact hfail s₁ hlike
          · apply (itruncTo_spec ((hlike.inv hs).file (hlike.used.symm ▸ hT) hv)
              (FsState.lt_of_used hT) (Nat.not_lt.1 hn)).bind
            intro _ s₂ h₂
            obtain ⟨hst, -, -, hsize, -⟩ := h₂
            exact hok s₁ s₂ (Nat.not_lt.1 hn) hlike hv hst.done hsize

theorem wp_sysFallocate (hfail : Q (-1) s) (hempty : Q 0 s)
    (hpunch : ∀ endb fuel b, wp OutOfBlocks (punchChunks f.ip endb fuel b) s Q)
    (halloc : ∀ endb target keep fuel b, endb ≤ MAXFILE → target ≤ MAXFILE * BSIZE →
      wp OutOfBlocks (fallocChunks f.ip endb target keep fuel b) s Q) :
    wp OutOfBlocks (sysFallocate f offset len flags) s Q := by
  unfold sysFallocate
  simp only [wp_ite]
  split
  · exact hfail
  · split
    · exact hfail
    · rw [wp_bind, wp_get]
      simp only [wp_ite]
      split
      · exact hfail
      · split
        · exact hfail
        · split
          · exact hempty
          · split
            · exact hfail
            · split
              · exact hfail
              case _ hmax =>
                split
                · exact hpunch _ _ _
                · refine halloc _ _ _ _ _ ?_ (Nat.not_lt.1 hmax)
                  change ¬ 65803 * 1024 < offset.toNat + len.toNat at hmax
                  change (offset.toNat + len.toNat + 1024 - 1) / 1024 ≤ 65803
                  omega

theorem wp_sysFclonerange (hsrc : fsrc.ip ∈ s.used)
    (hfail : ∀ s', Alike s s' → Q (-1) s') (hempty : Q 0 s)
    (hok : ∀ s₁, Alike s s₁ → fsrc.ip ≠ fdst.ip → dstOff + len / BSIZE * BSIZE ≤ MAXFILE * BSIZE →
      wp OutOfBlocks (cloneChunks fsrc.ip fdst.ip srcOff dstOff (len / BSIZE) (len / BSIZE) 0) s₁
        Q) :
    wp OutOfBlocks (sysFclonerange fsrc fdst srcOff dstOff len) s Q := by
  have hrefl : Alike s s := ⟨rfl, rfl, rfl⟩
  unfold sysFclonerange
  rw [wp_bind, wp_get]
  simp only [wp_ite]
  split
  · exact hempty
  · split
    · exact hfail s hrefl
    case _ hargs =>
      simp only [not_or, not_not] at hargs
      obtain ⟨-, -, -, -, -, -, -, -, -, hne, hmax⟩ := hargs
      apply ilock_then hsrc
      intro s₁ hlike _ _
      rw [wp_bind, wp_get, wp_ite]
      split
      · exact hfail s₁ hlike
      · refine hok s₁ hlike hne ?_
        have hle : len / BSIZE * BSIZE ≤ len := Nat.div_mul_le_self len BSIZE
        omega

variable {s₀ : FsState} {A : Nat}

structure Guard (A : Nat) (s₀ s : FsState) : Prop where
  inv : BlockInv s
  used : s.used = s₀.used
  mode : (s.inodeOf A).mode = (s₀.inodeOf A).mode
  size : (s.inodeOf A).size = (s₀.inodeOf A).size
  bytes : ∀ p, s.byteOf A p = s₀.byteOf A p

theorem Guard.refl (h : BlockInv s) (A : Nat) : Guard A s s := ⟨h, rfl, rfl, rfl, fun _ => rfl⟩

theorem Guard.alike (h : Guard A s₀ s) (hl : Alike s s') : Guard A s₀ s' :=
  ⟨hl.inv h.inv, hl.used.trans h.used, by rw [hl.inode, h.mode], by rw [hl.inode, h.size],
    fun p => by rw [hl.byteOf, h.bytes p]⟩

theorem Guard.done (h : Guard A s₀ s) (hA : A ∈ s.used) (hT : T ∈ s.used) (hv : s.valid T = true)
    (hne : A ≠ T) (hd : Done (s.others T) (s.indexBlocks T) T s s') : Guard A s₀ s' := by
  have hu := hd.frame.untouched hA hne
  refine ⟨h.inv.done hT hv hd, (hd.used hT hv).trans h.used, ?_, ?_, fun p => ?_⟩
  · rw [hu.inode, h.mode]
  · rw [hu.inode, h.size]
  · rw [hu.byteOf, h.bytes p]

structure GuardLocked (A T : Nat) (s₀ s : FsState) : Prop extends Guard A s₀ s where
  valid : s.valid T = true

theorem Guard.ilock (h : Guard A s₀ s) (hT : T ∈ s₀.used) :
    wp E (OopsOS.ilock T) s (fun _ => GuardLocked A T s₀) := by
  apply (ilock_spec (h.used ▸ hT)).mono
  intro _ s₁ h₁
  obtain ⟨hv, hb, hr, -, hi, -⟩ := h₁
  exact ⟨h.alike ⟨hb, hr, funext hi⟩, hv⟩

theorem Guard.lockBoth (h : Guard A s₀ s) (hsrc : src ∈ s₀.used) (hdst : dst ∈ s₀.used) :
    wp E (OopsOS.lockBoth src dst) s (fun _ s' => Guard A s₀ s' ∧ s'.valid src = true ∧
      s'.valid dst = true) := by
  apply (lockBoth_spec (h.used ▸ hsrc) (h.used ▸ hdst)).mono
  intro _ s' h'
  exact ⟨h.alike h'.1, h'.2⟩

abbrev Guards (A : Nat) (s₀ : FsState) (m : FsM α) : Prop := Maintains OutOfBlocks (Guard A s₀) m

theorem guards_ilock (hT : T ∈ s₀.used) : Guards A s₀ (ilock T) := fun _ h =>
  (h.ilock hT).mono fun _ _ h₁ => h₁.toGuard

theorem GuardLocked.mode_locked (h : GuardLocked A A s₀ s) :
    (s.inode A).mode = (s₀.inodeOf A).mode := by
  rw [← h.mode, FsState.inodeOf_valid h.valid]

section Others

variable (hA : A ∈ s₀.used) (hT : T ∈ s₀.used) (hne : A ≠ T)

include hA hT hne

theorem GuardLocked.step {m : FsM α} (h : GuardLocked A T s₀ s)
    (hm : ∀ O M, FileInv O M T 0 s → wp OutOfBlocks m s (fun _ s' => Done O M T s s')) :
    wp OutOfBlocks m s (fun _ => Guard A s₀) := by
  have hT' : T ∈ s.used := h.used ▸ hT
  apply (hm _ _ (h.inv.file hT' h.valid)).mono
  intro _ s' hd
  exact h.done (h.used ▸ hA) hT' h.valid hne hd

theorem guards_locked {m : FsM α} {rest : α → FsM β}
    (hm : ∀ O M s, FileInv O M T 0 s → wp OutOfBlocks m s (fun _ s' => Done O M T s s'))
    (hrest : ∀ a, Guards A s₀ (rest a)) :
    Guards A s₀ (do
      ilock T
      let a ← m
      rest a) := by
  intro s h
  apply (h.ilock hT).bind
  intro _ s₁ h₁
  apply (h₁.step hA hT hne (fun O M => hm O M s₁)).bind
  intro a s₂ h₂
  exact hrest a s₂ h₂

theorem guards_pwriteLoop (src : Source) (hn : offset + count < 2 ^ 32) (fuel total : Nat) :
    Guards A s₀ (pwriteLoop T src count offset fuel total) := by
  induction fuel generalizing total with
  | zero => exact .pure _
  | succ fuel ih =>
    refine .ite' (fun hlt => ?_) fun _ => .pure _
    refine guards_locked hA hT hne (fun O M s hinv => ?_) (fun r => .ite (.pure _) (ih _))
    have hle : min (count - total) writeMax ≤ count - total := Nat.min_le_left _ _
    apply (pwritePass_spec hinv (FsState.lt_of_used hT) (by omega)).mono
    intro _ s' hs
    exact hs.stored.done

theorem guards_punchChunks (endb fuel b : Nat) : Guards A s₀ (punchChunks T endb fuel b) := by
  induction fuel generalizing b with
  | zero => exact .pure _
  | succ fuel ih =>
    refine .ite ?_ (.pure _)
    refine guards_locked hA hT hne (fun O M s hinv => ?_) (fun r => .ite (.pure _) (ih _))
    apply (ipunch_spec hinv (FsState.lt_of_used hT) (Nat.le_add_right _ _)).mono
    intro _ s' hs
    exact hs.1.done

theorem guards_fallocChunks (hend : endb ≤ MAXFILE) (htarget : target ≤ MAXFILE * BSIZE)
    (keep : Bool) (fuel b : Nat) : Guards A s₀ (fallocChunks T endb target keep fuel b) := by
  induction fuel generalizing b with
  | zero => exact .pure _
  | succ fuel ih =>
    refine .ite' (fun hlt => ?_) fun _ => .pure _
    refine guards_locked hA hT hne (fun O M s hinv => ?_) (fun r => .ite (.pure _) (ih _))
    have hle : min (endb - b) fallocMax ≤ endb - b := Nat.min_le_left _ _
    apply (falloc_done hinv (FsState.lt_of_used hT) (Nat.le_add_right _ _) (by omega)
      (Nat.le_trans (Nat.min_le_left _ _) htarget)).mono
    intro _ s' hs
    exact hs.2.1

omit hne in
theorem guards_openInode (hne : Ns.has omode Ns.O_TRUNC = true → A ≠ T) :
    Guards A s₀ (openInode T omode) := by
  intro s h
  apply (h.ilock hT).bind
  intro _ s₁ h₁
  rw [wp_bind, wp_get]
  simp only [wp_ite]
  split
  · next htrunc =>
    refine (h₁.step hA hT (hne htrunc.1) (fun O M hinv => ?_)).bind (fun _ s₂ h₂ => h₂)
    apply (itrunc_spec hinv (FsState.lt_of_used hT)).mono
    intro _ s' hs
    exact hs.1.done
  · exact h₁.toGuard

end Others

section

variable (hA : A ∈ s₀.used)

include hA

section
variable (hw : (s₀.inodeOf A).mode &&& MODE_W = 0)
include hw

theorem guards_filewriteLoop (hT : T ∈ s₀.used) (src : Source) (n fuel i off : Nat) :
    Guards A s₀ (filewriteLoop T src n fuel i off) := by
  induction fuel generalizing i off with
  | zero => exact .pure _
  | succ fuel ih =>
    refine .ite ?_ (.pure _)
    intro s h
    apply (h.ilock hT).bind
    intro _ s₁ h₁
    rw [wp_bind, wp_get, wp_ite]
    split
    · exact h₁.toGuard
    case _ hmode =>
      have hne : A ≠ T := by
        intro he
        subst he
        rw [h₁.mode_locked, hw] at hmode
        exact hmode rfl
      apply (h₁.step hA hT hne (fun O M hinv => writei_done hinv (FsState.lt_of_used hT)
        (writeMax_lt _) (src.drop i) off)).bind
      intro r s₂ h₂
      exact Maintains.ite (.pure _) (ih _ _) s₂ h₂

theorem guards_filewrite (f : Handle) (hf : f.ip ∈ s₀.used) (src : Source) (n : Nat) :
    Guards A s₀ (filewrite f src n) :=
  .ite (.pure _) (guards_filewriteLoop hA hw hf src n n 0 _)

theorem guards_sysWritev
    (f : Handle) (hf : f.ip ∈ s₀.used) (off : Nat) (total : Int) (iov : List (Source × Nat)) :
    Guards A s₀ (sysWritev f off total iov) := by
  refine .bind ?_ fun _ => .pure _
  induction iov generalizing off total with
  | nil => exact .pure _
  | cons v iov ih =>
    exact .ite (ih _ _) (.bind (guards_filewrite hA hw { f with off := off } hf v.1 v.2) (fun _ =>
      .ite (.pure _) (.ite (.pure _) (ih _ _))))

end

theorem guards_sysFtruncate (f : File) (hf : f.ip ∈ s₀.used) (hne : f.writable = true → A ≠ f.ip)
    (length : Int) : Guards A s₀ (sysFtruncate f length) := by
  cases hwr : f.writable with
  | false =>
    exact .ite (.pure _) (.ite (.pure _) (.ite (.pure _)
      (.ite' (fun _ => .pure _) fun hno => absurd hwr hno)))
  | true =>
  intro s h
  apply wp_sysFtruncate h.inv (h.used ▸ hf)
  · intro s' hlike
    exact h.alike hlike
  · intro s₁ s' _ hlike hv hd _
    have h₁ := h.alike hlike
    exact h₁.done (h₁.used ▸ hA) (h₁.used ▸ hf) hv (hne hwr) hd

theorem guards_sysFallocate (f : File) (hf : f.ip ∈ s₀.used) (hne : f.writable = true → A ≠ f.ip)
    (offset len : Int) (flags : UInt32) :
    Guards A s₀ (sysFallocate f offset len flags) := by
  cases hwr : f.writable with
  | false =>
    exact .ite (.pure _) (.ite (.pure _) (.bind .get fun _ => .ite (.pure _)
      (.ite' (fun _ => .pure _) fun hno => absurd hwr hno)))
  | true =>
  intro s h
  apply wp_sysFallocate h h
  · intro endb fuel b
    exact guards_punchChunks hA hf (hne hwr) endb fuel b s h
  · intro endb target keep fuel b hend htarget
    exact guards_fallocChunks hA hf (hne hwr) hend htarget keep fuel b s h

theorem guards_cloneChunks (hsrc : src ∈ s₀.used) (hdst : dst ∈ s₀.used)
    (hne : A ≠ dst) (hsd : src ≠ dst) (srcOff : Nat)
    (hmax : dstOff / BSIZE + nblocks ≤ MAXFILE) (fuel b : Nat) :
    Guards A s₀ (cloneChunks src dst srcOff dstOff nblocks fuel b) := by
  induction fuel generalizing b with
  | zero => exact .pure _
  | succ fuel ih =>
    intro s h
    unfold cloneChunks
    by_cases hlt : b < nblocks
    · rw [if_pos hlt]
      apply (h.lockBoth hsrc hdst).bind
      intro _ s₁ h₁
      obtain ⟨h₁, hvs, hvd⟩ := h₁
      have hle : min (nblocks - b) cloneMax ≤ nblocks - b := Nat.min_le_left _ _
      have hrange : (dstOff + b * BSIZE) / BSIZE + min (nblocks - b) cloneMax * BSIZE / BSIZE ≤
          MAXFILE := by
        rw [Nat.add_mul_div_right _ _ (by decide), Nat.mul_div_cancel _ (by decide)]
        omega
      have hlend := h₁.inv.lender (A := dst) (h₁.used ▸ hsrc) hvs hsd
      have hinv := h₁.inv.file (h₁.used ▸ hdst) hvd
      apply (icloneRange_spec hinv hlend hsd (FsState.lt_of_used hdst) hrange).bind
      intro r s₂ h₂
      have h₂' := h₁.done (h₁.used ▸ hA) (h₁.used ▸ hdst) hvd hne h₂.2.1.done
      exact Maintains.ite (.pure _) (ih _) s₂ h₂'
    · rw [if_neg hlt]
      exact h

theorem guards_sysFclonerange (fsrc fdst : Handle) (hsrc : fsrc.ip ∈ s₀.used)
    (hdst : fdst.ip ∈ s₀.used) (hne : fdst.writable = true → A ≠ fdst.ip)
    (srcOff dstOff len : Nat) : Guards A s₀ (sysFclonerange fsrc fdst srcOff dstOff len) := by
  cases hwr : fdst.writable with
  | false =>
    exact .bind .get fun _ => .ite (.pure _) (.ite' (fun _ => .pure _) fun hno => by
      simp [hwr] at hno)
  | true =>
  intro s h
  refine wp_sysFclonerange (h.used ▸ hsrc) (fun s' hlike => h.alike hlike) h ?_
  intro s₁ hlike hsd hmax
  refine guards_cloneChunks hA hsrc hdst (hne hwr) hsd _ ?_ _ _ s₁ (h.alike hlike)
  change dstOff + len / 1024 * 1024 ≤ 65803 * 1024 at hmax
  change dstOff / 1024 + len / 1024 ≤ 65803
  omega

theorem guards_sysDedup (hsrc : src ∈ s₀.used) (hdst : dst ∈ s₀.used) :
    Guards A s₀ (sysDedup src dst) := by
  intro s h
  unfold sysDedup
  rw [wp_ite]
  split
  · exact h
  case _ hsd =>
    apply (h.lockBoth hsrc hdst).bind
    intro _ s₁ h₁
    obtain ⟨h₁, hvs, hvd⟩ := h₁
    have hdst' : dst ∈ s₁.used := h₁.used ▸ hdst
    have hlend := h₁.inv.lender (A := dst) (h₁.used ▸ hsrc) hvs hsd
    apply (idedup_spec (h₁.inv.file hdst' hvd) hlend hsd (FsState.lt_of_used hdst)).mono
    intro r s₂ h₂
    obtain ⟨hst, hmeta, hbytes⟩ := h₂
    by_cases he : A = dst
    · subst he
      have hv₂ := hst.done.inv.valid
      refine ⟨h₁.inv.done hdst' hvd hst.done, (hst.done.used hdst' hvd).trans h₁.used, ?_, ?_,
        fun p => ?_⟩
      · rw [FsState.inodeOf_valid hv₂, hmeta.mode, ← FsState.inodeOf_valid hvd, h₁.mode]
      · rw [FsState.inodeOf_valid hv₂, hmeta.size, ← FsState.inodeOf_valid hvd, h₁.size]
      · rw [FsState.byteOf_valid hv₂, hbytes, ← FsState.byteOf_valid hvd, h₁.bytes p]
    · exact h₁.done (h₁.used ▸ hA) hdst' hvd he hst.done

theorem guards_vmaWriteback (vma : Mapping) (hT : vma.file.ip ∈ s₀.used)
    (hne : vma.prot &&& PROT_WRITE ≠ 0 → A ≠ vma.file.ip) (pageOff : Nat) (page : Nat → UInt8) :
    Guards A s₀ (vmaWriteback vma pageOff page) := by
  refine .ite (.pure _) (.ite' (fun _ => .pure _) fun hprot => .ite (.pure _) ?_)
  refine guards_locked hA hT (hne hprot) (fun O M s hinv => ?_) (fun r => .pure _)
  exact writei_done hinv (FsState.lt_of_used hT)
    (Nat.lt_of_le_of_lt (Nat.min_le_left _ _) (by decide)) _ _

theorem Guard.sysTruncate (h : Guard A s₀ s) (hT : T ∈ s₀.used) (hne : A ≠ T)
    (hf : Found T s) (length : Int) :
    wp OutOfBlocks (OopsOS.sysTruncate (some T) length) s (fun _ => Guard A s₀) := by
  apply wp_sysTruncate h.inv (h.used ▸ hT) hf
  · intro s' hlike
    exact h.alike hlike
  · intro s₁ s₂ s' _ hlike hv hd _ hlike'
    have h₁ := h.alike hlike
    exact (h₁.done (h₁.used ▸ hA) (h₁.used ▸ hT) hv hne hd).alike hlike'

end

theorem guards_fileread (f : Handle) (hf : f.ip ∈ s₀.used) (copyout : Nat → Nat → Bool)
    (n : Nat) : Guards A s₀ (fileread f copyout n) :=
  .ite (.pure _) (.bind (guards_ilock hf) fun _ => .bind .get fun _ => .ite (.pure _) (.pure _))

theorem guards_readvLoop (f : Handle) (hf : f.ip ∈ s₀.used) (copyout : Nat → Nat → Bool)
    (off : Nat) (got : List UInt8) (lens : List Nat) :
    Guards A s₀ (readvLoop f copyout off got lens) := by
  induction lens generalizing off got with
  | nil => exact .pure _
  | cons len lens ih =>
    exact .ite (ih _ _)
      (.bindOption (guards_fileread { f with off := off } hf copyout len) (.pure _)
      fun data => .ite (.pure _) (ih _ _))

theorem guards_sysPread (f : Handle) (hf : f.ip ∈ s₀.used) (copyout : Nat → Nat → Bool)
    (count offset : Nat) : Guards A s₀ (sysPread f copyout count offset) :=
  .ite (.pure _) (.bind (guards_ilock hf) fun _ => .bind .get fun _ => .ite (.pure _) (.pure _))

theorem guards_mmapHandler (vma : Mapping) (hT : vma.file.ip ∈ s₀.used) (pageOff : Nat)
    (store : Bool) : Guards A s₀ (mmapHandler vma pageOff store) :=
  .ite (.pure _)
    (.ite (.pure _) (.ite (.bind (guards_ilock hT) fun _ => .bind .get fun _ => .pure _) (.pure _)))

theorem guards_sysAccess (hT : T ∈ s₀.used) (mode : UInt32) :
    Guards A s₀ (sysAccess T mode) :=
  .bind (guards_ilock hT) fun _ => .bind .get fun _ => .ite (.pure _) (.ite (.pure _) (.pure _))

/-- Open files and paths lead to allocated inodes, paths to linked ones, and offsets are 32-bit
numbers. -/
def DataCall.Allowed (s : FsState) : DataCall → Prop
  | read f _ _ | readv f _ _ | pread f _ _ _ | write f _ _ | writev f _ => f.ip ∈ s.used
  | pwrite f _ count offset => f.ip ∈ s.used ∧ offset + count < 2 ^ 32
  | truncate T _ => T ∈ s.used ∧ Found T s
  | ftruncate f _ | fallocate f _ _ _ => f.ip ∈ s.used
  | fclonerange fsrc fdst _ _ _ => fsrc.ip ∈ s.used ∧ fdst.ip ∈ s.used
  | dedup src dst => src ∈ s.used ∧ dst ∈ s.used
  | «open» T _ | access T _ => T ∈ s.used
  | fault vma _ _ | unmap vma _ _ | evict vma _ _ => vma.file.ip ∈ s.used

/-- A call that changes a file without a test of the write bit is made on another one than `A`. -/
def DataCall.Tested (A : Nat) : DataCall → Prop
  | pwrite f _ _ _ | ftruncate f _ | fallocate f _ _ _ | fclonerange _ f _ _ _ =>
    f.writable = true → A ≠ f.ip
  | truncate T _ => A ≠ T
  | «open» T omode => Ns.has omode Ns.O_TRUNC = true → A ≠ T
  | evict vma _ _ => vma.prot &&& PROT_WRITE ≠ 0 → A ≠ vma.file.ip
  | _ => True

theorem DataCall.guarded (h : Guard A s₀ s) (hA : A ∈ s₀.used)
    (hw : (s₀.inodeOf A).mode &&& MODE_W = 0) (c : DataCall) (hc : c.Allowed s)
    (ht : c.Tested A) : wp OutOfBlocks c.exec s (fun _ => Guard A s₀) := by
  have hret : ∀ {α : Type} {m : FsM α}, wp OutOfBlocks m s (fun _ => Guard A s₀) →
      wp OutOfBlocks (do
        let _ ← m
        return ([] : List UInt8)) s (fun _ => Guard A s₀) := by
    intro α m hm
    apply hm.bind
    intro _ s₁ h₁
    exact h₁
  cases c with
  | read f copyout n =>
    apply (guards_fileread f (h.used ▸ hc) copyout n s h).bind
    intro _ s₁ h₁
    exact h₁
  | readv f copyout lens =>
    exact Maintains.bind (guards_readvLoop f (h.used ▸ hc) copyout _ _ lens) (fun _ => .pure _) s h
  | pread f copyout count offset => exact guards_sysPread f (h.used ▸ hc) copyout _ _ s h
  | write f src n => exact hret (guards_filewrite hA hw f (h.used ▸ hc) src n s h)
  | writev f iov => exact hret (guards_sysWritev hA hw f (h.used ▸ hc) _ _ iov s h)
  | pwrite f src count offset =>
    refine hret (Maintains.ite' (fun _ => .pure _) (fun hf => ?_) s h)
    have hne := ht (Bool.not_eq_false _ ▸ (not_or.1 hf).2)
    exact .bind (guards_pwriteLoop hA (h.used ▸ hc.1) hne src hc.2 _ _) fun _ => .pure _
  | truncate T length => exact hret (h.sysTruncate hA (h.used ▸ hc.1) ht hc.2 length)
  | ftruncate f length => exact hret (guards_sysFtruncate hA _ (h.used ▸ hc) ht length s h)
  | fallocate f offset len flags =>
    exact hret (guards_sysFallocate hA _ (h.used ▸ hc) ht offset len flags s h)
  | fclonerange fsrc fdst srcOff dstOff len =>
    exact hret (guards_sysFclonerange hA _ _ (h.used ▸ hc.1) (h.used ▸ hc.2) ht _ _ _ s h)
  | dedup src dst => exact hret (guards_sysDedup hA (h.used ▸ hc.1) (h.used ▸ hc.2) s h)
  | «open» T omode => exact hret (guards_openInode hA (h.used ▸ hc) ht s h)
  | fault vma pageOff store => exact guards_mmapHandler vma (h.used ▸ hc) pageOff store s h
  | unmap vma src n => exact hret (guards_filewrite hA hw _ (h.used ▸ hc) src n s h)
  | evict vma pageOff page =>
    exact hret (guards_vmaWriteback hA vma (h.used ▸ hc) ht pageOff page s h)
  | access T mode => exact hret (guards_sysAccess (h.used ▸ hc) mode s h)

def DataRuns (P : DataCall → Prop) : FsState → FsState → Prop :=
  Relation.ReflTransGen fun s s' => ∃ c data, P c ∧ c.Allowed s ∧ c.exec s = .ok (data, s')

theorem DataRuns.guarded (h : DataRuns (DataCall.Tested A) s s') (hs : BlockInv s)
    (hA : A ∈ s.used) (hw : (s.inodeOf A).mode &&& MODE_W = 0) : Guard A s s' := by
  induction h with
  | refl => exact .refl hs A
  | tail _ hcall ih =>
    obtain ⟨c, data, ht, hc, hrun⟩ := hcall
    exact (c.guarded ih hA hw hc ht).of_ok hrun

def DataCall.Reads (A : Nat) : DataCall → Prop
  | read f _ _ | readv f _ _ | pread f _ _ _ => f.ip = A
  | _ => False

theorem fileread_refused (hf : f.ip ∈ s.used)
    (hr : (s.inodeOf f.ip).mode &&& MODE_R = 0) (copyout : Nat → Nat → Bool) (n : Nat) :
    wp E (fileread f copyout n) s (fun r _ => r = none) := by
  unfold fileread
  rw [wp_ite]
  split
  · rfl
  · apply ilock_then hf
    intro s₁ hlike hv _
    rw [wp_bind, wp_get, wp_ite, ← hlike.inodeOf hv, if_pos hr]
    rfl

theorem sysReadv_refused (f : Handle) (hf : f.ip ∈ s.used)
    (hr : (s.inodeOf f.ip).mode &&& MODE_R = 0) (copyout : Nat → Nat → Bool) (off : Nat)
    (lens : List Nat) : wp E (sysReadv f copyout off lens) s (fun data _ => data = []) := by
  induction lens with
  | nil => rfl
  | cons len lens ih =>
    unfold sysReadv readvLoop
    split
    · exact ih
    · rw [bind_assoc]
      apply (fileread_refused (f := { f with off := off }) hf hr copyout len).bind
      intro r s₁ hnone
      subst hnone
      rfl

theorem sysPread_refused (hf : f.ip ∈ s.used)
    (hr : (s.inodeOf f.ip).mode &&& MODE_R = 0) (copyout : Nat → Nat → Bool)
    (count offset : Nat) :
    wp E (sysPread f copyout count offset) s (fun data _ => data = []) := by
  unfold sysPread
  rw [wp_ite]
  split
  · rfl
  · apply ilock_then hf
    intro s₁ hlike hv _
    rw [wp_bind, wp_get, wp_ite, ← hlike.inodeOf hv, if_pos hr]
    rfl

theorem DataCall.reads_nothing {c : DataCall} (hA : A ∈ s.used)
    (hr : (s.inodeOf A).mode &&& MODE_R = 0) (hc : c.Reads A) :
    wp E c.exec s (fun data _ => data = []) := by
  cases c with
  | read f copyout n =>
    cases hc
    apply (fileread_refused hA hr copyout n).bind
    intro r s₁ hnone
    subst hnone
    rfl
  | readv f copyout lens =>
    cases hc
    exact sysReadv_refused f hA hr copyout f.off lens
  | pread f copyout count offset =>
    cases hc
    exact sysPread_refused hA hr copyout count offset
  | _ => exact hc.elim

theorem access_spec (hA : A ∈ s.used) (hmode : mode ≠ 0) :
    wp E (sysAccess A mode) s
    (fun r _ => r = 0 ↔ ¬ (mode &&& R_OK ≠ 0 ∧ (s.inodeOf A).mode &&& 4 = 0 ∨
      mode &&& W_OK ≠ 0 ∧ (s.inodeOf A).mode &&& 2 = 0 ∨ mode &&& X_OK ≠ 0 ∧
        (s.inodeOf A).mode &&& 1 = 0)) := by
  apply ilock_then hA
  intro s₁ hlike hv _
  rw [wp_bind, wp_get, ← hlike.inodeOf hv, wp_ite, if_neg hmode, wp_ite]
  split
  case _ hm => exact ⟨fun h => (nomatch h), fun h => absurd hm h⟩
  case _ hm => exact ⟨fun _ => hm, fun _ => rfl⟩

theorem access_read (hA : A ∈ s.used) :
    wp E (sysAccess A R_OK) s (fun r _ => r = 0 ↔ (s.inodeOf A).mode &&& 4 ≠ 0) := by
  have hR : R_OK ≠ 0 ∧ R_OK &&& R_OK ≠ 0 ∧ R_OK &&& W_OK = 0 ∧ R_OK &&& X_OK = 0 := by decide
  simpa [hR] using access_spec (E := E) hA hR.1

theorem access_write (hA : A ∈ s.used) :
    wp E (sysAccess A W_OK) s (fun r _ => r = 0 ↔ (s.inodeOf A).mode &&& MODE_W ≠ 0) := by
  have hW : W_OK ≠ 0 ∧ W_OK &&& R_OK = 0 ∧ W_OK &&& W_OK ≠ 0 ∧ W_OK &&& X_OK = 0 := by decide
  simpa [hW, MODE_W] using access_spec (E := E) hA hW.1

/-- Files without the write bit keep their bytes in runs of calls that test it, those without the
read bit are not read, and `access` is right about reads exactly if its bit agrees with the read
bit. -/
theorem mode_bits_enforced (hs : BlockInv s) (hA : A ∈ s.used) :
    ((s.inodeOf A).mode &&& MODE_W = 0 → ∀ s', DataRuns (DataCall.Tested A) s s' →
      (s'.inodeOf A).size = (s.inodeOf A).size ∧ ∀ p, s'.byteOf A p = s.byteOf A p) ∧
    ((s.inodeOf A).mode &&& MODE_R = 0 → ∀ c : DataCall, c.Reads A →
      ∀ data s', c.exec s = .ok (data, s') → data = []) ∧
    (∀ r s', sysAccess A W_OK s = .ok (r, s') → (r = 0 ↔ (s.inodeOf A).mode &&& MODE_W ≠ 0)) ∧
    ∀ r s', sysAccess A R_OK s = .ok (r, s') →
      ((r = 0 ↔ (s.inodeOf A).mode &&& MODE_R ≠ 0) ↔
        ((s.inodeOf A).mode &&& 4 ≠ 0 ↔ (s.inodeOf A).mode &&& MODE_R ≠ 0)) := by
  refine ⟨fun hw s' hrun => ?_, fun hr c hc data s' hrun => ?_, fun r s' hrun => ?_,
    fun r s' hrun => ?_⟩
  · have hg := hrun.guarded hs hA hw
    exact ⟨hg.size, hg.bytes⟩
  · exact (DataCall.reads_nothing (E := fun _ => True) hA hr hc).of_ok hrun
  · exact (access_write (E := fun _ => True) hA).of_ok hrun
  · have hread := (access_read (E := fun _ => True) hA).of_ok hrun
    rw [hread]

def openHandle (A : Nat) : Handle := ⟨⟨.inode, true, A, 0⟩, true⟩

theorem mode_bits_enforced_fives :
    (∃ data s', (DataCall.write (openHandle 1) (.kernel fun _ => 7) 1).exec fivesState =
        .ok (data, s') ∧ s'.byteOf 1 0 = fivesState.byteOf 1 0) ∧
      ∀ data s', (DataCall.read (openHandle 1) (fun _ _ => true) 4).exec fivesState =
        .ok (data, s') → data = [] := by
  obtain ⟨hwrite, hread, -⟩ := mode_bits_enforced fivesState_inv fivesState_used
  have hmode : (fivesState.inodeOf 1).mode = 0 := by decide +kernel
  constructor
  · obtain ⟨data, s', hrun, -⟩ := exists_of_lands (P := fun _ _ => true)
      (m := (DataCall.write (openHandle 1) (.kernel fun _ => 7) 1).exec) (s := fivesState)
      (by decide +kernel)
    refine ⟨data, s', hrun, (hwrite (by rw [hmode]; rfl) s' ?_).2 0⟩
    exact .single ⟨.write (openHandle 1) (.kernel fun _ => 7) 1, data, trivial, fivesState_used,
      hrun⟩
  · exact hread (by rw [hmode]; rfl) _ rfl

def newFileState : FsState :=
  .cached (oneFileDisk nmeta { fileInode 1024 [3000] with mode := 3 } 5)

/-- A `pwrite` changes a read-only file, a page fault reads a write-only one, and `access` denies
reading a new file. -/
theorem pwrite_ignores_mode :
    (BlockInv fivesState ∧ 1 ∈ fivesState.used ∧ (fivesState.inodeOf 1).mode = 0) ∧
    (∃ data s', (DataCall.pwrite (openHandle 1) (.kernel fun _ => 7) 1 0).exec fivesState =
      .ok (data, s') ∧ s'.byteOf 1 0 ≠ fivesState.byteOf 1 0) ∧
    (∃ s', (DataCall.fault ⟨openHandle 1, PROT_READ, 4, 0, 4⟩ 0 false).exec fivesState =
      .ok ([5, 5, 5, 5], s')) ∧
    (newFileState.inodeOf 1).mode &&& MODE_R ≠ 0 ∧
    ∃ s', sysAccess 1 R_OK newFileState = .ok (-1, s') := by
  refine ⟨⟨fivesState_inv, fivesState_used, by decide +kernel⟩, ?_, ?_, by decide +kernel, ?_⟩
  · obtain ⟨data, s', hrun, hp⟩ := exists_of_lands
      (P := fun _ s' => decide (s'.byteOf 1 0 ≠ fivesState.byteOf 1 0))
      (m := (DataCall.pwrite (openHandle 1) (.kernel fun _ => 7) 1 0).exec) (s := fivesState)
      (by decide +kernel)
    exact ⟨data, s', hrun, of_decide_eq_true hp⟩
  · exact returns_of_yields (by decide +kernel)
  · exact returns_of_yields (by decide +kernel)

end OopsOS
