import OopsOS.ModeBits
import OopsOS.Traces
import OopsOS.ZeroFill

namespace OopsOS
set_option autoImplicit true
attribute [local grind =] Function.update_apply

variable {s₀ s s₁ s' : FsState} {T z : Nat} {c : SizeCall}

def maxSize : Nat := MAXFILE * BSIZE

def sysWrite (f : Handle) (src : Source) (n : Int) : FsM Int := do
  if n < 0 then return -1
  else do
    let r ← filewrite f src n.toNat
    return r.1

def UIO_MAXIOV : Nat := 16

/-- The calls that write or resize files; `unmap` and `evict` are the writes of a mapping. -/
inductive SizeCall where
  | write (f : Handle) (src : Source) (n : Int)
  | pwrite (f : Handle) (src : Source) (count offset : Int)
  | writev (f : Handle) (iov : List (Source × Int))
  | truncate (ip : Option Nat) (length : Int)
  | ftruncate (f : Handle) (length : Int)
  | fallocate (f : Handle) (offset len : Int) (flags : UInt32)
  | fclonerange (fsrc fdst : Handle) (srcOff dstOff len : Int)
  | unmap (vma : Mapping) (src : Source) (n : Int)
  | evict (vma : Mapping) (pageOff : Nat) (page : Nat → UInt8)

def SizeCall.exec : SizeCall → FsM Int
  | write f src n => sysWrite f src n
  | pwrite f src count offset =>
    if count < 0 ∨ offset < 0 then return -1 else sysPwrite f src count.toNat offset.toNat
  | writev f iov =>
    if iov.length = 0 ∨ UIO_MAXIOV < iov.length ∨ ∃ v ∈ iov, v.2 < 0 then return -1
    else sysWritev f f.off 0 (iov.map fun v => (v.1, v.2.toNat))
  | truncate ip length => sysTruncate ip length
  | ftruncate f length => do
    let r ← sysFtruncate f.toFile length
    return r.1
  | fallocate f offset len flags => sysFallocate f.toFile offset len flags
  | fclonerange fsrc fdst srcOff dstOff len =>
    if srcOff < 0 ∨ dstOff < 0 ∨ len < 0 then return -1
    else sysFclonerange fsrc fdst srcOff.toNat dstOff.toNat len.toNat
  | unmap vma src n => sysWrite vma.file src n
  | evict vma pageOff page => vmaWriteback vma pageOff page

def SizeCall.fire (s : FsState) (c : SizeCall) : Option FsState :=
  match c.exec s with
  | .ok (_, s') => some s'
  | .error _ => none

/-- Open files and paths lead to allocated inodes, paths to linked ones, and `pwrite` has 32-bit
arguments. -/
def SizeCall.Allowed (s : FsState) : SizeCall → Prop
  | write f _ _ | writev f _ | ftruncate f _ | fallocate f _ _ _ => f.ip ∈ s.used
  | pwrite f _ count offset => f.ip ∈ s.used ∧ count < 2 ^ 31 ∧ offset < 2 ^ 31
  | truncate none _ => True
  | truncate (some T) _ => T ∈ s.used ∧ Found T s
  | fclonerange fsrc fdst _ _ _ => fsrc.ip ∈ s.used ∧ fdst.ip ∈ s.used
  | unmap vma _ _ | evict vma _ _ => vma.file.ip ∈ s.used

/-- A `pwrite` that is not refused for its arguments ends below the largest size. -/
def SizeCall.InBounds : SizeCall → Prop
  | pwrite f _ count offset =>
    f.type ≠ .inode ∨ f.writable = false ∨ count ≤ 0 ∨ offset < 0 ∨ offset + count ≤ maxSize
  | _ => True

def WholeWrite (f : Handle) (src : Source) (n : Int) : Prop :=
  n ≤ writeMax ∨ (∀ t m, src.fault t m = none) ∧ f.off + n ≤ maxSize

/-- A call that does not fail after a part of its work; of a `writev`, the first buffer. -/
def SizeCall.Whole : SizeCall → Prop
  | write f src n => WholeWrite f src n
  | writev f iov => ∀ v, iov.find? (fun v => 0 < v.2) = some v → WholeWrite f v.1 v.2
  | unmap vma src n => WholeWrite vma.file src n
  | _ => True

def SizeOk (s : FsState) : Prop := ∀ i ∈ s.used, (s.inodeOf i).size.toNat ≤ maxSize

def SameSizes (s s' : FsState) : Prop := ∀ i ∈ s.used, (s'.inodeOf i).size = (s.inodeOf i).size

structure Sized (T z : Nat) (s₀ s : FsState) : Prop where
  inv : BlockInv s
  used : s.used = s₀.used
  others : ∀ i ∈ s₀.used, i ≠ T → s.inodeOf i = s₀.inodeOf i
  type : (s.inodeOf T).type = (s₀.inodeOf T).type
  size : (s.inodeOf T).size.toNat = z

theorem Sized.refl (h : BlockInv s) (T : Nat) : Sized T (s.inodeOf T).size.toNat s s :=
  ⟨h, rfl, fun _ _ _ => rfl, rfl, rfl⟩

def Refused (T z off : Nat) (s : FsState) : Prop :=
  (s.inodeOf T).mode &&& MODE_W = 0 ∨ z < off

theorem filewriteLoop_end (h : n ≤ i) :
    filewriteLoop T src n fuel i off = pure ((n : Int), off) := by
  cases fuel with
  | zero => rfl
  | succ fuel => rw [filewriteLoop, if_neg (Nat.not_lt.2 h)]

theorem Source.drop_fault (src : Source) (i : Nat) (h : ∀ t m, src.fault t m = none) (t m : Nat) :
    (src.drop i).fault t m = none :=
  h (i + t) m

/-- What a call on the file `T` of size `z` leaves behind. -/
def Bounded (T z : Nat) (whole : Prop) (s₀ : FsState) (r : Int) (s : FsState) : Prop :=
  ∃ z', Sized T z' s₀ s ∧ z' ≤ maxSize ∧ (whole → r < 0 → z' = z)

section
variable (h : Sized T z s₀ s)
include h

theorem Sized.alike (hl : Alike s s') : Sized T z s₀ s' := by
  refine ⟨hl.inv h.inv, hl.used.trans h.used, fun i hi hne => ?_, ?_, ?_⟩
  · rw [hl.inode, h.others i hi hne]
  · rw [hl.inode, h.type]
  · rw [hl.inode, h.size]

theorem Sized.same (hz : z = (s₀.inodeOf T).size.toNat) : SameSizes s₀ s := by
  intro i hi
  by_cases he : i = T
  · rw [he]
    exact UInt32.toNat_inj.1 (h.size.trans hz)
  · rw [h.others i hi he]

theorem Sized.bounded (hz : z ≤ maxSize) : Bounded T z whole s₀ r s :=
  ⟨z, h, hz, fun _ _ => rfl⟩

section
variable (hT : T ∈ s₀.used)
include hT

theorem Sized.done (hv : s.valid T = true) (hd : Done (s.others T) (s.indexBlocks T) T s s') :
    Sized T (s'.inode T).size.toNat s₀ s' := by
  have hT' : T ∈ s.used := h.used ▸ hT
  have hv' := hd.inv.valid
  refine ⟨h.inv.done hT' hv hd, (hd.used hT' hv).trans h.used, fun i hi hne => ?_, ?_, ?_⟩
  · rw [(hd.frame.untouched (h.used ▸ hi) hne).inode, h.others i hi hne]
  · rw [FsState.inodeOf_valid hv', hd.type, ← FsState.inodeOf_valid hv, h.type]
  · rw [FsState.inodeOf_valid hv']

theorem Sized.bound (h₀ : SizeOk s₀) : SizeOk s ↔ z ≤ maxSize := by
  constructor
  · intro hs
    rw [← h.size]
    exact hs T (h.used ▸ hT)
  · intro hz i hi
    rw [h.used] at hi
    by_cases he : i = T
    · rw [he, h.size]
      exact hz
    · rw [h.others i hi he]
      exact h₀ i hi

theorem Sized.ilock_then {m : FsM α} {Q : α → FsState → Prop}
    (hm : ∀ s₁, Sized T z s₀ s₁ → s₁.valid T = true →
      (s₁.inode T).size.toNat = z → (s₁.inode T).mode = (s.inodeOf T).mode →
      wp E m s₁ Q) : wp E (do ilock T; m) s Q := by
  apply OopsOS.ilock_then (h.used ▸ hT)
  intro s₁ hlike hv _
  have h₁ := h.alike hlike
  refine hm s₁ h₁ hv ?_ ?_
  · rw [← FsState.inodeOf_valid hv, h₁.size]
  · rw [← hlike.inodeOf hv]

theorem Sized.writei (hv : s.valid T = true)
    (hsize : (s.inode T).size.toNat = z) (hz : z ≤ maxSize) (hn : n < 2 ^ 32) (src : Source)
    (off : Nat) : wp OutOfBlocks (OopsOS.writei T src off n) s (fun r s' =>
      ∃ z', Sized T z' s₀ s' ∧ z' ≤ maxSize ∧ (s'.inodeOf T).mode = (s.inodeOf T).mode ∧
        (r = -1 ∧ z' = z ∧ ¬ (off ≤ z ∧ off + n ≤ maxSize) ∨
          r = n ∧ off ≤ z ∧ ((∀ t m, src.fault t m = none) → z' = max z (off + n)))) := by
  by_cases hok : off ≤ z ∧ off + n ≤ maxSize
  · have hinv := h.inv.file (h.used ▸ hT) hv
    apply (writei_spec hinv (FsState.lt_of_used hT) (hsize ▸ hok.1) hok.2).mono
    intro r s' hs
    obtain ⟨hr, hw⟩ := hs
    have hgrow := hw.size
    have hstored := src.stored_le n n 0 off
    refine ⟨_, h.done hT hv hw.done, by omega, ?_, .inr ⟨hr, hok.1, fun hno => ?_⟩⟩
    · rw [FsState.inodeOf_valid hw.done.inv.valid, hw.mode, FsState.inodeOf_valid hv]
    · rw [(hw.full hno).2, hsize]
  · refine writei_refused hn (fun hok' => hok ⟨hsize ▸ hok'.1, hok'.2⟩) ?_
    exact ⟨z, h, hz, rfl, .inl ⟨rfl, rfl, hok⟩⟩

theorem filewriteLoop_sized (hz : z ≤ maxSize) (src : Source) (n fuel i off : Nat) :
    wp OutOfBlocks (filewriteLoop T src n fuel i off) s (fun r s' =>
      ∃ z', Sized T z' s₀ s' ∧ z' ≤ maxSize ∧
        (Refused T z off s ∨ n ≤ i + writeMax → r.1 < 0 → z' = z) ∧
        (¬ Refused T z off s → (∀ t m, src.fault t m = none) → off + (n - i) ≤ maxSize →
          0 ≤ r.1)) := by
  induction fuel generalizing s z i off with
  | zero => exact ⟨z, h, hz, fun _ _ => rfl, fun _ _ _ => Int.natCast_nonneg n⟩
  | succ fuel ih =>
    unfold filewriteLoop
    by_cases hlt : i < n
    · rw [if_pos hlt]
      apply h.ilock_then hT
      intro s₁ h₁ hv hsize hmode
      rw [wp_bind, wp_get, wp_ite]
      split
      case _ hm =>
        rw [hmode] at hm
        exact ⟨z, h₁, hz, fun _ _ => rfl, fun hr => absurd (.inl hm) hr⟩
      case _ hm =>
        generalize hn1 : min (n - i) writeMax = n1
        have hle : n1 ≤ n - i ∧ n1 ≤ writeMax := by omega
        have hmax : writeMax < 2 ^ 32 := by decide
        apply (h₁.writei hT hv hsize hz (by omega) (src.drop i) off).bind
        intro r s₂ h₂
        obtain ⟨z₂, hz₂, hle₂, hmode₂, ⟨hr, hkeep, hno⟩ | ⟨hr, hoff, hgrow⟩⟩ := h₂
        · rw [if_pos (by omega)]
          refine ⟨z₂, hz₂, hle₂, fun _ _ => hkeep, fun hacc _ hend => ?_⟩
          exact absurd ⟨Nat.not_lt.1 (fun hlt => hacc (.inr hlt)), by omega⟩ hno
        · have hnot : ¬ Refused T z off s := by
            intro href
            rw [Refused, ← hmode] at href
            exact href.elim hm (Nat.not_lt.2 hoff)
          rw [if_neg (by omega), hr, Int.toNat_natCast]
          by_cases hlast : n ≤ i + n1
          · rw [filewriteLoop_end hlast]
            exact ⟨z₂, hz₂, hle₂, fun _ hr' => absurd (Int.natCast_nonneg n) (Int.not_le.2 hr'),
              fun _ _ _ => Int.natCast_nonneg n⟩
          · apply (ih hz₂ hle₂ (i + n1) (off + n1)).mono
            intro r' s' h'
            obtain ⟨z', hz', hle', -, hacc⟩ := h'
            refine ⟨z', hz', hle', fun hwhole => ?_, fun _ hfault hend => ?_⟩
            · rcases hwhole with href | hone
              · exact absurd href hnot
              · omega
            · refine hacc ?_ hfault (by omega)
              intro href
              rw [Refused, hmode₂, FsState.inodeOf_valid hv, hgrow (src.drop_fault i hfault)]
                at href
              exact href.elim hm (by omega)
    · rw [if_neg hlt]
      exact ⟨z, h, hz, fun _ _ => rfl, fun _ _ _ => Int.natCast_nonneg n⟩

theorem pwriteLoop_sized (hz : z ≤ maxSize) (src : Source)
    (hn : offset + count < 2 ^ 32) (hfuel : count ≤ total + fuel) (htotal : total ≤ count) :
    wp OutOfBlocks (pwriteLoop T src count offset fuel total) s (fun r s' =>
      ∃ z', Sized T z' s₀ s' ∧ (z' ≤ maxSize ↔ total = count ∨ offset + count ≤ maxSize) ∧
        (total = count → z' = z) ∧ (total = count ∨ offset + count ≤ maxSize → r = count)) := by
  induction fuel generalizing s z total with
  | zero =>
    have he : total = count := by omega
    exact ⟨z, h, ⟨fun _ => .inl he, fun _ => hz⟩, fun _ => rfl, fun _ => congrArg _ he⟩
  | succ fuel ih =>
    unfold pwriteLoop
    by_cases hlt : total < count
    · rw [if_pos hlt]
      apply h.ilock_then hT
      intro s₁ h₁ hv hsize _
      generalize hn1 : min (count - total) writeMax = n1
      have hpos : 0 < writeMax := by decide
      have hinv := h₁.inv.file (h₁.used ▸ hT) hv
      apply (pwritePass_spec hinv (FsState.lt_of_used hT) (by omega)).bind
      intro r s₂ h₂
      obtain ⟨hst, hsize₂, hr, -⟩ := h₂
      have hz₂ := h₁.done hT hv hst.done
      rw [hsize₂, hsize] at hz₂
      by_cases hok : offset + total + n1 ≤ maxSize
      · rw [if_pos (show offset + total + n1 ≤ MAXFILE * BSIZE from hok)] at hr
        rw [if_neg (by omega)]
        apply (ih hz₂ (by omega) (by omega) (by omega)).mono
        intro r' s' h'
        obtain ⟨z', hz', hiff, -, hret⟩ := h'
        refine ⟨z', hz', hiff.trans ?_, fun he => by omega, fun hend => hret ?_⟩
        · omega
        · omega
      · rw [if_neg (show ¬ offset + total + n1 ≤ MAXFILE * BSIZE from hok)] at hr
        rw [if_pos (by omega)]
        refine ⟨_, hz₂, ?_, fun he => by omega, fun hend => by omega⟩
        omega
    · rw [if_neg hlt]
      have he : total = count := by omega
      exact ⟨z, h, ⟨fun _ => .inl he, fun _ => hz⟩, fun _ => rfl, fun _ => congrArg _ he⟩

theorem punchChunks_sized (endb fuel b : Nat) :
    wp OutOfBlocks (punchChunks T endb fuel b) s (fun _ => Sized T z s₀) := by
  induction fuel generalizing s b with
  | zero => exact h
  | succ fuel ih =>
    unfold punchChunks
    rw [wp_ite]
    split
    · apply h.ilock_then hT
      intro s₁ h₁ hv hsize _
      have hinv := h₁.inv.file (h₁.used ▸ hT) hv
      apply (ipunch_spec hinv (FsState.lt_of_used hT) (Nat.le_add_right _ _)).bind
      intro r s₂ h₂
      obtain ⟨hst, hsize₂, -⟩ := h₂
      have hz₂ := h₁.done hT hv hst.done
      rw [hsize₂, hsize] at hz₂
      rw [wp_ite]
      split
      · exact hz₂
      · exact ih hz₂ _
    · exact h

theorem fallocChunks_bounded (hz : z ≤ maxSize)
    (hend : endb ≤ MAXFILE) (htarget : target ≤ MAXFILE * BSIZE) (keep : Bool) (fuel b : Nat) :
    wp OutOfBlocks (fallocChunks T endb target keep fuel b) s (fun r s' =>
      r = 0 ∧ Bounded T z True s₀ r s') := by
  induction fuel generalizing s z b with
  | zero => exact ⟨rfl, h.bounded hz⟩
  | succ fuel ih =>
    unfold fallocChunks
    by_cases hlt : b < endb
    · rw [if_pos hlt]
      apply h.ilock_then hT
      intro s₁ h₁ hv hsize _
      have hle : min (endb - b) fallocMax ≤ endb - b := Nat.min_le_left _ _
      have hnew : min target ((b + min (endb - b) fallocMax) * BSIZE) ≤ maxSize :=
        Nat.le_trans (Nat.min_le_left _ _) htarget
      have hinv := h₁.inv.file (h₁.used ▸ hT) hv
      apply (falloc_done hinv (FsState.lt_of_used hT) (Nat.le_add_right _ _) (by omega) hnew).bind
      intro r s₂ h₂
      obtain ⟨hr, hd, hsize₂, -⟩ := h₂
      have hz₂ := h₁.done hT hv hd
      have hle₂ : (s₂.inode T).size.toNat ≤ maxSize := by
        rw [hsize₂, hsize]
        split
        · exact max_le hz hnew
        · exact hz
      rw [hr, if_neg (by decide)]
      apply (ih hz₂ hle₂ _).mono
      intro r' s' h'
      obtain ⟨hr', z', hz', hle', -⟩ := h'
      exact ⟨hr', z', hz', hle', fun _ hneg => absurd hr' (by omega)⟩
    · rw [if_neg hlt]
      exact ⟨rfl, h.bounded hz⟩

end

end

theorem filewrite_bounded (h : Sized f.ip z s₀ s) (hf : f.ip ∈ s₀.used) (hz : z ≤ maxSize)
    (src : Source) (n : Nat) : wp OutOfBlocks (filewrite f src n) s (fun r =>
      Bounded f.ip z (WholeWrite f src n) s₀ r.1) := by
  unfold filewrite
  rw [wp_ite]
  split
  · exact h.bounded hz
  · apply (filewriteLoop_sized h hf hz src n n 0 f.off).mono
    intro r s' h'
    obtain ⟨z', hz', hle, hone, hacc⟩ := h'
    refine ⟨z', hz', hle, fun hwhole hr => ?_⟩
    rcases hwhole with hsmall | ⟨hfault, hend⟩
    · exact hone (.inr (by omega)) hr
    · by_cases href : Refused f.ip z f.off s
      · exact hone (.inl href) hr
      · exact absurd (hacc href hfault (by omega)) (Int.not_le.2 hr)

theorem sysWrite_bounded (h : Sized f.ip z s₀ s) (hf : f.ip ∈ s₀.used) (hz : z ≤ maxSize)
    (src : Source) (n : Int) :
    wp OutOfBlocks (sysWrite f src n) s (Bounded f.ip z (WholeWrite f src n) s₀) := by
  unfold sysWrite
  rw [wp_ite]
  split
  · exact h.bounded hz
  case _ hn =>
    apply (filewrite_bounded h hf hz src n.toNat).bind
    intro r s' h'
    rw [Int.toNat_of_nonneg (Int.not_lt.1 hn)] at h'
    exact h'

theorem writevLoop_bounded (f : Handle) (h : Sized f.ip z s₀ s) (hf : f.ip ∈ s₀.used)
    (hz : z ≤ maxSize) (off : Nat) (total : Int) (ht : 0 ≤ total) (iov : List (Source × Nat)) :
    wp OutOfBlocks (writevLoop f off total iov) s (fun r s' =>
      (0 < total → 0 ≤ r.1) ∧ Bounded f.ip z (∀ v, iov.find? (fun v => v.2 ≠ 0) = some v →
        WholeWrite { f with off := off } v.1 v.2) s₀ r.1 s') := by
  induction iov generalizing s z off total with
  | nil => exact ⟨fun _ => ht, h.bounded hz⟩
  | cons v iov ih =>
    obtain ⟨src, len⟩ := v
    unfold writevLoop
    by_cases hlen : len = 0
    · rw [if_pos hlen]
      simp only [List.find?_cons, hlen, ne_eq, not_true_eq_false, decide_false]
      exact ih h hz off total ht
    · rw [if_neg hlen]
      simp only [List.find?_cons, ne_eq, hlen, not_false_eq_true, decide_true, Option.some.injEq,
        forall_eq']
      apply (filewrite_bounded (f := { f with off := off }) h hf hz src len).bind
      intro r s₁ h₁
      obtain ⟨z₁, hz₁, hle₁, hkeep⟩ := h₁
      simp only [wp_ite]
      split
      case _ hneg =>
        by_cases hpos : 0 < total
        · rw [if_pos hpos]
          exact ⟨fun _ => ht, z₁, hz₁, hle₁, fun _ hr => absurd ht (Int.not_le.2 hr)⟩
        · rw [if_neg hpos]
          exact ⟨fun hpos' => absurd hpos' hpos, z₁, hz₁, hle₁, fun hwhole _ => hkeep hwhole hneg⟩
      case _ hneg =>
        have hsum : 0 ≤ total + r.1 := by omega
        split
        · exact ⟨fun _ => hsum, z₁, hz₁, hle₁, fun _ hr => absurd hsum (Int.not_le.2 hr)⟩
        case _ hfull =>
          apply (ih hz₁ hle₁ r.2 (total + r.1) hsum).mono
          intro r' s' h'
          obtain ⟨hr', z', hz', hle', -⟩ := h'
          have hpos : 0 ≤ r'.1 := hr' (by omega)
          exact ⟨fun _ => hpos, z', hz', hle', fun _ hr => absurd hpos (Int.not_le.2 hr)⟩

theorem cloneChunks_bounded (h : Sized dst z s₀ s) (hsrc : src ∈ s₀.used) (hdst : dst ∈ s₀.used)
    (hne : src ≠ dst) (hz : z ≤ maxSize) (srcOff : Nat)
    (hmax : dstOff + nblocks * BSIZE ≤ maxSize) (fuel b : Nat) :
    wp OutOfBlocks (cloneChunks src dst srcOff dstOff nblocks fuel b) s (fun r s' =>
      ((s.inodeOf src).type = T_FILE ∧ (s.inodeOf dst).type = T_FILE → r = 0) ∧
        Bounded dst z True s₀ r s') := by
  induction fuel generalizing s z b with
  | zero => exact ⟨fun _ => rfl, h.bounded hz⟩
  | succ fuel ih =>
    unfold cloneChunks
    by_cases hlt : b < nblocks
    · rw [if_pos hlt]
      apply (lockBoth_spec (h.used ▸ hsrc) (h.used ▸ hdst)).bind
      intro _ s₁ h₁
      obtain ⟨hlike, hvs, hvd⟩ := h₁
      have h₁ := h.alike hlike
      generalize hc : min (nblocks - b) cloneMax = chunk
      have hchunk : b + chunk ≤ nblocks := by omega
      have hend : dstOff + b * BSIZE + chunk * BSIZE ≤ maxSize := by
        have hmul : (b + chunk) * BSIZE ≤ nblocks * BSIZE := Nat.mul_le_mul_right _ hchunk
        rw [Nat.add_mul] at hmul
        omega
      have hrange : (dstOff + b * BSIZE) / BSIZE + chunk * BSIZE / BSIZE ≤ MAXFILE := by
        change dstOff + b * 1024 + chunk * 1024 ≤ 65803 * 1024 at hend
        change (dstOff + b * 1024) / 1024 + chunk * 1024 / 1024 ≤ 65803
        omega
      have hlend := h₁.inv.lender (A := dst) (h₁.used ▸ hsrc) hvs hne
      have hinv := h₁.inv.file (h₁.used ▸ hdst) hvd
      apply (icloneRange_spec hinv hlend hne (FsState.lt_of_used hdst) hrange).bind
      intro r s₂ h₂
      obtain ⟨hres, hst, -⟩ := h₂
      have hz₂ := h₁.done hdst hvd hst.done
      have hsize : (s₁.inode dst).size.toNat = z := by rw [← FsState.inodeOf_valid hvd, h₁.size]
      rw [← hlike.inodeOf hvs, ← hlike.inodeOf hvd] at hres
      rcases hres with ⟨hr, htype, hsame⟩ | ⟨hr, hfiles, hsize₂⟩
      · rw [hr, if_pos (by decide)]
        rw [hsame, hlike.inodeOf hvd, hsize] at hz₂
        exact ⟨fun hfiles => absurd hfiles htype, hz₂.bounded hz⟩
      · rw [hr, if_neg (by decide)]
        have hlt32 : maxSize < 2 ^ 32 := by decide
        rw [Nat.mod_eq_of_lt (by omega), hlike.inodeOf hvd, hsize] at hsize₂
        have hle₂ : (s₂.inode dst).size.toNat ≤ maxSize := hsize₂ ▸ max_le hz hend
        have hfiles₂ : (s₂.inodeOf src).type = T_FILE ∧ (s₂.inodeOf dst).type = T_FILE := by
          rw [hz₂.others src hsrc hne, hz₂.type, ← h.others src hsrc hne, ← h.type]
          exact hfiles
        apply (ih hz₂ hle₂ (b + chunk)).mono
        intro r' s' h'
        obtain ⟨hr', z', hz', hle', -⟩ := h'
        have hzero : r' = 0 := hr' hfiles₂
        exact ⟨fun _ => hzero, z', hz', hle', fun _ hneg => by omega⟩
    · rw [if_neg hlt]
      exact ⟨fun _ => rfl, h.bounded hz⟩

structure SizeCall.Fits (c : SizeCall) (s : FsState) (r : Int) (s' : FsState) : Prop where
  inv : BlockInv s'
  bound : SizeOk s' ↔ c.InBounds
  same : c.InBounds → c.Whole → r = -1 → SameSizes s s'

theorem Bounded.fits (h : Bounded T (s.inodeOf T).size.toNat c.Whole s r s')
    (hT : T ∈ s.used) (hz : SizeOk s) (hin : c.InBounds) : c.Fits s r s' := by
  obtain ⟨z', hz', hle, hkeep⟩ := h
  refine ⟨hz'.inv, iff_of_true ((hz'.bound hT hz).2 hle) hin, fun _ hwhole hr => ?_⟩
  exact hz'.same (hkeep hwhole (by omega))

theorem SizeCall.Fits.of_alike (h : BlockInv s) (hz : SizeOk s) (hin : c.InBounds)
    (hl : Alike s s') : c.Fits s r s' := by
  refine ⟨hl.inv h, iff_of_true ?_ hin, fun _ _ _ i _ => by rw [hl.inode]⟩
  intro i hi
  rw [hl.used] at hi
  rw [hl.inode]
  exact hz i hi

section Calls

variable (hs : BlockInv s) (hz : SizeOk s)

include hs hz

theorem sysPwrite_fits (f : Handle) (src : Source) (count offset : Int)
    (ha : (SizeCall.pwrite f src count offset).Allowed s) :
    wp OutOfBlocks (SizeCall.pwrite f src count offset).exec s
      ((SizeCall.pwrite f src count offset).Fits s) := by
  obtain ⟨hf, hc32, ho32⟩ := ha
  have hrefl : Alike s s := ⟨rfl, rfl, rfl⟩
  simp only [SizeCall.exec, sysPwrite, wp_ite]
  split
  case _ hneg =>
    refine .of_alike hs hz ?_ hrefl
    rcases hneg with hneg | hneg
    · exact .inr (.inr (.inl (by omega)))
    · exact .inr (.inr (.inr (.inl hneg)))
  case _ hneg =>
    split
    case _ hrefused =>
      refine .of_alike hs hz ?_ hrefl
      rcases hrefused with htype | hwrite
      · exact .inl htype
      · exact .inr (.inl hwrite)
    case _ hacc =>
      have hsize := hz f.ip hf
      apply (pwriteLoop_sized (.refl hs f.ip) hf hsize src (by omega) (by omega)
        (Nat.zero_le _)).bind
      intro r s' h'
      obtain ⟨z', hz', hiff, hnone, hret⟩ := h'
      have hin : (SizeCall.pwrite f src count offset).InBounds ↔
          0 = count.toNat ∨ offset.toNat + count.toNat ≤ maxSize := by
        constructor
        · intro hin
          rcases hin with htype | hwrite | hcount | hoffset | hend
          · exact absurd (.inl htype) hacc
          · exact absurd (.inr hwrite) hacc
          · omega
          · omega
          · omega
        · intro hend
          refine .inr (.inr ?_)
          omega
      refine ⟨hz'.inv, (hz'.bound hf hz).trans (hiff.trans hin.symm), fun hin' _ hr => ?_⟩
      refine hz'.same (hnone ?_)
      have hr' := hret (hin.1 hin')
      by_cases hpos : 0 < r
      · rw [if_pos hpos] at hr
        omega
      · omega

theorem sysWritev_fits (f : Handle) (iov : List (Source × Int)) (hf : f.ip ∈ s.used) :
    wp OutOfBlocks (SizeCall.writev f iov).exec s ((SizeCall.writev f iov).Fits s) := by
  simp only [SizeCall.exec, wp_ite]
  split
  · exact .of_alike hs hz trivial ⟨rfl, rfl, rfl⟩
  · apply (writevLoop_bounded f (.refl hs f.ip) hf (hz f.ip hf) f.off 0 (Int.le_refl 0) _).bind
    intro r s' h'
    obtain ⟨-, z', hz', hle, hkeep⟩ := h'
    refine Bounded.fits ⟨z', hz', hle, fun hwhole => hkeep fun v hv => ?_⟩ hf hz trivial
    rw [List.find?_map, Option.map_eq_some_iff] at hv
    obtain ⟨w, hw, hwv⟩ := hv
    have hpred : ((fun v : Source × Nat => decide (v.2 ≠ 0)) ∘ fun v : Source × Int =>
        (v.1, v.2.toNat)) = fun v => decide (0 < v.2) := by
      funext v
      simp only [Function.comp_apply, decide_eq_decide]
      omega
    rw [hpred] at hw
    have hpos : 0 < w.2 := by simpa using List.find?_some hw
    rw [← hwv, Int.toNat_of_nonneg (Int.le_of_lt hpos)]
    exact hwhole w hw

theorem SizeCall.fits (c : SizeCall) (ha : c.Allowed s) : wp OutOfBlocks c.exec s (c.Fits s) := by
  have hrefl : Alike s s := ⟨rfl, rfl, rfl⟩
  cases c with
  | write f src n =>
    apply (sysWrite_bounded (.refl hs f.ip) ha (hz f.ip ha) src n).mono
    intro r s' h'
    exact h'.fits ha hz trivial
  | pwrite f src count offset => exact sysPwrite_fits hs hz f src count offset ha
  | writev f iov => exact sysWritev_fits hs hz f iov ha
  | truncate ip length =>
    cases ip with
    | none =>
      simp only [exec, sysTruncate, wp_ite]
      split
      · exact .of_alike hs hz trivial hrefl
      · split
        · exact .of_alike hs hz trivial hrefl
        · exact .of_alike hs hz trivial hrefl
    | some T =>
      apply wp_sysTruncate hs ha.1 ha.2
      · intro s' hlike
        exact .of_alike hs hz trivial hlike
      · intro s₁ s₂ s' hmax hlike hv hd hsize hlike'
        have h₂ := (((Sized.refl hs T).alike hlike).done ha.1 hv hd).alike hlike'
        rw [hsize] at h₂
        exact Bounded.fits ⟨_, h₂, hmax, fun _ hr => absurd hr (by decide)⟩ ha.1 hz trivial
  | ftruncate f length =>
    refine wp.bind (Q := fun r s' => (SizeCall.ftruncate f length).Fits s r.1 s') ?_
      (fun r s' h' => (wp_pure r.1).2 h')
    apply wp_sysFtruncate hs ha
    · intro s' hlike
      exact .of_alike hs hz trivial hlike
    · intro s₁ s' hmax hlike hv hd hsize
      have h₂ := ((Sized.refl hs f.ip).alike hlike).done ha hv hd
      rw [hsize] at h₂
      exact Bounded.fits ⟨_, h₂, hmax, fun _ hr => absurd hr (Int.lt_irrefl 0)⟩ ha hz trivial
  | fallocate f offset len flags =>
    have hsize := hz f.ip ha
    refine wp_sysFallocate (.of_alike hs hz trivial hrefl) (.of_alike hs hz trivial hrefl) ?_ ?_
    · intro endb fuel b
      apply (punchChunks_sized (.refl hs f.ip) ha endb fuel b).mono
      intro r s' h'
      exact (h'.bounded hsize).fits ha hz trivial
    · intro endb target keep fuel b hend htarget
      apply (fallocChunks_bounded (.refl hs f.ip) ha hsize hend htarget keep fuel b).mono
      intro r s' h'
      exact h'.2.fits ha hz trivial
  | fclonerange fsrc fdst srcOff dstOff len =>
    simp only [exec, wp_ite]
    split
    · exact .of_alike hs hz trivial hrefl
    · refine wp_sysFclonerange ha.1 (fun s' hlike => .of_alike hs hz trivial hlike)
        (.of_alike hs hz trivial hrefl) ?_
      intro s₁ hlike hne hmax
      have h₁ := (Sized.refl hs fdst.ip).alike hlike
      apply (cloneChunks_bounded h₁ ha.1 ha.2 hne (hz _ ha.2) _ hmax _ _).mono
      intro r s' h'
      exact h'.2.fits ha.2 hz trivial
  | unmap vma src n =>
    apply (sysWrite_bounded (.refl hs vma.file.ip) ha (hz _ ha) src n).mono
    intro r s' h'
    exact h'.fits ha hz trivial
  | evict vma pageOff page =>
    simp only [exec, vmaWriteback, wp_ite]
    split
    · exact .of_alike hs hz trivial hrefl
    · split
      · exact .of_alike hs hz trivial hrefl
      · split
        · exact .of_alike hs hz trivial hrefl
        · have h₀ := Sized.refl hs vma.file.ip
          apply h₀.ilock_then ha
          intro s₁ h₁ hv hsize _
          apply (h₁.writei ha hv hsize (hz _ ha) (Nat.lt_of_le_of_lt (Nat.min_le_left _ _)
            (by decide)) (.kernel page) _).bind
          intro r s' h'
          obtain ⟨z', hz', hle, -, ⟨-, hsame, -⟩ | ⟨hr, -, -⟩⟩ := h'
          · exact Bounded.fits ⟨z', hz', hle, fun _ _ => hsame⟩ ha hz trivial
          · rw [if_pos hr]
            exact Bounded.fits ⟨z', hz', hle, fun _ hneg => absurd hneg (by decide)⟩ ha hz trivial

end Calls

def SizeCall.FailsClean (s : FsState) (c : SizeCall) : Prop :=
  ∀ s', c.exec s = .ok (-1, s') → SameSizes s s'

theorem SizeCall.fits_of_fire (hs : BlockInv s ∧ SizeOk s) (ha : c.Allowed s)
    (h : c.fire s = some s') : ∃ r, c.exec s = .ok (r, s') ∧ c.Fits s r s' := by
  unfold fire at h
  split at h
  case _ r s₁ hrun =>
    cases h
    exact ⟨r, hrun, (c.fits hs.1 hs.2 ha).of_ok hrun⟩
  case _ => cases h

/-- Sizes stay in bounds exactly if every `pwrite` ends below the largest; then a failed call
changes none before its second transaction. -/
theorem file_sizes_bounded (hs : BlockInv s) (hz : SizeOk s) (cs : List SizeCall)
    (hcalls : Along SizeCall.fire (fun s c => c.Allowed s) s cs) :
    (Always SizeCall.fire SizeOk s cs ↔ Along SizeCall.fire (fun _ c => c.InBounds) s cs) ∧
      (Along SizeCall.fire (fun _ c => c.InBounds) s cs →
        Along SizeCall.fire (fun s c => c.Whole → c.FailsClean s) s cs) := by
  constructor
  · refine always_iff_along_of (I := fun s => BlockInv s ∧ SizeOk s) (fun _ h => h.2) ?_ ?_ ⟨hs, hz⟩
      hcalls
    · intro s c s' hI ha hin hfire
      obtain ⟨r, -, hfit⟩ := SizeCall.fits_of_fire hI ha hfire
      exact ⟨hfit.inv, hfit.bound.2 hin⟩
    · intro s c s' hI ha hout hfire
      obtain ⟨r, -, hfit⟩ := SizeCall.fits_of_fire hI ha hfire
      exact fun hok => hout (hfit.bound.1 hok)
  · intro hin
    refine (hcalls.and hin).steps (I := fun s => BlockInv s ∧ SizeOk s) ?_ ?_ ⟨hs, hz⟩
    · intro s c _ hI hc _ hwhole s' hrun
      exact ((c.fits hI.1 hI.2 hc.1).of_ok hrun).same hc.2 hwhole rfl
    · intro s c s' hI hc hfire
      obtain ⟨r, -, hfit⟩ := SizeCall.fits_of_fire hI hc.1 hfire
      exact ⟨hfit.inv, hfit.bound.2 hc.2⟩

theorem evenState_sizes : SizeOk evenState := by
  have hall : ∀ i < sb.ninodes, (evenState.inodeOf i).size.toNat ≤ maxSize := by decide +kernel
  intro i hi
  exact hall i (FsState.lt_of_used hi)

theorem file_sizes_bounded_even :
    (∃ r s', (SizeCall.pwrite (openHandle 1) (.kernel fun _ => 7) 100 3000).exec evenState =
      .ok (r, s')) ∧
      Always SizeCall.fire SizeOk evenState
        [.pwrite (openHandle 1) (.kernel fun _ => 7) 100 3000] := by
  obtain ⟨r, s', hrun, -⟩ := exists_of_lands (P := fun _ _ => true)
    (m := (SizeCall.pwrite (openHandle 1) (.kernel fun _ => 7) 100 3000).exec) (s := evenState)
    (by decide +kernel)
  refine ⟨⟨r, s', hrun⟩, ?_⟩
  have hbound := file_sizes_bounded evenState_inv evenState_sizes
    [.pwrite (openHandle 1) (.kernel fun _ => 7) 100 3000]
    (fun _ _ => ⟨⟨evenState_used, by decide, by decide⟩, trivial⟩)
  exact hbound.1.2 (fun _ _ => ⟨.inr (.inr (.inr (.inr (by decide)))), trivial⟩)

def sparseState : FsState :=
  .cached (oneFileDisk nmeta { fileInode 67379200 [3000] with mode := 3 } 5)

/-- A `pwrite` of one byte fails and leaves a size of 2 GiB, a failed `write` that of its first
transaction. -/
theorem pwrite_beyond_bound :
    (BlockInv evenState ∧ SizeOk evenState ∧ 1 ∈ evenState.used ∧
      ∃ s', (SizeCall.pwrite (openHandle 1) (.kernel fun _ => 7) 1 0x7ffffffe).exec evenState =
        .ok (-1, s') ∧ (s'.inodeOf 1).size = 0x7fffffff) ∧
    (1 ∈ sparseState.used ∧ (sparseState.inodeOf 1).size = 67379200 ∧
      ∃ s', (SizeCall.write { openHandle 1 with off := 67379200 } (.kernel fun _ => 7) 6144).exec
        sparseState = .ok (-1, s') ∧ (s'.inodeOf 1).size = 67382272) := by
  refine ⟨⟨evenState_inv, evenState_sizes, evenState_used, ?_⟩,
    FsState.mem_used.2 ⟨by decide, by decide +kernel⟩, by decide +kernel, ?_⟩
  · exact returns_of_lands (by decide +kernel)
  · exact returns_of_lands (by decide +kernel)

end OopsOS
