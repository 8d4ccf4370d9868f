import OopsOS.WriteAccounting

namespace OopsOS
set_option autoImplicit true
open Function

variable {s₀ s s' : FsState} {A off i len n : Nat} {src : Source} {buf : Nat → UInt8} {f : Handle}
  {copyout : Nat → Nat → Bool} {iov : List (Source × Nat)}

def readv (f : Handle) (copyout : Nat → Nat → Bool) (lens : List Int) : FsM (Option (List UInt8)) :=
  if lens.length = 0 ∨ UIO_MAXIOV < lens.length ∨ ∃ len ∈ lens, len < 0 then return none
  else readvLoop f copyout f.off [] (lens.map Int.toNat)

def writev (f : Handle) (iov : List (Source × Int)) : FsM (Int × Nat) :=
  if iov.length = 0 ∨ UIO_MAXIOV < iov.length ∨ ∃ v ∈ iov, v.2 < 0 then return (-1, f.off)
  else writevLoop f f.off 0 (iov.map fun v => (v.1, v.2.toNat))

def FsState.bytesFrom (s : FsState) (A off n : Nat) : List UInt8 :=
  (List.range (min n ((s.inodeOf A).size.toNat - off))).map fun i => s.byteOf A (off + i)

theorem FsState.bytesFrom_length (s : FsState) (A off n : Nat) :
    (s.bytesFrom A off n).length = min n ((s.inodeOf A).size.toNat - off) := by
  rw [bytesFrom, List.length_map, List.length_range]

theorem FsState.bytesFrom_append (h : len ≤ (s.inodeOf A).size.toNat - off) (n : Nat) :
    s.bytesFrom A off len ++ s.bytesFrom A (off + len) n = s.bytesFrom A off (len + n) := by
  simp only [bytesFrom, Nat.add_assoc]
  rw [Nat.min_eq_left h, range_map_append (fun i => s.byteOf A (off + i))]
  congr 2
  omega

theorem FsState.bytesFrom_short (h : (s.inodeOf A).size.toNat - off ≤ len) (n : Nat) :
    s.bytesFrom A off (len + n) = s.bytesFrom A off len := by
  rw [bytesFrom, bytesFrom, Nat.min_eq_right h, Nat.min_eq_right
    (Nat.le_trans h (Nat.le_add_right ..))]

theorem Alike.bytesFrom (h : Alike s s') : s'.bytesFrom = s.bytesFrom := by
  funext A off n
  rw [FsState.bytesFrom, h.inode, h.byteOf, FsState.bytesFrom]

theorem fileread_bytes (hf : f.ip ∈ s.used) (hopen : f.readable = true ∧ f.type = .inode)
    (hr : (s.inodeOf f.ip).mode &&& MODE_R ≠ 0) (hcopy : ∀ t m, copyout t m = true)
    (hword : off ≤ (s.inodeOf f.ip).size.toNat → off + n < 2 ^ 32) :
    wp E (fileread { f with off := off } copyout n) s fun r s' =>
      r = some (s.bytesFrom f.ip off n) ∧ Alike s s' := by
  have hrefused : ¬ (f.readable = false ∨ f.type ≠ .inode) := by
    simp [hopen]
  rw [fileread, if_neg hrefused]
  apply ilock_then hf
  intro s₁ hlike hv _
  rw [hlike.inodeOf hv] at hr hword
  rw [wp_bind, wp_get, if_neg hr, wp_pure, ← hlike.bytesFrom]
  refine ⟨congrArg some ?_, hlike⟩
  simp only [FsState.bytesFrom, FsState.byteOf, FsState.inodeOf_valid hv]
  by_cases hoff : off ≤ (s₁.inode f.ip).size.toNat
  · exact readi_eq hcopy hoff (hword hoff)
  · rw [readi, if_pos (.inl (Nat.not_le.1 hoff)), Nat.sub_eq_zero_of_le (Nat.le_of_not_le hoff),
      Nat.min_zero]
    rfl

theorem readvLoop_bytes (hf : f.ip ∈ s.used) (hopen : f.readable = true ∧ f.type = .inode)
    (hr : (s.inodeOf f.ip).mode &&& MODE_R ≠ 0) (hcopy : ∀ t m, copyout t m = true) (off : Nat)
    (got : List UInt8) (lens : List Nat)
    (hword : off ≤ (s.inodeOf f.ip).size.toNat → off + lens.sum < 2 ^ 32) :
    wp E (readvLoop f copyout off got lens) s fun r _ =>
      r = some (got ++ s.bytesFrom f.ip off lens.sum) := by
  induction lens generalizing s off got with
  | nil =>
    rw [readvLoop, wp_pure, List.sum_nil, FsState.bytesFrom, Nat.zero_min]
    simp only [List.range_zero, List.map_nil, List.append_nil]
  | cons len lens ih =>
    rw [List.sum_cons] at hword ⊢
    rw [readvLoop]
    by_cases hlen : len = 0
    · subst hlen
      rw [Nat.zero_add] at hword ⊢
      rw [if_pos rfl]
      exact ih hf hr off got hword
    · rw [if_neg hlen]
      have hseg (hoff : off ≤ (s.inodeOf f.ip).size.toNat) : off + len < 2 ^ 32 := by
        have := hword hoff
        omega
      apply (fileread_bytes hf hopen hr hcopy hseg).bind
      rintro r s₁ ⟨rfl, hlike⟩
      simp only [FsState.bytesFrom_length]
      by_cases hshort : min len ((s.inodeOf f.ip).size.toNat - off) < len
      · rw [if_pos hshort, FsState.bytesFrom_short (by omega)]
        rfl
      · rw [if_neg hshort]
        have hfull : min len ((s.inodeOf f.ip).size.toNat - off) = len := by omega
        rw [hfull]
        have hrest := ih (s := s₁) (hlike.used ▸ hf) (by rw [hlike.inode]; exact hr) (off + len)
          (got ++ s.bytesFrom f.ip off len) fun hoff => by
            rw [hlike.inode] at hoff
            have := hword (by omega)
            omega
        apply hrest.mono
        intro r s₂ hr₂
        rw [hr₂, hlike.bytesFrom, List.append_assoc, FsState.bytesFrom_append (by omega)]

/-- All bytes of a write are stored, or it starts behind the end of the file and nothing changes. -/
inductive Outcome (A : Nat) (buf : Nat → UInt8) (off n : Nat) (s : FsState) :
    Int × Nat → FsState → Prop
  | stored {t : FsState} (hoff : n = 0 ∨ off ≤ (s.inodeOf A).size.toNat)
    (h : StoredAt A buf off n s t) : Outcome A buf off n s (n, off + n) t
  | refused {t : FsState} (hn : n ≠ 0) (hoff : (s.inodeOf A).size.toNat < off) (h : Alike s t) :
    Outcome A buf off n s (-1, off) t

theorem Outcome.unique (h : Outcome A buf off n s r s₁)
    (h' : Outcome A buf off n s r' s₂) : r = r' ∧ (∀ p, s₁.byteOf A p = s₂.byteOf A p) ∧
      (s₁.inodeOf A).size = (s₂.inodeOf A).size := by
  cases h with
  | stored hoff h =>
    cases h' with
    | stored _ h' =>
      refine ⟨rfl, fun p => by rw [h.bytes, h'.bytes], UInt32.toNat_inj.1 ?_⟩
      rw [h.size, h'.size]
    | refused hn hoff' => omega
  | refused hn hoff h =>
    cases h' with
    | stored hoff' => omega
    | refused _ _ h' => exact ⟨rfl, fun p => by rw [h.byteOf, h'.byteOf], by rw [h.inode, h'.inode]⟩

theorem filewrite_outcome (hs : BlockInv s) (hf : f.ip ∈ s.used) (off n : Nat)
    (hopen : f.writable = true ∧ f.type = .inode) (hw : (s.inodeOf f.ip).mode &&& MODE_W ≠ 0)
    (hfault : ∀ t m, src.fault t m = none) (hend : off + n ≤ maxSize) :
    wp OutOfBlocks (filewrite { f with off := off } src n) s fun r s' =>
      Outcome f.ip src.byte off n s r s' ∧ (s'.inodeOf f.ip).mode = (s.inodeOf f.ip).mode := by
  have hrefused : ¬ (f.writable = false ∨ f.type ≠ .inode) := by
    simp [hopen]
  rw [filewrite, if_neg hrefused]
  by_cases hn : n = 0
  · rw [hn, filewriteLoop_end (Nat.le_refl _)]
    exact ⟨.stored (.inl rfl) (.refl hs ..), rfl⟩
  · by_cases hoff : off ≤ (s.inodeOf f.ip).size.toNat
    · apply (filewriteLoop_stores hs hf hfault hw hoff hend).mono
      rintro r s' ⟨rfl, hst, hmode⟩
      exact ⟨.stored (.inr hoff) hst, hmode⟩
    · apply (filewriteLoop_refused hf (Nat.pos_of_ne_zero hn) fun _ h => absurd h hoff).mono
      rintro r s' ⟨rfl, hlike⟩
      exact ⟨.refused hn (Nat.not_le.1 hoff) hlike, by rw [hlike.inode]⟩

def gather : List (Source × Nat) → Nat → UInt8
  | [], _ => 0
  | (src, len) :: iov, i => if i < len then src.byte i else gather iov (i - len)

def iovTotal (iov : List (Source × Nat)) : Nat := (iov.map Prod.snd).sum

theorem iovTotal_cons (v : Source × Nat) (iov : List (Source × Nat)) :
    iovTotal (v :: iov) = v.2 + iovTotal iov := by
  rw [iovTotal, List.map_cons, List.sum_cons, iovTotal]

theorem writevLoop_stores (hf : f.ip ∈ s₀.used) (hopen : f.writable = true ∧ f.type = .inode)
    (h : StoredAt f.ip buf off i s₀ s) (hw : (s.inodeOf f.ip).mode &&& MODE_W ≠ 0)
    (hbuf : ∀ j < iovTotal iov, buf (i + j) = gather iov j)
    (hfault : ∀ v ∈ iov, ∀ t m, v.1.fault t m = none)
    (hoff : iovTotal iov = 0 ∨ off + i ≤ (s.inodeOf f.ip).size.toNat)
    (hend : off + i + iovTotal iov ≤ maxSize) :
    wp OutOfBlocks (writevLoop f (off + i) i iov) s fun r s' =>
      r = (((i + iovTotal iov : Nat) : Int), off + (i + iovTotal iov)) ∧
        StoredAt f.ip buf off (i + iovTotal iov) s₀ s' := by
  induction iov generalizing s i with
  | nil => exact ⟨rfl, h⟩
  | cons v iov ih =>
    obtain ⟨src, len⟩ := v
    rw [iovTotal_cons] at hbuf hoff hend ⊢
    simp only [gather] at hbuf hoff hend ⊢
    have hrest : ∀ v ∈ iov, ∀ t m, v.1.fault t m = none := fun v hv => hfault v (.tail _ hv)
    rw [writevLoop]
    by_cases hlen : len = 0
    · subst hlen
      rw [if_pos rfl]
      simp only [Nat.zero_add, Nat.not_lt_zero, if_false, Nat.sub_zero] at hbuf hoff hend ⊢
      exact ih h hw hbuf hrest hoff hend
    · rw [if_neg hlen]
      have hwrite := filewrite_outcome h.inv (h.used ▸ hf) (off + i) len hopen hw
        (hfault _ (.head _)) (by omega)
      apply hwrite.bind
      rintro r s₁ ⟨hout, hmode⟩
      cases hout with
      | refused hn hlt => omega
      | stored _ hst =>
        have h₁ := h.append hst hlen fun j hj => by
          rw [hbuf j (by omega), if_pos hj]
        have hne : i + len ≠ 0 := by omega
        have hsize := h₁.size
        rw [sizeAfter_pos hne] at hsize
        have hnext := ih h₁ (by rw [hmode]; exact hw) (fun j hj => ?_) hrest (.inr (by omega))
          (by omega)
        · rw [Nat.add_assoc i] at hnext
          rw [Nat.cast_add, ← Nat.add_assoc off] at hnext
          simp only [if_neg (Int.not_lt.2 (Int.natCast_nonneg len)), Int.lt_irrefl, if_false]
          exact hnext
        · have hj' := hbuf (len + j) (by omega)
          rw [if_neg (by omega), Nat.add_sub_cancel_left, ← Nat.add_assoc] at hj'
          exact hj'

theorem writevLoop_refused (hs : BlockInv s) (hf : f.ip ∈ s.used)
    (hopen : f.writable = true ∧ f.type = .inode) (hw : (s.inodeOf f.ip).mode &&& MODE_W ≠ 0)
    (hfault : ∀ v ∈ iov, ∀ t m, v.1.fault t m = none) (hpos : iovTotal iov ≠ 0)
    (hoff : (s.inodeOf f.ip).size.toNat < off) (hend : off + iovTotal iov ≤ maxSize) :
    wp OutOfBlocks (writevLoop f off 0 iov) s fun r s' => r = (-1, off) ∧ Alike s s' := by
  induction iov with
  | nil => exact absurd rfl hpos
  | cons v iov ih =>
    obtain ⟨src, len⟩ := v
    rw [iovTotal_cons] at hpos hend
    simp only at hpos hend
    rw [writevLoop]
    by_cases hlen : len = 0
    · rw [if_pos hlen]
      exact ih (fun v hv => hfault v (.tail _ hv)) (by omega) (by omega)
    · rw [if_neg hlen]
      have hwrite := filewrite_outcome hs hf off len hopen hw (hfault _ (.head _)) (by omega)
      apply hwrite.bind
      rintro r s₁ ⟨hout, -⟩
      cases hout with
      | refused _ _ hlike => exact ⟨rfl, hlike⟩
      | stored hstart _ => omega

theorem writevLoop_outcome (hs : BlockInv s) (hf : f.ip ∈ s.used)
    (hopen : f.writable = true ∧ f.type = .inode) (hw : (s.inodeOf f.ip).mode &&& MODE_W ≠ 0)
    (hfault : ∀ v ∈ iov, ∀ t m, v.1.fault t m = none) (hend : f.off + iovTotal iov ≤ maxSize) :
    wp OutOfBlocks (writevLoop f f.off 0 iov) s fun r s' =>
      Outcome f.ip (gather iov) f.off (iovTotal iov) s r s' := by
  by_cases hoff : iovTotal iov = 0 ∨ f.off ≤ (s.inodeOf f.ip).size.toNat
  · have hrefl := StoredAt.refl hs f.ip (gather iov) f.off
    have hstores :=
      writevLoop_stores hf hopen hrefl hw (fun j _ => by rw [Nat.zero_add]) hfault hoff hend
    rw [Nat.zero_add] at hstores
    apply hstores.mono
    rintro r s' ⟨rfl, hst⟩
    exact .stored hoff hst
  · have hpos : iovTotal iov ≠ 0 := fun hz => hoff (.inl hz)
    have hlt : (s.inodeOf f.ip).size.toNat < f.off := Nat.not_le.1 fun hle => hoff (.inr hle)
    apply (writevLoop_refused hs hf hopen hw hfault hpos hlt hend).mono
    rintro r s' ⟨rfl, hlike⟩
    exact .refused hpos hlt hlike

theorem iov_valid {g : α → Int} {l : List α} (hne : l ≠ []) (hcount : l.length ≤ UIO_MAXIOV)
    (h : ∀ v ∈ l, 0 ≤ g v) : ¬ (l.length = 0 ∨ UIO_MAXIOV < l.length ∨ ∃ v ∈ l, g v < 0) := by
  rintro (h0 | hmany | ⟨v, hv, hneg⟩)
  · exact hne (List.length_eq_zero_iff.1 h0)
  · omega
  · exact absurd (h v hv) (Int.not_le.2 hneg)

/-- Reads and writes of a segment at least are those of one buffer, for a read if the file's size is
an `int`. -/
theorem vectored_eq_contiguous (hs : BlockInv s) (hf : f.ip ∈ s.used) (htype : f.type = .inode) :
    (∀ lens : List Int, lens ≠ [] → lens.length ≤ UIO_MAXIOV → (∀ len ∈ lens, 0 ≤ len) →
      (lens.map Int.toNat).sum < 2 ^ 31 → (s.inodeOf f.ip).size.toNat ≤ 2 ^ 31 →
      f.readable = true → (s.inodeOf f.ip).mode &&& MODE_R ≠ 0 → (∀ t m, copyout t m = true) →
      wp E (readv f copyout lens) s fun r _ =>
        wp E (fileread f copyout (lens.map Int.toNat).sum) s fun r' _ => r = r') ∧
    ∀ iov : List (Source × Int), iov ≠ [] → iov.length ≤ UIO_MAXIOV → (∀ v ∈ iov, 0 ≤ v.2) →
      (∀ v ∈ iov, ∀ t m, v.1.fault t m = none) → f.writable = true →
      (s.inodeOf f.ip).mode &&& MODE_W ≠ 0 →
      let segs := iov.map fun v => (v.1, v.2.toNat)
      f.off + iovTotal segs ≤ maxSize →
      wp OutOfBlocks (writev f iov) s fun r s₁ =>
        wp OutOfBlocks (filewrite f (.kernel (gather segs)) (iovTotal segs)) s fun r' s₂ =>
          r = r' ∧ (∀ p, s₁.byteOf f.ip p = s₂.byteOf f.ip p) ∧
            (s₁.inodeOf f.ip).size = (s₂.inodeOf f.ip).size := by
  constructor
  · intro lens hne hcount hlens htotal hsize hopen hr hcopy
    have hword (h : f.off ≤ (s.inodeOf f.ip).size.toNat) :
        f.off + (lens.map Int.toNat).sum < 2 ^ 32 := by omega
    rw [readv, if_neg (iov_valid hne hcount hlens)]
    apply (readvLoop_bytes hf ⟨hopen, htype⟩ hr hcopy f.off [] _ hword).mono
    rintro r - rfl
    apply (fileread_bytes hf ⟨hopen, htype⟩ hr hcopy hword).mono
    rintro r' - ⟨rfl, -⟩
    rw [List.nil_append]
  · intro iov hne hcount hlens hfault hopen hw segs hend
    have hsegs (v : Source × Nat) (hv : v ∈ segs) (t m : Nat) : v.1.fault t m = none := by
      obtain ⟨w, hw, rfl⟩ := List.mem_map.1 hv
      exact hfault w hw t m
    rw [writev, if_neg (iov_valid hne hcount hlens)]
    apply (writevLoop_outcome hs hf ⟨hopen, htype⟩ hw hsegs hend).mono
    intro r s₁ hout
    apply (filewrite_outcome hs hf f.off _ ⟨hopen, htype⟩ hw (fun _ _ => rfl) hend).mono
    rintro r' s₂ ⟨hout', -⟩
    exact hout.unique hout'

def bothState : FsState :=
  .cached (oneFileDisk nmeta { fileInode 2048 [3000, 3001] with mode := 3 } 5)

def bothSegments : List (Source × Int) :=
  [(.kernel fun _ => 7, 3), (.kernel fun _ => 8, 0), (.kernel fun _ => 9, 5)]

theorem vectored_eq_contiguous_both : (bothState.inodeOf 1).mode &&& MODE_R ≠ 0 ∧
    (wp OutOfBlocks (readv (openHandle 1) (fun _ _ => true) [3, 0, 5]) bothState fun r _ =>
      wp OutOfBlocks (fileread (openHandle 1) (fun _ _ => true) 8) bothState fun r' _ => r = r') ∧
    wp OutOfBlocks (writev (openHandle 1) bothSegments) bothState fun r s₁ =>
      let segs := bothSegments.map fun v => (v.1, v.2.toNat)
      wp OutOfBlocks (filewrite (openHandle 1) (.kernel (gather segs)) 8) bothState fun r' s₂ =>
        r = r' ∧ (∀ p, s₁.byteOf 1 p = s₂.byteOf 1 p) ∧
          (s₁.inodeOf 1).size = (s₂.inodeOf 1).size := by
  have hinv : BlockInv bothState := (booted_cached _).inv (oneFileDisk_ok (by decide) (by decide))
    (directImage_marked (Nat.le_refl _))
  have hused : 1 ∈ bothState.used := FsState.mem_used.2 ⟨by decide, by decide +kernel⟩
  have hmode : (bothState.inodeOf 1).mode &&& MODE_R ≠ 0 := by decide +kernel
  have hwrite : (bothState.inodeOf 1).mode &&& MODE_W ≠ 0 := by decide +kernel
  have hsize : (bothState.inodeOf 1).size.toNat ≤ 2 ^ 31 := by decide +kernel
  generalize bothState = s at *
  obtain ⟨hread, hwritev⟩ :=
    @vectored_eq_contiguous s (openHandle 1) (fun _ _ => true) OutOfBlocks hinv hused rfl
  refine ⟨hmode, hread [3, 0, 5] (by decide) (by decide) (by decide) (by decide) hsize rfl hmode
    fun _ _ => rfl, hwritev bothSegments (by decide) (by decide) (by decide) ?_ rfl hwrite
      (by decide)⟩
  simp [bothSegments, Source.kernel]

/-- Without segments both calls fail where a `read` and a `write` of no bytes return 0. -/
theorem vectored_empty : readv (openHandle 1) (fun _ _ => true) [] bothState = .ok
    (none, bothState) ∧
    (∃ s', fileread (openHandle 1) (fun _ _ => true) 0 bothState = .ok (some [], s')) ∧
    writev (openHandle 1) [] bothState = .ok ((-1, 0), bothState) ∧
    filewrite (openHandle 1) (.kernel (gather [])) 0 bothState = .ok ((0, 0), bothState) := by
  exact ⟨rfl, returns_of_yields (by decide +kernel), rfl, rfl⟩

end OopsOS
