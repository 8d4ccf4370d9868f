import OopsOS.FileSizes

namespace OopsOS
set_option autoImplicit true
open Function

variable {s₀ s s' : FsState} {A off i m n : Nat} {src : Source}
  {buf seg : Nat → UInt8} {f : Handle}

/-- The first `j` bytes of a buffer are in the file, which has its old bytes elsewhere. -/
structure Prefixed (A : Nat) (buf : Nat → UInt8) (off j : Nat) (s₀ s : FsState) : Prop where
  inv : BlockInv s
  used : s.used = s₀.used
  bytes : ∀ p, s.byteOf A p = if off ≤ p ∧ p < off + j then buf (p - off) else s₀.byteOf A p

/-- The size of a file of size `z` after the bytes up to `off + i` were written. -/
def sizeAfter (z off i : Nat) : Nat := if i = 0 then z else max z (off + i)

theorem sizeAfter_pos (h : i ≠ 0) : sizeAfter z off i = max z (off + i) := if_neg h

theorem sizeAfter_add (h : 0 < m) : max (sizeAfter z off i) (off + i + m) = sizeAfter z off
    (i + m) := by
  rw [sizeAfter_pos (show i + m ≠ 0 by omega), sizeAfter]
  split <;> omega

structure StoredAt (A : Nat) (buf : Nat → UInt8) (off i : Nat) (s₀ s : FsState) : Prop extends
    Prefixed A buf off i s₀ s where
  size : (s.inodeOf A).size.toNat = sizeAfter (s₀.inodeOf A).size.toNat off i

/-- Of `i` bytes that a `write` took as stored, those before `k` are, and no more count. -/
structure StoredTo (A : Nat) (buf : Nat → UInt8) (off i k : Nat) (s₀ s : FsState) : Prop extends
    Prefixed A buf off (min i k) s₀ s where
  grows : (s₀.inodeOf A).size.toNat ≤ (s.inodeOf A).size.toNat
  size_le : (s.inodeOf A).size.toNat ≤ max (s₀.inodeOf A).size.toNat (off + min i k)
  size : i ≤ k → (s.inodeOf A).size.toNat = sizeAfter (s₀.inodeOf A).size.toNat off i

/-- A call that returned `r` has stored the first `r` bytes and done nothing else. -/
structure Accounted (A : Nat) (buf : Nat → UInt8) (off : Nat) (r : Int) (s s' : FsState) :
    Prop where
  stored : 0 ≤ r → ∀ p, s'.byteOf A p =
    if off ≤ p ∧ p < off + r.toNat then buf (p - off) else s.byteOf A p
  grown : 0 < r → (s'.inodeOf A).size.toNat = max (s.inodeOf A).size.toNat (off + r.toNat)
  failed : r ≤ 0 → (∀ p, s'.byteOf A p = s.byteOf A p) ∧
    (s'.inodeOf A).size = (s.inodeOf A).size

theorem Prefixed.refl (h : BlockInv s) (A : Nat) (buf : Nat → UInt8) (off : Nat) :
    Prefixed A buf off 0 s s :=
  ⟨h, rfl, fun p => by rw [if_neg (by omega)]⟩

theorem StoredAt.refl (h : BlockInv s) (A : Nat) (buf : Nat → UInt8) (off : Nat) :
    StoredAt A buf off 0 s s :=
  ⟨.refl h A buf off, rfl⟩

theorem StoredTo.refl (h : BlockInv s) (A : Nat) (buf : Nat → UInt8) (off k : Nat) :
    StoredTo A buf off 0 k s s := by
  refine ⟨?_, Nat.le_refl _, Nat.le_max_left .., fun _ => rfl⟩
  rw [Nat.zero_min]
  exact .refl h A buf off

theorem StoredTo.storedAt (h : StoredTo A buf off i k s₀ s) (hi : i ≤ k) :
    StoredAt A buf off i s₀ s := by
  refine ⟨?_, h.size hi⟩
  have := h.toPrefixed
  rwa [Nat.min_eq_left hi] at this

theorem Prefixed.alike (h : Prefixed A buf off i s₀ s) (hl : Alike s s') :
    Prefixed A buf off i s₀ s' :=
  ⟨hl.inv h.inv, hl.used.trans h.used, fun p => by rw [hl.byteOf, h.bytes]⟩

theorem StoredTo.alike (h : StoredTo A buf off i k s₀ s) (hl : Alike s s') :
    StoredTo A buf off i k s₀ s' := by
  refine ⟨h.toPrefixed.alike hl, ?_, ?_, ?_⟩ <;> rw [hl.inode]
  · exact h.grows
  · exact h.size_le
  · exact h.size

theorem Alike.accounted (h : Alike s s') (hr : r ≤ 0) : Accounted A buf off r s s' := by
  refine ⟨fun h0 p => ?_, fun h0 => by omega, fun _ => ⟨fun p => by rw [h.byteOf], by rw [h.inode]⟩⟩
  rw [if_neg (by omega), h.byteOf]

theorem Alike.refused (h : Alike s s') : Accounted A buf off (-1) s s' ∧
    ((0 : Int) ≤ -1 → (off : Int) = off + -1) ∧ ((-1 : Int) < 0 → off = off) :=
  ⟨h.accounted (by decide), fun h0 => absurd h0 (by decide), fun _ => rfl⟩

theorem Prefixed.of_done (hs : BlockInv s) (hA : A ∈ s.used) (hv : s.valid A = true)
    (hd : Done (s.others A) (s.indexBlocks A) A s s')
    (hold : ∀ p, ¬ (off ≤ p ∧ p < off + m) → s'.byteAt A p = s.byteAt A p)
    (hnew : ∀ p, off ≤ p → p < off + m → s'.byteAt A p = buf (p - off)) :
    Prefixed A buf off m s s' := by
  refine ⟨hs.done hA hv hd, hd.used hA hv, fun p => ?_⟩
  rw [FsState.byteOf_valid hd.inv.valid, FsState.byteOf_valid hv]
  by_cases hin : off ≤ p ∧ p < off + m
  · rw [if_pos hin, hnew p hin.1 hin.2]
  · rw [if_neg hin, hold p hin]

theorem Prefixed.append (h : Prefixed A buf off i s₀ s) (h' : Prefixed A seg (off + j) m s s')
    (hj : m = 0 ∨ j = i) (hseg : ∀ l < m, buf (i + l) = seg l) :
    Prefixed A buf off (i + m) s₀ s' := by
  refine ⟨h'.inv, h'.used.trans h.used, fun p => ?_⟩
  rw [h'.bytes, h.bytes]
  by_cases hin : off + j ≤ p ∧ p < off + j + m
  · rw [if_pos hin, if_pos (by omega), ← hseg _ (by omega)]
    congr 1
    omega
  · rw [if_neg hin]
    by_cases hbefore : off ≤ p ∧ p < off + i
    · rw [if_pos hbefore, if_pos (by omega)]
    · rw [if_neg hbefore, if_neg (by omega)]

theorem StoredAt.append (h : StoredAt A buf off i s₀ s) (h' : StoredAt A seg (off + i) m s s')
    (hm : m ≠ 0) (hseg : ∀ j < m, buf (i + j) = seg j) :
    StoredAt A buf off (i + m) s₀ s' := by
  refine ⟨h.toPrefixed.append h'.toPrefixed (.inr rfl) hseg, ?_⟩
  rw [h'.size, h.size, sizeAfter_pos hm, sizeAfter_add (Nat.pos_of_ne_zero hm)]

theorem Source.Cut.drop (h : src.Cut n k) (hm : i + m ≤ n) : (src.drop i).Cut m (k - i) := by
  intro t l hl hle
  show src.fault (i + t) l = _
  rw [h (i + t) l hl (by omega)]
  by_cases hk : i + t + l ≤ k
  · rw [if_pos hk, if_pos (by omega)]
  · rw [if_neg hk, if_neg (by omega), Nat.sub_sub]

/-- A transaction of a `write`. -/
theorem StoredTo.writei (h : StoredTo A src.byte off i k s₀ s) (hA : A ∈ s₀.used)
    (hv : s.valid A = true) (hcut : src.Cut n k) (hm : 0 < m) (hle : i + m ≤ n)
    (hoff : off + i ≤ (s.inodeOf A).size.toNat)
    (hw : Written (s.others A) (s.indexBlocks A) A (src.drop i) (off + i) m s s') :
    StoredTo A src.byte off (i + m) k s₀ s' := by
  have hcut' := hcut.drop hle
  have hstored : (src.drop i).stored m m 0 (off + i) = min m (k - i) := by
    rw [hcut'.stored_eq (by omega), Nat.sub_zero]
  have hnext : Prefixed A (src.drop i).byte (off + i) (min m (k - i)) s s' :=
    .of_done h.inv (h.used ▸ hA) hv hw.done (fun p hp => hw.old p (hstored ▸ hp)) (hstored ▸ hw.new)
  have hjoin := h.toPrefixed.append hnext (by omega) fun l hl => by
    rw [Nat.min_eq_left (by omega)]
    rfl
  have hlen : min i k + min m (k - i) = min (i + m) k := by omega
  have hv' := hw.done.inv.valid
  have hsize := hw.size
  rw [hstored, ← FsState.inodeOf_valid hv', ← FsState.inodeOf_valid hv] at hsize
  have hgrows := h.grows
  have hupper := h.size_le
  refine ⟨hlen ▸ hjoin, by omega, by omega, fun hk => ?_⟩
  have hgrown := hw.grown fun t l hl hle => by
    rw [hcut' t l hl hle, if_pos hle, if_pos (by omega)]
  rw [← FsState.inodeOf_valid hv', ← FsState.inodeOf_valid hv] at hgrown
  rw [hgrown, h.size (by omega), sizeAfter_add hm]

/-- After its first transaction, a `write` returns the whole length or fails as stated. -/
theorem filewriteLoop_cut (hcut : src.Cut n k) (h : StoredTo A src.byte off i k s₀ s)
    (hA : A ∈ s₀.used) (hw : (s.inodeOf A).mode &&& MODE_W ≠ 0) (hi : i ≤ n) (hfuel : n ≤ i + fuel)
    (hend : i = 0 ∨ off + i ≤ maxSize)
    (hfirst : i = 0 → off ≤ (s.inodeOf A).size.toNat ∧ off + min n writeMax ≤ maxSize) :
    wp OutOfBlocks (filewriteLoop A src n fuel i (off + i)) s fun r s' =>
      r = ((n : Int), off + n) ∧ StoredTo A src.byte off n k s₀ s' ∧ (n = 0 ∨ off + n ≤ maxSize) ∧
        (s'.inodeOf A).mode = (s.inodeOf A).mode ∨
      ∃ j, 0 < j ∧ r = (-1, off + j) ∧
        ¬ (off + n ≤ maxSize ∧ (n ≤ k ∨ off + n ≤ (s₀.inodeOf A).size.toNat)) := by
  induction fuel generalizing s i with
  | zero =>
    obtain rfl : i = n := by omega
    exact .inl ⟨rfl, h, hend, rfl⟩
  | succ fuel ih =>
    by_cases hlt : i < n
    · rw [filewriteLoop, if_pos hlt]
      apply ilock_then (h.used ▸ hA)
      intro s₁ hlike hv _
      have h₁ := h.alike hlike
      rw [hlike.inodeOf hv] at hw
      rw [wp_bind, wp_get, if_neg hw]
      generalize hn1 : min (n - i) writeMax = n1
      have hpos : 0 < writeMax := by decide
      have hinv := h₁.inv.file (h₁.used ▸ hA) hv
      by_cases haccept : off + i ≤ (s₁.inode A).size.toNat ∧ off + i + n1 ≤ MAXFILE * BSIZE
      · apply (writei_spec hinv (FsState.lt_of_used hA) haccept.1 haccept.2).bind
        rintro r s₂ ⟨rfl, hw₂⟩
        have h₂ := h₁.writei hA hv hcut (by omega) (by omega)
          (by rw [FsState.inodeOf_valid hv]; exact haccept.1) hw₂
        rw [if_neg (by omega), Int.toNat_natCast, Nat.add_assoc]
        have hmode : (s₂.inodeOf A).mode = (s₁.inode A).mode := by
          rw [FsState.inodeOf_valid hw₂.done.inv.valid, hw₂.mode]
        apply (ih h₂ (hmode ▸ hw) (by omega) (by omega) (.inr ?_) (by omega)).mono
        · intro r s₃ hr
          rwa [hmode, ← hlike.inodeOf hv] at hr
        · change off + (i + n1) ≤ MAXFILE * BSIZE
          omega
      · have hzero : i ≠ 0 := by
          rintro rfl
          obtain ⟨hstart, hmax⟩ := hfirst rfl
          rw [hlike.inodeOf hv] at hstart
          refine haccept ⟨hstart, ?_⟩
          change off + min n writeMax ≤ MAXFILE * BSIZE at hmax
          omega
        have hsmall : n1 < 2 ^ 32 := by
          have : writeMax < 2 ^ 32 := by decide
          omega
        rw [wp_bind]
        refine writei_refused hsmall haccept (.inr ⟨i, Nat.pos_of_ne_zero hzero, rfl, ?_⟩)
        rintro ⟨hmax, hcase⟩
        refine haccept ⟨?_, ?_⟩
        · have hgrows := h₁.grows
          have hsize := h₁.size
          rw [FsState.inodeOf_valid hv] at hgrows hsize
          rw [sizeAfter_pos hzero] at hsize
          omega
        · change off + n ≤ MAXFILE * BSIZE at hmax
          omega
    · obtain rfl : i = n := by omega
      rw [filewriteLoop_end (Nat.le_refl _)]
      exact .inl ⟨rfl, h, hend, rfl⟩

theorem filewriteLoop_stores (hs : BlockInv s) (hA : A ∈ s.used)
    (hfault : ∀ t m, src.fault t m = none)
    (hw : (s.inodeOf A).mode &&& MODE_W ≠ 0) (hoff : off ≤ (s.inodeOf A).size.toNat)
    (hend : off + n ≤ maxSize) :
    wp OutOfBlocks (filewriteLoop A src n n 0 off) s fun r s' =>
      r = ((n : Int), off + n) ∧ StoredAt A src.byte off n s s' ∧
        (s'.inodeOf A).mode = (s.inodeOf A).mode := by
  apply (filewriteLoop_cut (.of_none hfault n) (.refl hs A src.byte off n) hA hw (Nat.zero_le n)
    (Nat.le_add_left ..) (.inl rfl) fun _ => ⟨hoff, by omega⟩).mono
  rintro r s' (⟨rfl, hst, -, hmode⟩ | ⟨j, -, -, hno⟩)
  · exact ⟨rfl, hst.storedAt (Nat.le_refl n), hmode⟩
  · exact absurd ⟨hend, .inl (Nat.le_refl n)⟩ hno

theorem filewriteLoop_refused (hA : A ∈ s.used) (hn : 0 < n)
    (h : (s.inodeOf A).mode &&& MODE_W ≠ 0 → off ≤ (s.inodeOf A).size.toNat →
      maxSize < off + min n writeMax) :
    wp OutOfBlocks (filewriteLoop A src n n 0 off) s fun r s' => r = (-1, off) ∧ Alike s s' := by
  cases n with
  | zero => omega
  | succ n =>
    rw [filewriteLoop, if_pos hn]
    apply ilock_then hA
    intro s₁ hlike hv _
    rw [hlike.inodeOf hv] at h
    rw [wp_bind, wp_get, wp_ite]
    split
    · exact ⟨rfl, hlike⟩
    case _ hw =>
      have hsmall : min (n + 1 - 0) writeMax < 2 ^ 32 :=
        Nat.lt_of_le_of_lt (Nat.min_le_right ..) (by decide)
      rw [wp_bind]
      apply writei_refused hsmall
      · rintro ⟨hoff, hfits⟩
        exact absurd hfits (Nat.not_le.2 (h hw hoff))
      · exact ⟨rfl, hlike⟩

/-- A user buffer whose pages are mapped up to byte `k`, which is what `copyin` copies. -/
def Source.user (buf : Nat → UInt8) (k : Nat) : Source :=
  ⟨buf, fun t m => if t + m ≤ k then none else some (k - t)⟩

end OopsOS
