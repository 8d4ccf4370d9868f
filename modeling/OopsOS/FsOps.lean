import OopsOS.BlockInv

namespace OopsOS
set_option autoImplicit true

variable {d d' : Disk} {ip ip' : Inode} {copyout : Nat → Nat → Bool} {off n tot fuel : Nat}

def fileBlock (d : Disk) (ip : Inode) (bn : Nat) : Bytes := blockData d (bmapNalloc d ip bn)

def fileByte (d : Disk) (ip : Inode) (p : Nat) : UInt8 := fileBlock d ip (p / BSIZE) (p % BSIZE)

theorem readiLoop_congr (h : fileBlock d ip = fileBlock d' ip') :
    readiLoop d ip copyout n fuel tot off = readiLoop d' ip' copyout n fuel tot off := by
  induction fuel generalizing tot off with
  | zero => rfl
  | succ fuel ih =>
    have hb : blockData d (bmapNalloc d ip (off / BSIZE)) =
        blockData d' (bmapNalloc d' ip' (off / BSIZE)) := congrFun h _
    simp only [readiLoop, hb, ih]

theorem readi_congr (hsize : ip.size = ip'.size) (h : fileBlock d ip = fileBlock d' ip') :
    readi d ip copyout off n = readi d' ip' copyout off n := by
  simp only [readi, hsize, readiLoop_congr h]

theorem range_map_append (f : Nat → α) (m k : Nat) :
    (List.range m).map f ++ (List.range k).map (fun i => f (m + i)) =
      (List.range (m + k)).map f := by
  rw [List.range_add, List.map_append, List.map_map]
  rfl

theorem readiLoop_eq (hcopy : ∀ t m, copyout t m = true) (hfuel : n ≤ tot + fuel) (htot : tot ≤ n) :
    readiLoop d ip copyout n fuel tot off =
      (List.range (n - tot)).map fun i => fileByte d ip (off + i) := by
  induction fuel generalizing tot off with
  | zero =>
    rw [show n - tot = 0 by omega]
    rfl
  | succ fuel ih =>
    by_cases hlt : tot < n
    · generalize hm : min (n - tot) (BSIZE - off % BSIZE) = m
      have hmod : off % BSIZE < BSIZE := Nat.mod_lt _ (by decide)
      have hrest : readiLoop d ip copyout n fuel (tot + m) (off + m) =
          (List.range (n - (tot + m))).map fun i => fileByte d ip (off + m + i) :=
        ih (by omega) (by omega)
      have hchunk : (List.range m).map (fun i =>
          blockData d (bmapNalloc d ip (off / BSIZE)) (off % BSIZE + i)) =
          (List.range m).map fun i => fileByte d ip (off + i) := by
        apply List.map_congr_left
        intro i hi
        have hi' := List.mem_range.1 hi
        have hdiv : (off + i) / BSIZE = off / BSIZE := by
          simp only [BSIZE] at *
          omega
        have hpos : (off + i) % BSIZE = off % BSIZE + i := by
          simp only [BSIZE] at *
          omega
        rw [fileByte, hdiv, hpos, fileBlock]
      simp only [readiLoop, if_pos hlt, hm, hcopy, if_true, hrest, hchunk]
      have happ := range_map_append (fun i => fileByte d ip (off + i)) m (n - (tot + m))
      rw [show m + (n - (tot + m)) = n - tot by omega] at happ
      simp only [← happ, Nat.add_assoc]
    · rw [show n - tot = 0 by omega]
      simp only [readiLoop, if_neg hlt]
      rfl

theorem readi_eq (hcopy : ∀ t m, copyout t m = true) (hoff : off ≤ ip.size.toNat)
    (hn : off + n < 2 ^ 32) : readi d ip copyout off n =
      (List.range (min n (ip.size.toNat - off))).map fun i => fileByte d ip (off + i) := by
  have hmod : (off + n) % 2 ^ 32 = off + n := Nat.mod_eq_of_lt hn
  have hc : ¬ (off > ip.size.toNat ∨ off + n < off) := by omega
  simp only [readi, hmod, if_neg hc]
  rw [readiLoop_eq hcopy (by omega) (by omega)]
  congr 2
  split <;> omega

variable {s s₁ s' : FsState} {A B i : Nat} {O : Multiset Nat} {M : Set Nat} {c : Prop}
  {w : Nat → Prop}

inductive FsOp where
  | writei (A : Nat) (src : Source) (off n : Nat)
  | pwrite (A : Nat) (src : Source) (off n : Nat)
  | falloc (A startb endb newsize : Nat) (keepSize : Bool)
  | ipunch (A startb endb : Nat)
  | itrunc (A : Nat)
  | itruncTo (A newsize : Nat)
  | iclone (src dst : Nat)
  | icloneRange (src dst srcOff dstOff len : Nat)
  | idedup (src dst : Nat)
  | addLink (A : Nat)
  | dropLink (A : Nat)
  | iput (A : Nat)
  | iget (A : Nat)

def FsOp.target : FsOp → Nat
  | writei A _ _ _ | pwrite A _ _ _ | falloc A _ _ _ _ | ipunch A _ _ | itrunc A | itruncTo A _ => A
  | iclone _ dst | icloneRange _ dst _ _ _ | idedup _ dst => dst
  | addLink A | dropLink A | iput A | iget A => A

def locked (A : Nat) (m : FsM α) : FsM Unit := do
  ilock A
  let _ ← m
  return ()

def bothLocked (B A : Nat) (m : FsM α) : FsM Unit := do
  ilock B
  locked A m

def FsOp.exec : FsOp → FsM Unit
  | writei A src off n => locked A (OopsOS.writei A src off n)
  | pwrite A src off n => locked A (pwritePass A src off n)
  | falloc A startb endb newsize keepSize =>
    locked A (OopsOS.falloc A startb endb newsize keepSize)
  | ipunch A startb endb => locked A (OopsOS.ipunch A startb endb)
  | itrunc A => locked A (OopsOS.itrunc A)
  | itruncTo A newsize => locked A (OopsOS.itruncTo A newsize)
  | iclone src dst => bothLocked src dst (OopsOS.iclone src dst)
  | icloneRange src dst srcOff dstOff len =>
    bothLocked src dst (OopsOS.icloneRange src dst srcOff dstOff len)
  | idedup src dst => bothLocked src dst (OopsOS.idedup src dst)
  | addLink A => locked A (OopsOS.addLink A)
  | dropLink A => locked A (OopsOS.dropLink A)
  | iput A => OopsOS.iput A
  | iget A => OopsOS.iget A

/-- What callers guarantee: allocated inodes, ranges within a file, an empty target of a clone, a
last `iput` without links or on disk. -/
def FsOp.Allowed (s : FsState) : FsOp → Prop
  | writei A _ _ n => A ∈ s.used ∧ n < 2 ^ 32
  | pwrite A _ off n => A ∈ s.used ∧ off + n < 2 ^ 32
  | falloc A startb endb _ _ => A ∈ s.used ∧ startb ≤ endb ∧ endb ≤ MAXFILE
  | ipunch A startb endb => A ∈ s.used ∧ startb ≤ endb
  | itrunc A => A ∈ s.used
  | itruncTo A newsize => A ∈ s.used ∧ newsize ≤ MAXFILE * BSIZE
  | iclone src dst => src ∈ s.used ∧ dst ∈ s.used ∧ src ≠ dst ∧ ∀ k, s.view dst k = 0
  | icloneRange src dst _ dstOff len =>
    src ∈ s.used ∧ dst ∈ s.used ∧ src ≠ dst ∧ dstOff / BSIZE + len / BSIZE ≤ MAXFILE
  | idedup src dst => src ∈ s.used ∧ dst ∈ s.used ∧ src ≠ dst
  | addLink A => A ∈ s.used
  | dropLink A => A ∈ s.used
  | iput A => A ∈ s.used ∧ 1 ≤ s.iref A ∧
    (s.iref A = 1 → s.valid A = true → (s.inode A).nlink ≠ 0 → Synced s A)
  | iget _ => True

/-- The disk inode stays as in memory: a `falloc` changes or keeps the size, or finds its addresses
mapped. -/
def FsOp.WritesThrough (s : FsState) : FsOp → Prop
  | falloc A startb endb newsize keepSize => keepSize = true ∨
    (s.inodeOf A).size.toNat < newsize ∨ MAXFILE * BSIZE < newsize ∨
    ∀ k ∈ pathsOf startb endb, k.parent = none → s.view A k ≠ 0
  | _ => True

def FsOp.Writes (s : FsState) : FsOp → Nat → Prop
  | writei A src off n, p => (off ≤ (s.inodeOf A).size.toNat ∧ off + n ≤ MAXFILE * BSIZE) ∧
    off ≤ p ∧ p < off + src.stored n n 0 off
  | pwrite _ src off n, p => off + n ≤ MAXFILE * BSIZE ∧ off ≤ p ∧ p < off + src.stored n n 0 off
  | iclone src dst, _ => (s.inodeOf src).type = T_FILE ∧ (s.inodeOf dst).type = T_FILE
  | icloneRange src dst _ dstOff len, p =>
    (s.inodeOf src).type = T_FILE ∧ (s.inodeOf dst).type = T_FILE ∧ dstOff / BSIZE ≤ p / BSIZE ∧
      p / BSIZE < dstOff / BSIZE + len / BSIZE
  | _, _ => False

def FsState.byteOf (s : FsState) (A p : Nat) : UInt8 := fileByte s.blocks (s.inodeOf A) p

theorem FsState.byteAt_eq (s : FsState) (A p : Nat) :
    s.byteAt A p = fileByte s.blocks (s.inode A) p := by
  rw [byteAt, data, fileByte, fileBlock, s.bmapNalloc_eq]

def FsState.readByte (s : FsState) (A p : Nat) : List UInt8 :=
  readi s.blocks (s.inodeOf A) (fun _ _ => true) p 1

theorem FsState.readByte_below (h : p < (s.inodeOf A).size.toNat) :
    s.readByte A p = [s.byteOf A p] := by
  have hlt := (s.inodeOf A).size.toNat_lt
  rw [readByte, readi_eq (fun _ _ => rfl) (by omega) (by omega), byteOf,
    show min 1 ((s.inodeOf A).size.toNat - p) = 1 by omega]
  rfl

theorem FsState.readByte_above (h : (s.inodeOf A).size.toNat ≤ p) : s.readByte A p = [] := by
  have hlt := (s.inodeOf A).size.toNat_lt
  by_cases he : p = (s.inodeOf A).size.toNat
  · subst he
    by_cases hmax : (s.inodeOf A).size.toNat + 1 < 2 ^ 32
    · rw [readByte, readi_eq (fun _ _ => rfl) (Nat.le_refl _) hmax, Nat.sub_self]
      rfl
    · rw [readByte, readi, if_pos (.inr (by omega))]
  · rw [readByte, readi, if_pos (.inl (by omega))]

theorem FsState.byteOf_valid (hv : s.valid A = true) (p : Nat) : s.byteOf A p = s.byteAt A p := by
  rw [byteOf, inodeOf_valid hv, byteAt_eq]

structure Untouched (B : Nat) (s s' : FsState) : Prop where
  inode : s'.inodeOf B = s.inodeOf B
  view : s'.view B = s.view B
  blocks : ∀ k, s.view B k ≠ 0 → s'.blocks (s.view B k) = s.blocks (s.view B k)

theorem Untouched.refl (B : Nat) (s : FsState) : Untouched B s s := ⟨rfl, rfl, fun _ _ => rfl⟩

theorem Untouched.trans (h : Untouched B s s₁) (h' : Untouched B s₁ s') : Untouched B s s' := by
  refine ⟨h'.inode.trans h.inode, h'.view.trans h.view, fun k hk => ?_⟩
  have h1 := h'.blocks k (h.view.symm ▸ hk)
  rw [h.view] at h1
  rw [h1, h.blocks k hk]

theorem Untouched.used (h : Untouched B s s') (hB : B ∈ s.used) : B ∈ s'.used := by
  rw [FsState.mem_used] at hB ⊢
  rw [h.inode]
  exact hB

theorem FsState.fileBlock_view (s : FsState) (B bn : Nat) :
    fileBlock s.blocks (s.inodeOf B) bn = blockData s.blocks (s.view B (slotOf bn)) := by
  rw [fileBlock, OopsOS.bmapNalloc_eq, view]

theorem Untouched.fileBlock (h : Untouched B s s') :
    OopsOS.fileBlock s'.blocks (s'.inodeOf B) = OopsOS.fileBlock s.blocks (s.inodeOf B) := by
  funext bn
  rw [s'.fileBlock_view, s.fileBlock_view, h.view]
  by_cases h0 : s.view B (slotOf bn) = 0
  · rw [h0]
    rfl
  · rw [blockData, if_neg h0, h.blocks _ h0, blockData, if_neg h0]

theorem Untouched.byteOf (h : Untouched B s s') (p : Nat) : s'.byteOf B p = s.byteOf B p := by
  rw [FsState.byteOf, fileByte, h.fileBlock, FsState.byteOf, fileByte]

theorem Frame.untouched (h : Frame (s.others A) A s s') (hB : B ∈ s.used) (hne : B ≠ A) :
    Untouched B s s' :=
  ⟨h.inodeOf (FsState.lt_of_used hB) hne, h.view hB hne,
    fun _ hk => h.blocks _ (FsState.mem_others hB hne hk)⟩

def WrittenThrough (s : FsState) : Prop := ∀ i < sb.ninodes, s.inodeOf i = dinodeOf s.blocks i

theorem WrittenThrough.synced (h : WrittenThrough s) (hA : A < sb.ninodes)
    (hv : s.valid A = true) : Synced s A := by
  rw [Synced, ← h A hA, FsState.inodeOf_valid hv]

theorem Frame.through (hf : Frame O A s s') (h : WrittenThrough s)
    (hA : s'.inodeOf A = dinodeOf s'.blocks A) : WrittenThrough s' := by
  intro i hi
  by_cases he : i = A
  · rw [he, hA]
  · rw [hf.inodeOf hi he, hf.dinode i hi he, h i hi]

/-- What a step with target `A` keeps: the invariant, other files, and bytes of `A` it does not
touch. -/
structure Safe (A : Nat) (c : Prop) (w : Nat → Prop) (s s' : FsState) : Prop where
  inv : BlockInv s'
  untouched : ∀ B ∈ s.used, B ≠ A → Untouched B s s'
  through : c → WrittenThrough s → WrittenThrough s'
  bytes : ∀ p, ¬ w p → s'.byteOf A p = s.byteOf A p ∨ s'.byteOf A p = 0

structure Effect (O : Multiset Nat) (M : Set Nat) (A : Nat) (c : Prop) (w : Nat → Prop)
    (s s' : FsState) : Prop where
  done : Done O M A s s'
  synced : c → Synced s A → Synced s' A
  bytes : ∀ p, ¬ w p → s'.byteAt A p = s.byteAt A p ∨ s'.byteAt A p = 0

theorem Stored.effect (h : Stored O M A s s')
    (hb : ∀ p, ¬ w p → s'.byteAt A p = s.byteAt A p ∨ s'.byteAt A p = 0) : Effect O M A c w s s' :=
  ⟨h.done, fun _ => h.synced, hb⟩

theorem Effect.refl (h : FileInv O M A 0 s) : Effect O M A c w s s :=
  ⟨.refl h, fun _ => id, fun _ _ => .inl rfl⟩

theorem Effect.saved (h : FileInv O M A 0 s) (hA : A < sb.ninodes) (ip : Inode)
    (ha : ip.addrs = (s.inode A).addrs) (ht : ip.type = (s.inode A).type) :
    Effect O M A c w s (s.saved A ip) :=
  Stored.effect (.of_saved (.refl h) hA ip ha ht) fun p _ => .inl ((h.saved hA ip ha).2.2.byteAt p)

theorem same_or_zero {x y : UInt8} {q : Prop} [Decidable q] (h : x = if q then 0 else y) :
    x = y ∨ x = 0 := by
  by_cases hq : q
  · exact .inr (h.trans (if_pos hq))
  · exact .inl (h.trans (if_neg hq))

theorem Effect.safe (he : Effect (s.others A) (s.indexBlocks A) A c w s s') (h : BlockInv s)
    (hA : A ∈ s.used) (hv : s.valid A = true) : Safe A c w s s' := by
  have hd := he.done
  refine ⟨h.done hA hv hd, fun _ hB hne => hd.frame.untouched hB hne, fun h1 hall => ?_,
    fun p hp => ?_⟩
  · apply hd.frame.through hall
    rw [FsState.inodeOf_valid hd.inv.valid]
    exact (he.synced h1 (hall.synced (FsState.lt_of_used hA) hv)).symm
  · rw [FsState.byteOf_valid hd.inv.valid, FsState.byteOf_valid hv]
    exact he.bytes p hp

structure Alike (s s' : FsState) : Prop where
  blocks : s'.blocks = s.blocks
  ref : s'.ref = s.ref
  inode : s'.inodeOf = s.inodeOf

theorem Alike.trans (h : Alike s s₁) (h' : Alike s₁ s') : Alike s s' :=
  ⟨h'.blocks.trans h.blocks, h'.ref.trans h.ref, h'.inode.trans h.inode⟩

section
variable (h : Alike s s')
include h

theorem Alike.inodeOf (hv : s'.valid A = true) : s.inodeOf A = s'.inode A := by
  rw [← h.inode, FsState.inodeOf_valid hv]

theorem Alike.view : s'.view = s.view := by
  funext i
  rw [FsState.view, h.blocks, h.inode, FsState.view]

theorem Alike.used : s'.used = s.used := by
  rw [FsState.used, h.inode, FsState.used]

theorem Alike.inv (hs : BlockInv s) : BlockInv s' :=
  hs.congr h.blocks h.ref (congrFun h.inode)

theorem Alike.untouched (B : Nat) : Untouched B s s' :=
  ⟨congrFun h.inode B, congrFun h.view B, fun _ _ => by rw [h.blocks]⟩

theorem Alike.through (hs : WrittenThrough s) : WrittenThrough s' := by
  intro i hi
  rw [h.inode, h.blocks, hs i hi]

theorem Alike.byteOf : s'.byteOf = s.byteOf := by
  funext i p
  rw [FsState.byteOf, h.inode, h.blocks, FsState.byteOf]

theorem Alike.safe_self (hs : BlockInv s) (A : Nat) (c : Prop) (w : Nat → Prop) : Safe A c w s s' :=
  ⟨h.inv hs, fun B _ _ => h.untouched B, fun _ => h.through, fun _ _ => .inl (by rw [h.byteOf])⟩

end

theorem Alike.safe (h : Alike s s₁) (h' : Safe A c w s₁ s') : Safe A c w s s' :=
  ⟨h'.inv, fun B hB hne => (h.untouched B).trans (h'.untouched B (h.used.symm ▸ hB) hne),
    fun hc hs => h'.through hc (h.through hs), fun p hp => by
      rw [← h.byteOf]
      exact h'.bytes p hp⟩

theorem ilock_then {m : FsM α} {Q : α → FsState → Prop} (hA : A ∈ s.used)
    (hm : ∀ s₁, Alike s s₁ → s₁.valid A = true → (∀ i, s.valid i = true → s₁.valid i = true) →
      wp E m s₁ Q) :
    wp E (do ilock A; m) s Q := by
  apply (ilock_spec hA).bind
  intro _ s₁ hs
  obtain ⟨hv, hb, hr, -, hi, hold⟩ := hs
  exact hm s₁ ⟨hb, hr, funext hi⟩ hv hold

theorem locked_safe {m : FsM α} (h : BlockInv s) (hA : A ∈ s.used)
    (hm : ∀ s₁ O M, Alike s s₁ → FileInv O M A 0 s₁ →
      wp OutOfBlocks m s₁ fun _ s' => Effect O M A c w s₁ s') :
    wp OutOfBlocks (locked A m) s fun _ s' => Safe A c w s s' := by
  apply ilock_then hA
  intro s₁ hlike hv _
  have h₁ := hlike.inv h
  have hA₁ : A ∈ s₁.used := hlike.used.symm ▸ hA
  apply (hm s₁ _ _ hlike (h₁.file hA₁ hv)).bind
  intro _ s' he
  exact hlike.safe (he.safe h₁ hA₁ hv)

theorem bothLocked_safe {m : FsM α} (h : BlockInv s) (hB : B ∈ s.used) (hA : A ∈ s.used)
    (hne : B ≠ A)
    (hm : ∀ s₁ O M, Alike s s₁ → s₁.valid B = true → FileInv O M A 0 s₁ → Lender O M B s₁ →
      wp OutOfBlocks m s₁ fun _ s' => Effect O M A c w s₁ s') :
    wp OutOfBlocks (bothLocked B A m) s fun _ s' => Safe A c w s s' := by
  apply ilock_then hB
  intro s₁ hlike hvB _
  apply ilock_then (hlike.used.symm ▸ hA)
  intro s₂ hlike₂ hv hold
  have hlike' := hlike.trans hlike₂
  have h₂ := hlike'.inv h
  have hA₂ : A ∈ s₂.used := hlike'.used.symm ▸ hA
  have hB₂ : B ∈ s₂.used := hlike'.used.symm ▸ hB
  apply (hm s₂ _ _ hlike' (hold B hvB) (h₂.file hA₂ hv) (h₂.lender hB₂ (hold B hvB) hne)).bind
  intro _ s' he
  exact hlike'.safe (he.safe h₂ hA₂ hv)

end OopsOS
