import OopsOS.Punching

namespace OopsOS
set_option autoImplicit true
open Function

variable {s s₁ s' s'' : FsState} {O P : Multiset Nat} {M : Set Nat} {A b bn off n tot fuel : Nat}
  {k : Slot} {src : Source}

def FsState.byteAt (s : FsState) (A p : Nat) : UInt8 :=
  s.data A (slotOf (p / BSIZE)) (p % BSIZE)

theorem SameData.byteAt (h : SameData A s s') (p : Nat) : s'.byteAt A p = s.byteAt A p :=
  congrFun (h _ (slotOf_index _)) _

theorem FileInv.write (h : FileInv O M A P s) (hi : k.index = false) (h0 : s.ptrs A k ≠ 0)
    (hc : (O + (P + values slots (s.ptrs A))).count (s.ptrs A k) = 1)
    (data : Bytes) (l : List Nat)
    (hs : s' = { s with blocks := update s.blocks (s.ptrs A k) data, logged := l }) :
    FileInv O M A P s' ∧ Step A (Free O) s s' ∧ s'.ptrs A = s.ptrs A ∧ s'.data A k = data ∧
      ∀ k', k'.index = false → k' ≠ k → s'.data A k' = s.data A k' := by
  have hd := h.data_ptr h0
  have hblock (x : Nat) (hx : x ≠ s.ptrs A k) : s'.blocks x = s.blocks x := by
    rw [hs]
    exact update_of_ne hx ..
  have hself : s'.blocks (s.ptrs A k) = data := by
    rw [hs]
    exact update_self ..
  obtain ⟨h', hptrs⟩ := h.store hd (fun k' hi' h0' e => h.leaf_ne_index hi' h0' hi e.symm) hblock
    (by rw [hs]) (by rw [hs]) (by rw [hs])
  have hpos := Multiset.count_pos.2 (mem_ptrs h0)
  rw [Multiset.count_add, Multiset.count_add] at hc
  have hO : s.ptrs A k ∉ O := Multiset.count_eq_zero.1 (by omega)
  refine ⟨h', ⟨fun x _ hx => hblock x ?_, fun i _ => by rw [hs], by rw [hs]; rfl, by rw [hs],
    by rw [hs]⟩, hptrs, ?_, fun k' hi' hne => ?_⟩
  · rintro rfl
    exact hx ⟨hd, hO⟩
  · rw [FsState.data, blockData, hptrs, if_neg h0, hself]
  · apply FsState.data_congr (congrFun hptrs k')
    intro h0'
    apply hblock
    intro e
    exact hne (eq_of_count_le_one (by omega) h0 (mem_slots.2 (Slot.ok_of_ptr h0')) e
      (mem_slots.2 (Slot.ok_of_ptr h0)) rfl)

/-- One chunk of `writei`: the bytes from `off` on are replaced by those of the source. -/
structure Wrote (O : Multiset Nat) (M : Set Nat) (A : Nat) (byte : Nat → UInt8) (off n : Nat)
    (s s' : FsState) : Prop where
  inv : FileInv O M A 0 s'
  step : Step A (Free O) s s'
  new : ∀ p, off ≤ p → p < off + n → s'.byteAt A p = byte (p - off)
  old : ∀ p, ¬ (off ≤ p ∧ p < off + n) → s'.byteAt A p = s.byteAt A p

theorem Wrote.trans (h : Wrote O M A byte off m s s')
    (h' : Wrote O M A (fun i => byte (m + i)) (off + m) n s' s'') :
    Wrote O M A byte off (m + n) s s'' := by
  refine ⟨h'.inv, h.step.trans h'.step, fun p h1 h2 => ?_, fun p hp => ?_⟩
  · by_cases hm : p < off + m
    · rw [h'.old p (by omega), h.new p h1 hm]
    · rw [h'.new p (by omega) (by omega)]
      congr 1
      omega
  · rw [h'.old p (by omega), h.old p (by omega)]

def rangePaths (off n : Nat) : Set Slot :=
  fun k => ∃ p, off ≤ p ∧ p < off + n ∧ k ∈ pathOf (p / BSIZE)

theorem pathOf_subset_rangePaths (off : Nat) (hn : 0 < n) :
    pathOf (off / BSIZE) ⊆ rangePaths off n :=
  fun _ hk => ⟨off, Nat.le_refl _, Nat.lt_add_of_pos_right hn, hk⟩

theorem Filled.chunk (h : Filled O A (pathOf (off / BSIZE)) s s₁)
    (h' : Filled O A (rangePaths (off + m) (n - m)) s₁ s') (hs : FileInv O M A 0 s)
    (hs₁ : FileInv O M A 0 s₁) (hm : m = min n (BSIZE - off % BSIZE)) (hn : 0 < n) :
    Filled O A (rangePaths off n) s s' := by
  refine (h.trans h' hs hs₁ fun k hk hi hk' => ?_).mono ?_
  · obtain ⟨p, h1, h2, hp⟩ := hk'
    rw [eq_slotOf_of_mem hk hi] at hp
    have he := slotOf_inj (eq_slotOf_of_mem hp (slotOf_index _))
    simp only [BSIZE] at *
    omega
  · rintro k (hk | ⟨p, h1, h2, hk⟩)
    · exact pathOf_subset_rangePaths off hn hk
    · exact ⟨p, by omega, by omega, hk⟩

theorem Source.stored_le (src : Source) (n fuel tot off : Nat) :
    src.stored n fuel tot off ≤ n - tot := by
  induction fuel generalizing tot off with
  | zero => exact Nat.zero_le _
  | succ fuel ih =>
    unfold stored
    split
    · generalize hm : min (n - tot) (BSIZE - off % BSIZE) = m
      have := ih (tot + m) (off + m)
      cases hf : src.fault tot m with
      | some k =>
        simp only [hf]
        omega
      | none =>
        simp only [hf]
        omega
    · exact Nat.zero_le _

/-- Copies from the source within `n` bytes fault at byte `k`, if that is below `n`. -/
def Source.Cut (src : Source) (n k : Nat) : Prop :=
  ∀ t m, 0 < m → t + m ≤ n → src.fault t m = if t + m ≤ k then none else some (k - t)

theorem Source.Cut.of_none (h : ∀ t m, src.fault t m = none) (n : Nat) : src.Cut n n :=
  fun t m _ hle => by rw [h, if_pos hle]

theorem Source.Cut.stored_eq {k : Nat} (h : src.Cut n k) (hfuel : n ≤ tot + fuel) (off : Nat) :
    src.stored n fuel tot off = min n k - tot := by
  induction fuel generalizing tot off with
  | zero =>
    rw [stored]
    omega
  | succ fuel ih =>
    unfold stored
    split
    · have hpos : 0 < BSIZE - off % BSIZE := Nat.sub_pos_of_lt (Nat.mod_lt _ (by decide))
      generalize hm : min (n - tot) (BSIZE - off % BSIZE) = m
      have hfault := h tot m (by omega) (by omega)
      split at hfault
      · simp only [hfault]
        rw [ih (by omega)]
        omega
      · simp only [hfault]
        omega
    · omega

/-- A `writei` writes the range, or a part if a copy faults, and the inode with the new size. -/
structure Written (O : Multiset Nat) (M : Set Nat) (A : Nat) (src : Source) (off n : Nat)
    (s s' : FsState) : Prop where
  done : Done O M A s s'
  old : ∀ p, ¬ (off ≤ p ∧ p < off + src.stored n n 0 off) → s'.byteAt A p = s.byteAt A p
  new : ∀ p, off ≤ p → p < off + src.stored n n 0 off → s'.byteAt A p = src.byte (p - off)
  size : (s.inode A).size.toNat ≤ (s'.inode A).size.toNat ∧
    (s'.inode A).size.toNat ≤ max (s.inode A).size.toNat (off + src.stored n n 0 off)
  grown : src.Cut n n → (s'.inode A).size.toNat = max (s.inode A).size.toNat (off + n)
  mode : (s'.inode A).mode = (s.inode A).mode
  synced : Synced s A → Synced s' A
  filled : Filled O A (rangePaths off n) s s'

theorem Written.full (h : Written O M A src off n s s') (hno : ∀ t m, src.fault t m = none) :
    (∀ p, off ≤ p → p < off + n → s'.byteAt A p = src.byte (p - off)) ∧
      (s'.inode A).size.toNat = max (s.inode A).size.toNat (off + n) := by
  have hcut := Source.Cut.of_none hno n
  refine ⟨fun p h1 h2 => h.new p h1 ?_, h.grown hcut⟩
  rw [hcut.stored_eq (by omega)]
  omega

theorem Written.outside (h : Written O M A src off n s s')
    (hp : ¬ (off ≤ p ∧ p < off + n)) : s'.byteAt A p = s.byteAt A p := by
  apply h.old
  have := src.stored_le n n 0 off
  omega

theorem writei_refused {Q : Int → FsState → Prop} (hn : n < 2 ^ 32)
    (h : ¬ (off ≤ (s.inode A).size.toNat ∧ off + n ≤ MAXFILE * BSIZE)) (hQ : Q (-1) s) :
    wp E (writei A src off n) s Q := by
  unfold writei
  rw [wp_bind, wp_get]
  by_cases h1 : off > (s.inode A).size.toNat ∨ (off + n) % 2 ^ 32 < off
  · simp only [if_pos h1]
    exact hQ
  · have h2 : (off + n) % 2 ^ 32 > MAXFILE * BSIZE := by
      have := UInt32.toNat_lt (s.inode A).size
      omega
    simp only [if_neg h1, if_pos h2]
    exact hQ

theorem Wrote.saved (h : Wrote O M A src.byte off (src.stored n n 0 off) s s₁)
    (hfill : Filled O A (rangePaths off n) s s₁) (hA : A < sb.ninodes)
    (h1 : off' ≤ off + src.stored n n 0 off) (hfull : src.Cut n n → off' = off + n)
    (hz : z.toNat = max (s.inode A).size.toNat off') :
    Written O M A src off n s (s₁.saved A { s₁.inode A with size := z }) := by
  obtain ⟨-, hptrs, hsame⟩ := h.inv.saved hA { s₁.inode A with size := z } rfl
  have hdone := (h.inv.done h.step).trans
    (h.inv.saved_done hA { s₁.inode A with size := z } rfl rfl)
  have hsize : ((s₁.saved A { s₁.inode A with size := z }).inode A).size = z := by
    rw [s₁.saved_inode]
  refine ⟨hdone, fun p hp => ?_, fun p h5 h6 => ?_, ?_, fun hno => ?_, ?_,
    fun _ => s₁.saved_synced A _,
    hfill.log hptrs fun x hx => (List.mem_cons.1 hx).symm.imp_right .inl⟩
  · rw [hsame.byteAt, h.old p hp]
  · rw [hsame.byteAt, h.new p h5 h6]
  · rw [hsize, hz]
    omega
  · rw [hsize, hz, hfull hno]
  · rw [s₁.saved_inode, ← h.step.inode.mode]

def pathsOf (startb endb : Nat) : Set Slot := fun k => ∃ bn, startb ≤ bn ∧ bn < endb ∧ k ∈ pathOf bn

def FsState.fallocSaved (s : FsState) (A newsize : Nat) (keepSize : Bool) : FsState :=
  if keepSize = false ∧ newsize > (s.inode A).size.toNat then
    s.saved A { s.inode A with size := UInt32.ofNat newsize }
  else if keepSize then s.saved A (s.inode A)
  else s

section
variable (h : FileInv O M A 0 s)
include h

theorem Wrote.refl : Wrote O M A byte off 0 s s :=
  ⟨h, .refl _ _ _, fun p h1 h2 => by omega, fun _ _ => rfl⟩

theorem writeChunk_spec (hm : off % BSIZE + m ≤ BSIZE) (hmax : off / BSIZE < MAXFILE) :
    wp OutOfBlocks (bmap A (off / BSIZE) true) s fun b s₁ => ∀ l ⊆ b :: s₁.logged,
      let s' := { s₁ with
        blocks := update s₁.blocks b (copyIn (s₁.blocks b) (off % BSIZE) m byte)
        logged := l }
      Wrote O M A byte off m s s' ∧ Filled O A (pathOf (off / BSIZE)) s s' := by
  apply (bmap_write_spec h hmax).mono
  rintro b s₁ ⟨h₁, hstep, hsame, hb, rfl, hc, hfill⟩ l hl
  obtain ⟨h₂, hstep₂, hptrs, hself, hother⟩ := h₁.write (slotOf_index _) hb hc _ l rfl
  have hdata : s₁.blocks (s₁.ptrs A (slotOf (off / BSIZE))) = s.data A (slotOf (off / BSIZE)) := by
    rw [← hsame _ (slotOf_index _), FsState.data, blockData, if_neg hb]
  refine ⟨⟨h₂, hstep.trans hstep₂, fun p h1 h2 => ?_, fun p hp => ?_⟩,
    hfill.log hptrs fun x hx => ?_⟩
  · have hdiv : p / BSIZE = off / BSIZE := by
      simp only [BSIZE] at *
      omega
    have hmod : p % BSIZE = off % BSIZE + (p - off) := by
      simp only [BSIZE] at *
      omega
    rw [FsState.byteAt, hdiv, hself, copyIn, if_pos (by omega), hmod, Nat.add_sub_cancel_left]
  · by_cases hdiv : p / BSIZE = off / BSIZE
    · have hout : ¬ (off % BSIZE ≤ p % BSIZE ∧ p % BSIZE < off % BSIZE + m) := by
        simp only [BSIZE] at *
        omega
      rw [FsState.byteAt, hdiv, hself, copyIn, if_neg hout, hdata, FsState.byteAt, hdiv]
    · rw [FsState.byteAt, hother _ (slotOf_index _) fun e => hdiv (slotOf_inj e),
        hsame _ (slotOf_index _), FsState.byteAt]
  · rcases List.mem_cons.1 (hl hx) with rfl | hx
    · exact .inr (.inr ⟨_, Slot.mem_path _, hb, slotOf_index _, rfl⟩)
    · exact .inl hx

theorem writeiLoop_spec (hfuel : n ≤ tot + fuel) (htot : tot ≤ n)
    (hmax : off + (n - tot) ≤ MAXFILE * BSIZE) :
    wp OutOfBlocks (writeiLoop A src n fuel tot off) s fun off' s' =>
      Wrote O M A (fun i => src.byte (tot + i)) off (src.stored n fuel tot off) s s' ∧
        Filled O A (rangePaths off (n - tot)) s s' ∧
        off ≤ off' ∧ off' ≤ off + src.stored n fuel tot off ∧
        (src.Cut n n → off' = off + (n - tot)) := by
  induction fuel generalizing s tot off with
  | zero =>
    exact ⟨.refl h, .refl _ _ _ _, Nat.le_refl _, Nat.le_refl _, fun _ => by omega⟩
  | succ fuel ih =>
    unfold writeiLoop Source.stored
    by_cases hlt : tot < n
    · rw [if_pos hlt, if_pos hlt]
      have hpos : 0 < BSIZE - off % BSIZE := Nat.sub_pos_of_lt (Nat.mod_lt _ (by decide))
      have hdiv : off / BSIZE < MAXFILE := by
        rw [Nat.div_lt_iff_lt_mul (by decide)]
        omega
      generalize hm : min (n - tot) (BSIZE - off % BSIZE) = m
      cases hf : src.fault tot m with
      | some j =>
        apply (writeChunk_spec h (m := min j m) (by omega) hdiv).bind
        intro b s₁ h₁
        simp only [wp_bind, wp_bread, hf, wp_bstore, wp_pure]
        obtain ⟨hw, hfill⟩ := h₁ _ (List.subset_cons_self _ _)
        have hpaths := pathOf_subset_rangePaths off (Nat.sub_pos_of_lt hlt)
        refine ⟨hw, hfill.mono hpaths, Nat.le_refl _, by omega, fun hno => ?_⟩
        rw [hno tot m (by omega) (by omega), if_pos (by omega)] at hf
        cases hf
      | none =>
        apply (writeChunk_spec h (m := m) (by omega) hdiv).bind
        intro b s₁ h₁
        simp only [wp_bind, wp_bread, hf, wp_bstore, wp_logWrite]
        obtain ⟨h₂, hfill⟩ := h₁ (b :: s₁.logged) (List.Subset.refl _)
        have hfuel' : n ≤ tot + m + fuel := by omega
        have hmax' : off + m + (n - (tot + m)) ≤ MAXFILE * BSIZE := by omega
        apply (ih h₂.inv hfuel' (by omega) hmax').mono
        rintro off' s' ⟨h', hfill', h1, h2, h3⟩
        rw [← Nat.sub_sub] at hfill'
        refine ⟨h₂.trans ?_, hfill.chunk hfill' h h₂.inv hm.symm (by omega), by omega, by omega,
          fun hno => ?_⟩
        · simpa only [Nat.add_assoc] using h'
        · have := h3 hno
          omega
    · rw [if_neg hlt, if_neg hlt]
      exact ⟨.refl h, .refl _ _ _ _, Nat.le_refl _, Nat.le_refl _, fun _ => by omega⟩

theorem Written.refl (hoff : off ≤ (s.inode A).size.toNat) : Written O M A src off 0 s s :=
  ⟨.refl h, fun _ _ => rfl, fun p h1 h2 => by rw [Source.stored] at h2; omega, by omega,
    fun _ => by omega, rfl, fun h => h, .refl _ _ _ _⟩

theorem writei_spec (hA : A < sb.ninodes)
    (hoff : off ≤ (s.inode A).size.toNat) (hmax : off + n ≤ MAXFILE * BSIZE) :
    wp OutOfBlocks (writei A src off n) s fun r s' => r = n ∧ Written O M A src off n s s' := by
  have hlt : off + n < 4294967296 := by
    change off + n ≤ 65803 * 1024 at hmax
    omega
  have h1 : ¬ (off > (s.inode A).size.toNat ∨ (off + n) % 2 ^ 32 < off) := by omega
  have h2 : ¬ (off + n) % 2 ^ 32 > MAXFILE * BSIZE := by omega
  unfold writei
  rw [wp_bind, wp_get]
  simp only [if_neg h1, if_neg h2]
  by_cases hn : n = 0
  · subst hn
    exact ⟨rfl, .refl h hoff⟩
  apply (writeiLoop_spec h (Nat.le_add_left n 0) (Nat.zero_le n) (by omega)).bind
  rintro off' s₁ ⟨hw, hfill, h3, h4, hfull⟩
  simp only [Nat.zero_add, Nat.sub_zero] at hw hfill hfull
  have hle : off' ≤ off + n := h4.trans (Nat.add_le_add_left (src.stored_le n n 0 off) off)
  have hsz : (s₁.inode A).size = (s.inode A).size := hw.step.inode.size
  rw [if_pos (Nat.pos_of_ne_zero hn), wp_bind, wp_get]
  by_cases h5 : off' > (s₁.inode A).size.toNat
  · rw [if_pos h5, wp_bind, wp_setSize, wp_bind, wp_iupdate, FsState.saved_modified]
    simp only [update_self]
    refine ⟨rfl, hw.saved hfill hA h4 hfull ?_⟩
    rw [hsz] at h5
    have hu : off' < UInt32.size := by
      change off' < 4294967296
      omega
    rw [UInt32.toNat_ofNat_of_lt' hu]
    omega
  · rw [if_neg h5, wp_bind, wp_iupdate]
    refine ⟨rfl, hw.saved hfill hA h4 hfull ?_⟩
    rw [hsz] at h5 ⊢
    omega

theorem fallocLoop_spec (hmax : startb + n ≤ MAXFILE) :
    wp OutOfBlocks (loop startb n () fun b _ => do
      let _ ← bmap A b false
      return ()) s fun _ s' => Grown O M A 0 (pathsOf startb (startb + n)) s s' := by
  apply wp_loop (fun m _ s' => Grown O M A 0 (pathsOf startb m) s s')
  · apply (Grown.refl h).congr
    intro k
    refine iff_of_false (Set.notMem_empty k) ?_
    rintro ⟨bn, h1, h2, -⟩
    omega
  · intro m _ s₁ hlo hm hg
    apply (bmap_read_spec hg.inv (show m < MAXFILE by omega)).bind
    rintro b s₂ ⟨hg₂, -⟩
    refine (hg.trans hg₂).congr fun k => ⟨?_, ?_⟩
    · rintro (⟨bn, h1, h2, hk⟩ | hk)
      · exact ⟨bn, h1, by omega, hk⟩
      · exact ⟨m, hlo, by omega, hk⟩
    · rintro ⟨bn, h1, h2, hk⟩
      by_cases he : bn = m
      · exact .inr (he ▸ hk)
      · exact .inl ⟨bn, h1, by omega, hk⟩

theorem falloc_spec (hstart : startb ≤ endb) (hmax : endb ≤ MAXFILE)
    (hsize : newsize ≤ MAXFILE * BSIZE) :
    wp OutOfBlocks (falloc A startb endb newsize keep) s fun r s' => r = 0 ∧
      ∃ s₁, Grown O M A 0 (pathsOf startb endb) s s₁ ∧ s' = s₁.fallocSaved A newsize keep := by
  unfold falloc
  rw [if_neg (Nat.not_lt.2 hsize)]
  apply (fallocLoop_spec h (show startb + (endb - startb) ≤ MAXFILE by omega)).bind
  intro _ s₁ hg
  rw [Nat.add_sub_cancel' hstart] at hg
  rw [wp_bind, wp_get]
  refine wp.mono (Q := fun r s' => r = 0 ∧ s' = s₁.fallocSaved A newsize keep) ?_ fun r s' hr =>
    ⟨hr.1, s₁, hg, hr.2⟩
  unfold FsState.fallocSaved
  cases keep with
  | true =>
    simp only [not_true_eq_false, false_and, Bool.true_eq_false, ↓reduceIte]
    rw [wp_bind, wp_iupdate]
    exact ⟨rfl, rfl⟩
  | false =>
    by_cases hgrow : newsize > (s₁.inode A).size.toNat
    · simp only [Bool.false_eq_true, not_false_eq_true, hgrow, and_self, ↓reduceIte]
      rw [wp_bind, wp_setSize, wp_bind, wp_iupdate, FsState.saved_modified]
      simp only [update_self]
      exact ⟨rfl, rfl⟩
    · simp only [Bool.false_eq_true, not_false_eq_true, hgrow, and_false, ↓reduceIte]
      exact ⟨rfl, rfl⟩

end

end OopsOS
