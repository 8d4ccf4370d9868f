import OopsOS.Inodes
import Mathlib.Algebra.Order.Group.Multiset

namespace OopsOS
set_option autoImplicit true
open Function

variable {s s' s'' : FsState} {O own : Multiset Nat} {b x v : Nat} {Q : Unit → FsState → Prop}

theorem wp_bread {Q : Bytes → FsState → Prop} : wp E (bread b) s Q ↔ Q (s.blocks b) s := Iff.rfl

theorem wp_bstore : wp E (bstore b data) s Q ↔ Q () { s with blocks := update s.blocks b data } :=
  Iff.rfl

theorem wp_logWrite : wp E (logWrite b) s Q ↔ Q () { s with logged := b :: s.logged } := Iff.rfl

def OutOfBlocks (e : Panic) : Prop := e = .outOfBlocks

def IsMap (x : Nat) : Prop := sb.bmapstart ≤ x ∧ x < nmeta

theorem isMap_BBLOCK (h : b < sb.size) : IsMap (BBLOCK b) :=
  ⟨Nat.le_add_left _ _, BBLOCK_lt h⟩

theorem DataBlock.not_isMap (h : DataBlock x) : ¬ IsMap x := fun hm => by
  have h1 := h.1
  have h2 := hm.2
  omega

theorem not_isMap_IBLOCK (h : i < sb.ninodes) : ¬ IsMap (IBLOCK i) := fun hm => by
  have h1 := IBLOCK_lt h
  have h2 : 95 ≤ IBLOCK i := hm.1
  omega

theorem bitOf_update_ne (d : Disk) (data : Bytes) (h : BBLOCK b ≠ x) :
    bitOf (update d x data) b = bitOf d b := by
  rw [bitOf, update_of_ne h, bitOf]

/-- The step changes nothing but the allocator and the data blocks in `X`. -/
structure Keeps (X : Set Nat) (s s' : FsState) : Prop where
  blocks : ∀ x, ¬ IsMap x → x ∉ X → s'.blocks x = s.blocks x
  inode : s'.inode = s.inode
  valid : s'.valid = s.valid
  iref : s'.iref = s.iref

theorem Keeps.refl (X : Set Nat) (s : FsState) : Keeps X s s :=
  ⟨fun _ _ _ => rfl, rfl, rfl, rfl⟩

theorem Keeps.trans (h : Keeps X s s') (h' : Keeps X s' s'') : Keeps X s s'' :=
  ⟨fun x hm hx => (h'.blocks x hm hx).trans (h.blocks x hm hx), h'.inode.trans h.inode,
    h'.valid.trans h.valid, h'.iref.trans h.iref⟩

theorem Keeps.data (h : Keeps X s s') (hd : DataBlock x) (hx : x ∉ X) :
    s'.blocks x = s.blocks x := h.blocks x hd.not_isMap hx

/-- The allocator agrees with the pointers `O` of the resting files and the references `own` of the
running operation. -/
structure Acct (s : FsState) (O own : Multiset Nat) : Prop where
  reserved : ∀ b < nmeta, bitOf s.blocks b = true
  mem : ∀ b ∈ O + own, DataBlock b
  ref_eq : ∀ b, s.ref b = (O + own).count b
  bit_of_mem : ∀ b ∈ O + own, bitOf s.blocks b = true
  mem_of_bit : ∀ b, FileBlock b → bitOf s.blocks b = true → b ∈ O + own

def FsState.allocated (s : FsState) (b : Nat) : FsState :=
  { s with
    blocks := update
      (update s.blocks (BBLOCK b) (setBit (s.blocks (BBLOCK b)) (b % BPB))) b zeroBytes
    ref := update s.ref b (s.ref b + 1)
    hint := b + 1
    logged := b :: BBLOCK b :: s.logged }

theorem wp_balloc {Q : Nat → FsState → Prop}
    (hE : Alloc.ballocScan sb s.blocks s.hint = none → E .outOfBlocks)
    (h : ∀ b, Alloc.ballocScan sb s.blocks s.hint = some b → b < sb.size →
      bitOf s.blocks b = false → Q b (s.allocated b)) : wp E balloc s Q := by
  have hfinds := Alloc.ballocScan_finds sb s.blocks s.hint
  cases hs : Alloc.ballocScan sb s.blocks s.hint with
  | none =>
    simp only [balloc, wp_bind, wp_get, hs]
    exact hE hs
  | some b =>
    rw [hs] at hfinds
    obtain ⟨hb, hbit⟩ := hfinds.1
    simp only [balloc, wp_bind, wp_get, hs, wp_bread, wp_bstore, wp_logWrite, bzero, brefInc,
      if_neg (Nat.not_le.2 hb), wp_modify, wp_pure]
    exact h b hs hb hbit

def FsState.alloc (s : FsState) : Alloc.AllocState := ⟨s.blocks, fun b => .ofNat (s.ref b), s.hint⟩

theorem balloc_refines : wp (fun _ => Alloc.balloc sb s.alloc = .error .outOfBlocks) balloc s
    (fun b s' => Alloc.balloc sb s.alloc = .ok (b, s'.alloc)) := by
  refine wp_balloc (fun hs => ?_) fun b hs hb _ => ?_
  · rw [Alloc.balloc, show Alloc.ballocScan sb s.alloc.blocks s.alloc.hint = none from hs]
  · have href : update (fun x => UInt32.ofNat (s.ref x)) b (UInt32.ofNat (s.ref b) + 1) =
        fun x => UInt32.ofNat (update s.ref b (s.ref b + 1) x) := by
      funext x
      by_cases hx : x = b
      · subst hx
        rw [update_self, update_self, UInt32.ofNat_add]
        rfl
      · rw [update_of_ne hx, update_of_ne hx]
    rw [Alloc.balloc, show Alloc.ballocScan sb s.alloc.blocks s.alloc.hint = some b from hs]
    simp only [Alloc.brefInc, if_neg (Nat.not_le.2 hb),
      if_neg (show ¬ b ≥ FSSIZE from Nat.not_le.2 hb)]
    exact congrArg (fun r => Except.ok (b, Alloc.AllocState.mk _ r _)) href

theorem FsState.allocated_keeps (s : FsState) (hb : b < sb.size) : Keeps {b} s (s.allocated b) where
  blocks x hm hx := by
    have h1 : x ≠ b := hx
    have h2 : x ≠ BBLOCK b := fun e => hm (e ▸ isMap_BBLOCK hb)
    simp only [allocated, update_of_ne h1, update_of_ne h2]
  inode := rfl
  valid := rfl
  iref := rfl

theorem FsState.bitOf_allocated (s : FsState) (hb : DataBlock b) (hx : x < sb.size) :
    bitOf (s.allocated b).blocks x = (decide (x = b) || bitOf s.blocks x) := by
  have hne : BBLOCK x ≠ b := fun e => hb.not_isMap (e ▸ isMap_BBLOCK hx)
  simp only [allocated, bitOf_update_ne _ _ hne, bitOf_setBit]

def FsState.freed (s : FsState) (b : Nat) : FsState :=
  { s with
    blocks := update s.blocks (BBLOCK b) (clearBit (s.blocks (BBLOCK b)) (b % BPB))
    ref := update s.ref b (s.ref b - 1)
    logged := BBLOCK b :: s.logged }

def FsState.unshared (s : FsState) (b : Nat) : FsState :=
  { s with ref := update s.ref b (s.ref b - 1) }

theorem wp_bfree (hb : b < sb.size) (hr : 1 ≤ s.ref b)
    (hbit : bitOf s.blocks b = true) (h1 : s.ref b = 1 → Q () (s.freed b))
    (h2 : 1 < s.ref b → Q () (s.unshared b)) : wp E (bfree b) s Q := by
  simp only [bfree, brefDec, wp_bind, wp_ite, if_neg (Nat.not_le.2 hb), wp_get,
    if_neg (Nat.not_lt.2 hr), wp_set, wp_pure, wp_bread, wp_bstore, wp_logWrite]
  by_cases h : s.ref b = 1
  · rw [if_neg (by omega), if_neg]
    · exact h1 h
    · intro hf
      rw [bitOf, hf] at hbit
      cases hbit
  · rw [if_pos (by omega)]
    exact h2 (by omega)

theorem FsState.ref_freed (s : FsState) (b x : Nat) :
    (s.freed b).ref x = if x = b then s.ref b - 1 else s.ref x := update_apply ..

section
variable (h : Acct s O own)
include h

theorem Acct.congr (hm : ∀ x, IsMap x → s'.blocks x = s.blocks x)
    (hr : s'.ref = s.ref) : Acct s' O own := by
  have hbit (b : Nat) (hb : b < sb.size) : bitOf s'.blocks b = bitOf s.blocks b := by
    rw [bitOf, hm _ (isMap_BBLOCK hb), bitOf]
  refine ⟨fun b hb => ?_, h.mem, fun b => hr ▸ h.ref_eq b, fun b hb => ?_, fun b hb => ?_⟩
  · rw [hbit b (hb.trans (by decide))]
    exact h.reserved b hb
  · rw [hbit b (h.mem b hb).2]
    exact h.bit_of_mem b hb
  · rw [hbit b hb.2]
    exact h.mem_of_bit b hb

theorem Acct.perm (he : O + own = O' + own') : Acct s O' own' :=
  ⟨h.reserved, he ▸ h.mem, he ▸ h.ref_eq, he ▸ h.bit_of_mem, he ▸ h.mem_of_bit⟩

theorem Acct.mem_cons (hd : DataBlock b) (hx : x ∈ O + b ::ₘ own) : DataBlock x := by
  rw [Multiset.add_cons, Multiset.mem_cons] at hx
  rcases hx with rfl | hx
  · exact hd
  · exact h.mem x hx

theorem Acct.ref_cons (b x : Nat) :
    update s.ref b (s.ref b + 1) x = (O + b ::ₘ own).count x := by
  rw [Multiset.add_cons]
  by_cases hxb : x = b
  · subst hxb
    rw [Multiset.count_cons_self, ← h.ref_eq x]
    exact update_self ..
  · rw [Multiset.count_cons_of_ne hxb, ← h.ref_eq x]
    exact update_of_ne hxb ..

theorem Acct.allocated (hb : DataBlock b) : Acct (s.allocated b) O (b ::ₘ own) := by
  have he : O + b ::ₘ own = b ::ₘ (O + own) := Multiset.add_cons b O own
  refine ⟨fun x hx => ?_, fun x => h.mem_cons hb, h.ref_cons b, fun x hx => ?_, fun x hx hxb => ?_⟩
  · rw [s.bitOf_allocated hb (hx.trans (by decide)), h.reserved x hx, Bool.or_true]
  · rw [he, Multiset.mem_cons] at hx
    rcases hx with rfl | hx
    · rw [s.bitOf_allocated hb hb.2, decide_eq_true rfl, Bool.true_or]
    · rw [s.bitOf_allocated hb (h.mem x hx).2, h.bit_of_mem x hx, Bool.or_true]
  · rw [he, Multiset.mem_cons]
    rw [s.bitOf_allocated hb hx.2, Bool.or_eq_true, decide_eq_true_eq] at hxb
    rcases hxb with rfl | hxb
    · exact .inl rfl
    · exact .inr (h.mem_of_bit x hx hxb)

theorem balloc_spec : wp OutOfBlocks balloc s fun b s' =>
    Acct s' O (b ::ₘ own) ∧ DataBlock b ∧ b ∉ O + own ∧ s'.blocks b = zeroBytes ∧
      Keeps {b} s s' ∧ s'.logged = b :: BBLOCK b :: s.logged := by
  apply wp_balloc fun _ => (show OutOfBlocks .outOfBlocks from rfl)
  intro b _ hb hbit
  have hge : nmeta ≤ b := by
    by_contra hlt
    have := h.reserved b (Nat.not_le.1 hlt)
    rw [hbit] at this
    cases this
  have hd : DataBlock b := ⟨hge, hb⟩
  refine ⟨h.allocated hd, hd, fun hm => ?_, update_self .., s.allocated_keeps hb, rfl⟩
  have := h.bit_of_mem b hm
  rw [hbit] at this
  cases this

theorem brefInc_spec (hb : b ∈ O + own) : wp OutOfBlocks (brefInc b) s
    fun _ s' => Acct s' O (b ::ₘ own) ∧ s'.blocks = s.blocks ∧ Keeps ∅ s s' := by
  have hd := h.mem b hb
  have he : O + b ::ₘ own = b ::ₘ (O + own) := Multiset.add_cons b O own
  simp only [brefInc, if_neg (Nat.not_le.2 hd.2), wp_modify, true_and]
  refine ⟨⟨h.reserved, fun x => h.mem_cons hd, h.ref_cons b, fun x hx => ?_, fun x hx hxb => ?_⟩,
    ⟨fun _ _ _ => rfl, rfl, rfl, rfl⟩⟩
  · rw [he, Multiset.mem_cons] at hx
    rcases hx with rfl | hx
    · exact h.bit_of_mem x hb
    · exact h.bit_of_mem x hx
  · rw [he, Multiset.mem_cons]
    exact .inr (h.mem_of_bit x hx hxb)

theorem Acct.ref_erase (hb : b ∈ own) (x : Nat) :
    (if x = b then s.ref b - 1 else s.ref x) = (O + own.erase b).count x := by
  have hc : (O + own).count x = (O + own.erase b).count x + if x = b then 1 else 0 := by
    conv_lhs => rw [← Multiset.cons_erase hb, Multiset.add_cons, Multiset.count_cons]
  split
  · next e =>
    subst e
    rw [h.ref_eq x, hc, if_pos rfl, Nat.add_sub_cancel]
  · next e => rw [h.ref_eq x, hc, if_neg e, Nat.add_zero]

theorem bfree_spec (hb : b ∈ own) : wp E (bfree b) s fun _ s' => Acct s' O (own.erase b) ∧
    Keeps ∅ s s' ∧ ∀ x ∈ s'.logged, x ∈ s.logged ∨ s.ref b = 1 ∧ x = BBLOCK b := by
  have hm : b ∈ O + own := Multiset.mem_add.2 (.inr hb)
  have hd := h.mem b hm
  have hsub : ∀ x ∈ O + own.erase b, x ∈ O + own := fun x hx =>
    Multiset.mem_of_le (Multiset.add_le_add_left (Multiset.erase_le b own)) hx
  have hpos : 1 ≤ s.ref b := by
    rw [h.ref_eq b]
    exact Multiset.count_pos.2 hm
  have hmem (x : Nat) (hne : x ∈ O + own) (hr : x = b → s.ref b ≠ 1) :
      x ∈ O + own.erase b := by
    rw [← Multiset.count_pos, ← h.ref_erase hb x]
    split
    · next e => have := hr e; omega
    · rw [h.ref_eq x]
      exact Multiset.count_pos.2 hne
  apply wp_bfree hd.2 hpos (h.bit_of_mem b hm)
  · intro h1
    have hb0 : b ∉ O + own.erase b := by
      rw [← Multiset.count_eq_zero, ← h.ref_erase hb b, if_pos rfl, h1]
    have hbit (x : Nat) : bitOf (s.freed b).blocks x = (decide (x ≠ b) && bitOf s.blocks x) :=
      bitOf_clearBit _ _ _
    refine ⟨⟨fun x hx => ?_, fun x hx => h.mem x (hsub x hx), fun x => ?_, fun x hx => ?_,
      fun x hx hxb => ?_⟩, ⟨fun x hx _ => ?_, rfl, rfl, rfl⟩, fun x hx => ?_⟩
    · have hne : x ≠ b := by
        have := hd.1
        omega
      rw [hbit, decide_eq_true hne, h.reserved x hx, Bool.and_self]
    · rw [s.ref_freed, h.ref_erase hb x]
    · have hne : x ≠ b := fun e => hb0 (e ▸ hx)
      rw [hbit, decide_eq_true hne, h.bit_of_mem x (hsub x hx), Bool.and_self]
    · rw [hbit, Bool.and_eq_true, decide_eq_true_eq] at hxb
      exact hmem x (h.mem_of_bit x hx hxb.2) (fun e => (hxb.1 e).elim)
    · have hne : x ≠ BBLOCK b := fun e => hx (e ▸ isMap_BBLOCK hd.2)
      exact update_of_ne hne _ _
    · exact (List.mem_cons.1 hx).symm.imp_right fun e => ⟨h1, e⟩
  · intro h2
    refine ⟨⟨h.reserved, fun x hx => h.mem x (hsub x hx), fun x => ?_,
      fun x hx => h.bit_of_mem x (hsub x hx), fun x hx hxb => ?_⟩,
        ⟨fun x hx _ => rfl, rfl, rfl, rfl⟩,
      fun x hx => .inl hx⟩
    · rw [← h.ref_erase hb x]
      exact update_apply ..
    · exact hmem x (h.mem_of_bit x hx hxb) (fun _ => by omega)

end

end OopsOS
