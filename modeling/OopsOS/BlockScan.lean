import OopsOS.Layout
import Mathlib.Order.Bounds.Basic

namespace OopsOS.Alloc
set_option autoImplicit true
open Function

/-- A search in `[lo, hi)` finds the first number with `p`, or there is none. -/
def Finds (p : Nat → Prop) (lo hi : Nat) : Option Nat → Prop
  | some x => lo ≤ x ∧ x < hi ∧ p x ∧ ∀ y, lo ≤ y → y < x → ¬ p y
  | none => ∀ y, lo ≤ y → y < hi → ¬ p y

theorem Finds.empty {p : Nat → Prop} (h : hi ≤ lo) : Finds p lo hi none :=
  fun y h₁ h₂ => by omega

theorem Finds.found {p : Nat → Prop} (h : Finds p lo mid (some x)) (hhi : mid ≤ hi) :
    Finds p lo hi (some x) :=
  ⟨h.1, by have := h.2.1; omega, h.2.2⟩

theorem Finds.after {p : Nat → Prop} (mid : Nat) (h : ∀ y, lo ≤ y → y < mid → ¬ p y)
    (hlo : lo ≤ mid) (h' : Finds p mid hi r) : Finds p lo hi r := by
  have hbefore (y : Nat) (h₁ : lo ≤ y) (h₂ : mid ≤ y → ¬ p y) : ¬ p y := by
    by_cases hy : y < mid
    · exact h y h₁ hy
    · exact h₂ (by omega)
  cases r with
  | none => exact fun y h₁ h₂ => hbefore y h₁ fun hy => h' y hy h₂
  | some x =>
    obtain ⟨h₁, h₂, hp, hfirst⟩ := h'
    exact ⟨by omega, h₂, hp, fun y hy hx => hbefore y hy fun hm => hfirst y hm hx⟩

variable {sb : Superblock} {d : Disk}

def bblock (sb : Superblock) (b : Nat) : Nat := b / BPB + sb.bmapstart

def bit (sb : Superblock) (d : Disk) (b : Nat) : Bool := getBit (d (bblock sb b)) (b % BPB)

def scanBits (sb : Superblock) (bp : Bytes) (b bi : Nat) : Nat → Option Nat
  | 0 => none
  | n + 1 =>
    if b + bi < sb.size then
      if getBit bp bi = false then some (b + bi) else scanBits sb bp b (bi + 1) n
    else none

def scanUp (sb : Superblock) (d : Disk) (start b : Nat) : Nat → Option Nat
  | 0 => none
  | n + 1 =>
    if b < sb.size then
      let lo := if b = start - start % BPB then start - b else 0
      match scanBits sb (d (bblock sb b)) b lo (BPB - lo) with
      | some x => some x
      | none => scanUp sb d start (b + BPB) n
    else none

def scanWrap (sb : Superblock) (d : Disk) (start b : Nat) : Nat → Option Nat
  | 0 => none
  | n + 1 =>
    if b < start then
      let hi := if b + BPB > start then start - b else BPB
      match scanBits sb (d (bblock sb b)) b 0 hi with
      | some x => some x
      | none => scanWrap sb d start (b + BPB) n
    else none

/-- The two passes of `balloc`; no pass has more rounds than the map has blocks. -/
def ballocScan (sb : Superblock) (d : Disk) (hint : Nat) : Option Nat :=
  let start := if hint ≥ sb.size then 0 else hint
  match scanUp sb d start (start - start % BPB) (sb.size / BPB + 1) with
  | some b => some b
  | none => if start ≠ 0 then scanWrap sb d start 0 (sb.size / BPB + 1) else none

theorem bit_add (sb : Superblock) (d : Disk) (hb : b % BPB = 0) (hk : k < BPB) :
    bit sb d (b + k) = getBit (d (bblock sb b)) k := by
  change b % 8192 = 0 at hb
  change k < 8192 at hk
  have hblock : bblock sb (b + k) = bblock sb b := by
    change (b + k) / 8192 + _ = b / 8192 + _
    omega
  have hmod : (b + k) % BPB = k := by
    change (b + k) % 8192 = k
    omega
  rw [bit, hblock, hmod]

theorem scanBits_finds (sb : Superblock) (d : Disk) (bi n : Nat) (hb : b % BPB = 0)
    (hn : bi + n ≤ BPB) : Finds (fun x => bit sb d x = false) (b + bi) (min (b + bi + n) sb.size)
      (scanBits sb (d (bblock sb b)) b bi n) := by
  induction n generalizing bi with
  | zero => exact .empty (by omega)
  | succ n ih =>
    have hbit := bit_add sb d hb (k := bi) (by omega)
    simp only [scanBits]
    split
    · next hlt =>
      split
      · next hfree => exact ⟨Nat.le_refl _, by omega, hbit.trans hfree, fun y _ _ => by omega⟩
      · next hused =>
        have hrest := ih (bi + 1) (by omega)
        rw [show b + (bi + 1) + n = b + bi + (n + 1) by omega] at hrest
        refine Finds.after (b + (bi + 1)) (fun y h₁ h₂ => ?_) (by omega) hrest
        rw [show y = b + bi by omega, hbit]
        exact hused
    · exact .empty (by omega)

theorem scanUp_finds (sb : Superblock) (d : Disk) (start n : Nat) (hb : b % BPB = 0)
    (hstart : start - start % BPB ≤ b) (hn : sb.size ≤ b + n * BPB) :
    Finds (fun x => bit sb d x = false) (max start b) sb.size (scanUp sb d start b n) := by
  induction n generalizing b with
  | zero => exact .empty (by omega)
  | succ n ih =>
    change start - start % 8192 ≤ b at hstart
    change b % 8192 = 0 at hb
    change sb.size ≤ b + (n + 1) * 8192 at hn
    have hlo : b + (if b = start - start % 8192 then start - b else 0) = max start b ∧
        (if b = start - start % 8192 then start - b else 0) ≤ 8192 := by
      split <;> omega
    simp only [scanUp]
    split
    · generalize (if b = start - start % BPB then start - b else 0) = lo at hlo ⊢
      have hscan := scanBits_finds sb d lo (BPB - lo) hb
        (by change lo + (8192 - lo) ≤ 8192; omega)
      rw [hlo.1] at hscan
      split
      · next hs =>
        rw [hs] at hscan
        exact hscan.found (Nat.min_le_right ..)
      · next hs =>
        rw [hs] at hscan
        have hrest := ih (b := b + BPB) (by change (b + 8192) % 8192 = 0; omega)
          (by change start - start % 8192 ≤ b + 8192; omega)
          (by change sb.size ≤ b + 8192 + n * 8192; omega)
        have hmax : max start (b + BPB) = b + BPB := by
          change max start (b + 8192) = b + 8192
          omega
        rw [hmax] at hrest
        by_cases hend : b + BPB ≤ sb.size
        · refine Finds.after (b + BPB) (fun y h₁ h₂ => hscan y h₁ ?_) ?_ hrest
          · change y < b + 8192 at h₂
            change b + 8192 ≤ _ at hend
            change y < min (max start b + (8192 - lo)) sb.size
            omega
          · change max start b ≤ b + 8192
            omega
        · change ¬ b + 8192 ≤ _ at hend
          change Finds _ (b + 8192) _ _ at hrest
          cases hr : scanUp sb d start (b + BPB) n with
          | none =>
            refine fun y h₁ h₂ => hscan y h₁ ?_
            change y < min (max start b + (8192 - lo)) sb.size
            omega
          | some x =>
            rw [hr] at hrest
            have h₁ := hrest.1
            have h₂ := hrest.2.1
            omega
    · exact .empty (by omega)

theorem scanWrap_finds (d : Disk) (b n : Nat) (hb : b % BPB = 0) (hstart : start ≤ sb.size)
    (hn : start ≤ b + n * BPB) :
    Finds (fun x => bit sb d x = false) b start (scanWrap sb d start b n) := by
  induction n generalizing b with
  | zero => exact .empty (by omega)
  | succ n ih =>
    change b % 8192 = 0 at hb
    change start ≤ b + (n + 1) * 8192 at hn
    have hhi : b + (if b + 8192 > start then start - b else 8192) = max b
      (min (b + 8192) start) := by
      split <;> omega
    simp only [scanWrap]
    split
    · generalize (if b + BPB > start then start - b else BPB) = hi at hhi ⊢
      have hscan := scanBits_finds sb d 0 hi hb
        (by change 0 + hi ≤ 8192; omega)
      rw [Nat.add_zero, show min (b + hi) sb.size = min (b + 8192) start by omega] at hscan
      split
      · next hs =>
        rw [hs] at hscan
        exact hscan.found (Nat.min_le_right ..)
      · next hs =>
        rw [hs] at hscan
        have hrest := ih (b + BPB) (by change (b + 8192) % 8192 = 0; omega)
          (by change start ≤ b + 8192 + n * 8192; omega)
        by_cases hend : b + 8192 ≤ start
        · refine Finds.after (b + BPB) (fun y h₁ h₂ => hscan y h₁ ?_) (by omega) hrest
          change y < b + 8192 at h₂
          omega
        · change Finds _ (b + 8192) _ _ at hrest
          cases hr : scanWrap sb d start (b + BPB) n with
          | none => exact fun y h₁ h₂ => hscan y h₁ (by omega)
          | some x =>
            rw [hr] at hrest
            have h₁ := hrest.1
            have h₂ := hrest.2.1
            omega
    · exact .empty (by omega)

def free (sb : Superblock) (d : Disk) : Set Nat := {b | b < sb.size ∧ bit sb d b = false}

/-- `b` is the first free block from the hint on, or the lowest one if there is none. -/
def Chosen (sb : Superblock) (d : Disk) (hint b : Nat) : Prop :=
  IsLeast {x ∈ free sb d | hint ≤ x} b ∨
    (∀ x ∈ free sb d, x < hint) ∧ IsLeast (free sb d) b

theorem ballocScan_finds (sb : Superblock) (d : Disk) (hint : Nat) :
    match ballocScan sb d hint with
    | some b => b ∈ free sb d ∧ Chosen sb d hint b
    | none => free sb d = ∅ := by
  simp only [ballocScan]
  have hcover : sb.size ≤ (sb.size / BPB + 1) * BPB := by
    change sb.size ≤ (sb.size / 8192 + 1) * 8192
    omega
  generalize hs : (if hint ≥ sb.size then 0 else hint) = start
  have hb0 : start - start % BPB ≤ start := Nat.sub_le ..
  have hmod : (start - start % BPB) % BPB = 0 := by
    change (start - start % 8192) % 8192 = 0
    omega
  have hup := scanUp_finds sb d start (sb.size / BPB + 1) hmod
    (Nat.le_refl _) (Nat.le_trans hcover (Nat.le_add_left ..))
  rw [Nat.max_eq_left hb0] at hup
  cases hr : scanUp sb d start (start - start % BPB) (sb.size / BPB + 1) with
  | some b =>
    rw [hr] at hup
    obtain ⟨h₁, h₂, hfree, hfirst⟩ := hup
    refine ⟨⟨h₂, hfree⟩, ?_⟩
    split at hs
    · next hbig =>
      subst hs
      refine .inr ⟨fun x hx => Nat.lt_of_lt_of_le hx.1 hbig, ⟨h₂, hfree⟩, fun x hx => ?_⟩
      by_contra hlt
      exact hfirst x (Nat.zero_le _) (by omega) hx.2
    · subst hs
      refine .inl ⟨⟨⟨h₂, hfree⟩, h₁⟩, fun x hx => ?_⟩
      by_contra hlt
      exact hfirst x hx.2 (by omega) hx.1.2
  | none =>
    rw [hr] at hup
    simp only
    by_cases hne : start ≠ 0
    · rw [if_pos hne]
      have hle : start ≤ sb.size := by
        split at hs <;> omega
      have hwrap := scanWrap_finds d 0 (sb.size / BPB + 1) (Nat.zero_mod _) hle (by omega)
      have hhint : hint = start := by
        split at hs <;> omega
      subst hhint
      cases hw : scanWrap sb d hint 0 (sb.size / BPB + 1) with
      | some b =>
        rw [hw] at hwrap
        obtain ⟨-, h₂, hfree, hfirst⟩ := hwrap
        have hmem : b ∈ free sb d := ⟨by omega, hfree⟩
        refine ⟨hmem, .inr ⟨fun x hx => ?_, hmem, fun x hx => ?_⟩⟩
        · by_contra hlt
          exact hup x (by omega) hx.1 hx.2
        · by_contra hlt
          exact hfirst x (Nat.zero_le _) (by omega) hx.2
      | none =>
        rw [hw] at hwrap
        ext x
        refine iff_of_false (fun hx => ?_) id
        by_cases hlt : x < hint
        · exact hwrap x (Nat.zero_le _) hlt hx.2
        · exact hup x (by omega) hx.1 hx.2
    · rw [if_neg hne]
      ext x
      exact iff_of_false (fun hx => hup x (by omega) hx.1 hx.2) id

/-- What the allocators work on: the blocks in the buffer cache, the reference counts and the hint.
-/
structure AllocState where
  blocks : Disk
  ref : Nat → UInt32
  hint : Nat

/-- How a call can end badly; `overrun` is a write behind the end of `brefs.ref`. -/
inductive Stop where
  | outOfBlocks
  | brefInc
  | overrun
deriving DecidableEq

def brefInc (sb : Superblock) (s : AllocState) (b : Nat) : Except Stop AllocState :=
  if b ≥ sb.size then .error .brefInc
  else if b ≥ FSSIZE then .error .overrun
  else .ok { s with ref := update s.ref b (s.ref b + 1) }

def balloc (sb : Superblock) (s : AllocState) : Except Stop (Nat × AllocState) :=
  match ballocScan sb s.blocks s.hint with
  | none => .error .outOfBlocks
  | some b => do
    let marked := update s.blocks (bblock sb b) (setBit (s.blocks (bblock sb b)) (b % BPB))
    let s ← brefInc sb { s with blocks := update marked b zeroBytes } b
    return (b, { s with hint := b + 1 })

def MetaMarked (sb : Superblock) (d : Disk) : Prop :=
  ∀ b < sb.size - sb.nblocks, bit sb d b = true

def MapMarked (sb : Superblock) (d : Disk) : Prop :=
  ∀ x < sb.size, bblock sb x < sb.size → bit sb d (bblock sb x) = true

structure Allocated (sb : Superblock) (s s' : AllocState) (b : Nat) : Prop where
  mem_free : b ∈ free sb s.blocks
  chosen : Chosen sb s.blocks s.hint b
  zeroed : s'.blocks b = zeroBytes
  marked : ∀ i, getBit (s'.blocks (bblock sb b)) i =
    (decide (i = b % BPB) || getBit (s.blocks (bblock sb b)) i)
  others : ∀ x, x ≠ b → x ≠ bblock sb b → s'.blocks x = s.blocks x
  bits : ∀ x < sb.size, bit sb s'.blocks x = (decide (x = b) || bit sb s.blocks x)

variable {s : AllocState}

theorem balloc_cases (hsize : sb.size ≤ FSSIZE) (hmap : MapMarked sb s.blocks) :
    (∃ b s', balloc sb s = .ok (b, s') ∧ Allocated sb s s' b) ∨
      (balloc sb s = .error .outOfBlocks ∧ free sb s.blocks = ∅) := by
  have hscan := ballocScan_finds sb s.blocks s.hint
  unfold balloc
  cases hr : ballocScan sb s.blocks s.hint with
  | none =>
    rw [hr] at hscan
    exact .inr ⟨rfl, hscan⟩
  | some b =>
    rw [hr] at hscan
    obtain ⟨hfree, hchosen⟩ := hscan
    -- The block is free, so it is none of the bit map, and zeroing it leaves the map alone.
    have hne (x : Nat) (hx : x < sb.size) : bblock sb x ≠ b := by
      intro e
      have hused := hmap x hx (e ▸ hfree.1)
      rw [e, hfree.2] at hused
      cases hused
    have hblocks (x : Nat) (hx : x < sb.size) (d : Disk) :
        update d b zeroBytes (bblock sb x) = d (bblock sb x) := update_of_ne (hne x hx) ..
    have hlt : ¬ b ≥ sb.size := Nat.not_le.2 hfree.1
    have hlt' : ¬ b ≥ FSSIZE := Nat.not_le.2 (Nat.lt_of_lt_of_le hfree.1 hsize)
    refine .inl ⟨b, _, by simp only [brefInc, if_neg hlt, if_neg hlt']; rfl, hfree, hchosen, ?_, ?_,
      ?_, ?_⟩
    · exact update_self ..
    · intro i
      dsimp only
      rw [hblocks b hfree.1, update_self, getBit_setBit]
    · intro x hx hx'
      exact (update_of_ne hx ..).trans (update_of_ne hx' ..)
    · intro x hx
      dsimp only
      rw [bit, hblocks x hx]
      by_cases h : bblock sb x = bblock sb b
      · have he : x % BPB = b % BPB ↔ x = b := by
          change x / 8192 + _ = b / 8192 + _ at h
          change x % 8192 = b % 8192 ↔ _
          omega
        rw [h, update_self, getBit_setBit, decide_eq_decide.2 he, bit, h]
      · have hxb : x ≠ b := fun e => h (by rw [e])
        rw [update_of_ne h, decide_eq_false hxb, Bool.false_or, bit]

/-- `balloc` takes the first free block from the hint on, or else the lowest one, and stops only if
there is none. -/
theorem balloc_complete (hsize : sb.size ≤ FSSIZE) (hmap : MapMarked sb s.blocks) :
    (∀ b s', balloc sb s = .ok (b, s') → Allocated sb s s' b) ∧
      ∀ e, balloc sb s = .error e →
        e = .outOfBlocks ∧ ∀ b < sb.size, bit sb s.blocks b = true := by
  obtain ⟨b, s', heq, halloc⟩ | ⟨heq, hfull⟩ := balloc_cases hsize hmap <;> rw [heq]
  · refine ⟨fun b₁ s₁ he => ?_, fun e => nofun⟩
    cases he
    exact halloc
  · refine ⟨fun b₁ s₁ => nofun, fun e he => ?_⟩
    cases he
    refine ⟨rfl, fun b hb => ?_⟩
    by_contra hbit
    exact Set.eq_empty_iff_forall_notMem.1 hfull b ⟨hb, Bool.eq_false_of_not_eq_true hbit⟩

def smallSb : Superblock where
  size := 10
  nblocks := 6
  ninodes := 2
  nlog := 0
  logstart := 2
  inodestart := 2
  bmapstart := 3

def smallState (hint : Nat) : AllocState :=
  ⟨fun b o => if b = 3 ∧ o = 0 then 31 else 0, fun _ => 0, hint⟩

theorem smallState_marked (hint : Nat) : MapMarked smallSb (smallState hint).blocks := by
  intro x hx _
  have hblock : bblock smallSb x = 3 := by
    change x < 10 at hx
    change x / 8192 + 3 = 3
    omega
  have hbit : bit smallSb (smallState 0).blocks 3 = true := by decide +kernel
  rw [hblock]
  exact hbit

theorem balloc_complete_small : (∃ b s', balloc smallSb (smallState 9) = .ok (b, s') ∧
      Allocated smallSb (smallState 9) s' b) ∧
    (∃ b s', balloc smallSb (smallState 20) = .ok (b, s') ∧
      Allocated smallSb (smallState 20) s' b) := by
  have hok (hint : Nat) : (balloc smallSb (smallState hint)).isOk = true → ∃ b s',
      balloc smallSb (smallState hint) = .ok (b, s') ∧ Allocated smallSb
        (smallState hint) s' b := by
    intro h
    cases hr : balloc smallSb (smallState hint) with
    | error e =>
      rw [hr] at h
      cases h
    | ok r => exact ⟨r.1, r.2, rfl, (balloc_complete (by decide) (smallState_marked hint)).1 _ _ hr⟩
  exact ⟨hok 9 (by decide +kernel), hok 20 (by decide +kernel)⟩

/-- The only free block is that of the bit map; zeroing it clears all bits. -/
theorem balloc_wipes_map : ∃ s s' b, balloc smallSb s = .ok (b, s') ∧
    (∀ x < smallSb.size, x ≠ b → bit smallSb s.blocks x = true) ∧
    ∀ x < smallSb.size, bit smallSb s'.blocks x = false := by
  let s : AllocState := ⟨fun b o => if b = 3 then if o = 0 then 247 else 255 else 0, fun _ => 0, 0⟩
  cases hr : balloc smallSb s with
  | error e =>
    have hok : (balloc smallSb s).isOk = true := by decide +kernel
    rw [hr] at hok
    cases hok
  | ok r =>
    have hall : ((balloc smallSb s).toOption.any fun r => r.1 = 3 ∧
        (∀ x < 10, x ≠ 3 → bit smallSb s.blocks x = true) ∧
        ∀ x < 10, bit smallSb r.2.blocks x = false) = true := by decide +kernel
    rw [hr] at hall
    obtain ⟨hb, hbefore, hafter⟩ := of_decide_eq_true hall
    exact ⟨s, r.2, r.1, hr, hb ▸ hbefore, hafter⟩

end OopsOS.Alloc
