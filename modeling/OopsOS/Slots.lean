import OopsOS.Family
import OopsOS.Inodes
import Mathlib.Data.Finset.Prod
import Mathlib.Data.Finset.Image
import Mathlib.Data.Finset.Range
import Mathlib.Algebra.BigOperators.Group.Finset.Sigma

namespace OopsOS
set_option autoImplicit true
open Function

/-- The places of a file that can hold a block pointer. -/
inductive Slot where
  | direct (i : Nat)
  | single
  | sentry (j : Nat)
  | double
  | second (i : Nat)
  | dentry (i j : Nat)
  deriving DecidableEq

namespace Slot

def Ok : Slot → Prop
  | direct i => i < NDIRECT
  | single => True
  | sentry j => j < NINDIRECT
  | double => True
  | second i => i < NADDR_PER_BLOCK
  | dentry i j => i < NADDR_PER_BLOCK ∧ j < NADDR_PER_BLOCK

def index : Slot → Bool
  | single | double | second _ => true
  | _ => false

def parent : Slot → Option Slot
  | sentry _ => some single
  | second _ => some double
  | dentry i _ => some (second i)
  | _ => none

def pos : Slot → Nat
  | direct i => i
  | single => NDIRECT
  | sentry j => j
  | double => NDIRECT + 1
  | second i => i
  | dentry _ j => j

def loc (v : Slot → Nat) (k : Slot) : Loc :=
  match k.parent with
  | none => .addr k.pos
  | some p => .entry (v p) k.pos

instance : DecidablePred Ok := fun k => by
  cases k <;> unfold Ok <;> infer_instance

theorem parent_index (h : parent k = some p) : p.index = true := by
  cases k <;> cases h <;> rfl

theorem Ok.pos_lt (hk : Ok k) (h : Slot.parent k = some p) : k.pos < NADDR_PER_BLOCK := by
  cases k with
  | direct i => cases h
  | single => cases h
  | sentry j => exact hk
  | double => cases h
  | second i => exact hk
  | dentry i j => exact hk.2

theorem Ok.pos_lt_addrs (hk : Ok k) (h : Slot.parent k = none) : k.pos < NDIRECT + 2 := by
  cases k with
  | direct i => exact Nat.lt_add_right 2 hk
  | single => exact Nat.lt_add_of_pos_right Nat.two_pos
  | sentry j => cases h
  | double => exact Nat.lt_succ_self _
  | second i => cases h
  | dentry i j => cases h

theorem eq_of_pos_root (hk : Ok k) (hk' : Ok k') (h : Slot.parent k = none)
    (h' : Slot.parent k' = none) (hp : k.pos = k'.pos) : k = k' := by
  cases k <;> cases h <;> cases k' <;> cases h' <;> simp only [pos, Ok, NDIRECT] at * <;>
    first | rfl | exact congrArg direct hp | omega

theorem eq_of_pos (h : parent k = some p) (h' : parent k' = some p) (hp : k.pos = k'.pos) :
    k = k' := by
  cases k <;> cases h <;> cases k' <;> cases h' <;> cases hp <;> rfl

theorem induct {P : Slot → Prop} (root : ∀ k, parent k = none → P k)
    (child : ∀ k p, parent k = some p → P p → P k) (k : Slot) : P k := by
  have hsecond (i : Nat) : P (second i) := child _ _ rfl (root double rfl)
  cases k with
  | direct i => exact root _ rfl
  | single => exact root _ rfl
  | sentry j => exact child _ _ rfl (root single rfl)
  | double => exact root _ rfl
  | second i => exact hsecond i
  | dentry i j => exact child _ _ rfl (hsecond i)

def child : Slot → Nat → Slot
  | single, j => sentry j
  | double, j => second j
  | second i, j => dentry i j
  | k, _ => k

theorem parent_child (h : index k = true) (j : Nat) : (k.child j).parent = some k := by
  cases k <;> cases h <;> rfl

theorem pos_child (h : index k = true) (j : Nat) : (k.child j).pos = j := by
  cases k <;> cases h <;> rfl

theorem eq_child (h : parent c = some k) : c = k.child c.pos := by
  cases c <;> cases h <;> rfl

def path : Slot → List Slot
  | sentry j => [sentry j, single]
  | second i => [second i, double]
  | dentry i j => [dentry i j, second i, double]
  | k => [k]

theorem path_root (h : parent k = none) : k.path = [k] := by
  cases k <;> cases h <;> rfl

theorem path_child (h : parent k = some p) : k.path = k :: p.path := by
  cases k <;> cases h <;> rfl

theorem mem_path (k : Slot) : k ∈ k.path := by
  cases k <;> exact List.mem_cons_self

theorem not_mem_path_parent (h : parent k = some p) : k ∉ p.path := by
  cases k <;> cases h <;> simp [path]

theorem second_mem_path : second i ∈ k.path ↔ k = second i ∨ ∃ j, k = dentry i j := by
  cases k <;> simp [path, eq_comm]

theorem index_of_mem_path (h : k ∈ path k') (hne : k ≠ k') : index k = true := by
  cases k' <;> simp [path] at h <;> grind [index]

theorem leaf_mem_path (h : index k = false) : k ∈ path k' ↔ k' = k := by
  refine ⟨fun hk => ?_, fun e => e ▸ k'.mem_path⟩
  by_contra hne
  rw [index_of_mem_path hk (Ne.symm hne)] at h
  cases h

end Slot

def slots : Finset Slot :=
  (Finset.range NDIRECT).image .direct ∪ {.single, .double} ∪
    (Finset.range NINDIRECT).image .sentry ∪ (Finset.range NADDR_PER_BLOCK).image .second ∪
    (Finset.range NADDR_PER_BLOCK ×ˢ Finset.range NADDR_PER_BLOCK).image fun p => .dentry p.1 p.2

theorem mem_slots : k ∈ slots ↔ k.Ok := by
  cases k with
  | direct i => simp [slots, Slot.Ok]
  | single => simp [slots, Slot.Ok]
  | sentry j => simp [slots, Slot.Ok]
  | double => simp [slots, Slot.Ok]
  | second i => simp [slots, Slot.Ok]
  | dentry i j => simp [slots, Slot.Ok]

theorem sum_slots {α : Type} [AddCommMonoid α] (f : Slot → α) : ∑ k ∈ slots, f k =
    ∑ i ∈ Finset.range NDIRECT, f (.direct i) +
      (f .single + ∑ j ∈ Finset.range NINDIRECT, f (.sentry j)) +
      (f .double + ∑ i ∈ Finset.range NADDR_PER_BLOCK,
        (f (.second i) + ∑ j ∈ Finset.range NADDR_PER_BLOCK, f (.dentry i j))) := by
  unfold slots
  generalize NDIRECT = a, NINDIRECT = b, NADDR_PER_BLOCK = c
  rw [Finset.sum_union, Finset.sum_union, Finset.sum_union, Finset.sum_union, Finset.sum_image,
    Finset.sum_image, Finset.sum_image, Finset.sum_image, Finset.sum_product, Finset.sum_pair,
    Finset.sum_add_distrib]
  · abel
  · exact Slot.noConfusion
  · intro p _ q _ e
    obtain ⟨h1, h2⟩ := Slot.dentry.inj e
    exact Prod.ext h1 h2
  · exact fun i _ i' _ e => Slot.second.inj e
  · exact fun i _ i' _ e => Slot.sentry.inj e
  · exact fun i _ i' _ e => Slot.direct.inj e
  all_goals
    rw [Finset.disjoint_left]
    intro k hk hk'
    cases k <;> simp at hk hk'

attribute [irreducible] slots

def entryAt (d : Disk) (x j : Nat) : Nat :=
  if x = 0 ∨ NADDR_PER_BLOCK ≤ j then 0 else getWord (d x) j

theorem entryAt_zero (d : Disk) (j : Nat) : entryAt d 0 j = 0 := if_pos (.inl rfl)

theorem entryAt_of_ne (d : Disk) (hx : x ≠ 0) (hj : j < NADDR_PER_BLOCK) :
    entryAt d x j = getWord (d x) j :=
  if_neg (not_or.2 ⟨hx, Nat.not_le.2 hj⟩)

theorem entryAt_congr (h : d' x = d x) : entryAt d' x j = entryAt d x j := by
  rw [entryAt, entryAt, h]

def ptr (d : Disk) (ip : Inode) : Slot → Nat
  | .direct i => if i < NDIRECT then ip.addr i else 0
  | .single => ip.addr NDIRECT
  | .sentry j => entryAt d (ip.addr NDIRECT) j
  | .double => ip.addr (NDIRECT + 1)
  | .second i => entryAt d (ip.addr (NDIRECT + 1)) i
  | .dentry i j => entryAt d (entryAt d (ip.addr (NDIRECT + 1)) i) j

theorem ptr_root (d : Disk) (ip : Inode) (hk : k.Ok) (h : k.parent = none) :
    ptr d ip k = ip.addr k.pos := by
  cases k with
  | direct i => exact if_pos hk
  | single => rfl
  | sentry j => cases h
  | double => rfl
  | second i => cases h
  | dentry i j => cases h

theorem ptr_child (d : Disk) (ip : Inode) (h : k.parent = some p) :
    ptr d ip k = entryAt d (ptr d ip p) k.pos := by
  cases k <;> cases h <;> rfl

theorem ptr_not_ok (d : Disk) (ip : Inode) (hk : ¬ k.Ok) : ptr d ip k = 0 := by
  cases k with
  | direct i => exact if_neg hk
  | single => exact (hk trivial).elim
  | sentry j => exact if_pos (.inr (Nat.not_lt.1 hk))
  | double => exact (hk trivial).elim
  | second i => exact if_pos (.inr (Nat.not_lt.1 hk))
  | dentry i j =>
    rcases Nat.lt_or_ge i NADDR_PER_BLOCK with hi | hi
    · exact if_pos (.inr (Nat.not_lt.1 fun hj => hk ⟨hi, hj⟩))
    · have h0 : entryAt d (ip.addr (NDIRECT + 1)) i = 0 := if_pos (.inr hi)
      rw [ptr, h0, entryAt_zero]

theorem Slot.ok_of_ptr (h : ptr d ip k ≠ 0) : k.Ok := by
  by_contra hk
  exact h (ptr_not_ok d ip hk)

theorem ptr_parent_ne_zero (h : k.parent = some p) (hk : ptr d ip k ≠ 0) : ptr d ip p ≠ 0 := by
  intro hp
  rw [ptr_child d ip h, hp] at hk
  exact hk (entryAt_zero d _)

theorem ptr_congr (ha : ip'.addrs = ip.addrs)
    (hd : ∀ k, k.index = true → ptr d ip k ≠ 0 → d' (ptr d ip k) = d (ptr d ip k)) :
    ptr d' ip' = ptr d ip := by
  funext k
  have haddr (i : Nat) : ip'.addr i = ip.addr i := by rw [Inode.addr, Inode.addr, ha]
  induction k using Slot.induct with
  | root k h =>
    by_cases hk : k.Ok
    · rw [ptr_root _ _ hk h, ptr_root _ _ hk h, haddr]
    · rw [ptr_not_ok _ _ hk, ptr_not_ok _ _ hk]
  | child k p h ih =>
    rw [ptr_child _ _ h, ptr_child _ _ h, ih]
    by_cases hp : ptr d ip p = 0
    · rw [hp, entryAt_zero, entryAt_zero]
    · exact entryAt_congr (hd p (Slot.parent_index h) hp)

theorem ptr_under_zero (h : ptr d ip k = 0) (hk : k ∈ k'.path) : ptr d ip k' = 0 := by
  induction k' using Slot.induct with
  | root k' hr =>
    rw [Slot.path_root hr, List.mem_singleton] at hk
    rw [← hk, h]
  | child k' p hc ih =>
    rw [Slot.path_child hc, List.mem_cons] at hk
    rcases hk with rfl | hk
    · exact h
    · rw [ptr_child d ip hc, ih hk, entryAt_zero]

theorem ptr_below_zero (h : ∀ c, c.Ok → c.parent = some k → ptr d ip c = 0) (hk : k ∈ k'.path)
    (hne : k' ≠ k) : ptr d ip k' = 0 := by
  induction k' using Slot.induct with
  | root k' hr =>
    rw [Slot.path_root hr, List.mem_singleton] at hk
    exact (hne hk.symm).elim
  | child k' p hc ih =>
    rw [Slot.path_child hc, List.mem_cons] at hk
    rcases hk with rfl | hk
    · exact (hne rfl).elim
    · by_cases hp : p = k
      · by_cases hok : k'.Ok
        · exact h k' hok (hp ▸ hc)
        · exact ptr_not_ok d ip hok
      · rw [ptr_child d ip hc, ih hk hp, entryAt_zero]

section Store

variable {d d' : Disk} {ip ip' : Inode}
  (hroot : ∀ k', k'.Ok → k'.parent = none →
    ip'.addr k'.pos = if k' = k then y else ip.addr k'.pos)
  (hentry : ∀ k' p, k'.Ok → k'.parent = some p → k ∉ p.path → ptr d ip p ≠ 0 →
    getWord (d' (ptr d ip p)) k'.pos = if k' = k then y else getWord (d (ptr d ip p)) k'.pos)
include hroot hentry

theorem ptr_store_other (h : k ∉ k'.path) : ptr d' ip' k' = ptr d ip k' := by
  induction k' using Slot.induct with
  | root k' hr =>
    have hne : k' ≠ k := fun e => h (e ▸ k'.mem_path)
    by_cases hk' : k'.Ok
    · rw [ptr_root _ _ hk' hr, ptr_root _ _ hk' hr, hroot k' hk' hr, if_neg hne]
    · rw [ptr_not_ok _ _ hk', ptr_not_ok _ _ hk']
  | child k' p hc ih =>
    rw [Slot.path_child hc, List.mem_cons, not_or] at h
    rw [ptr_child _ _ hc, ih h.2, ptr_child d ip hc]
    by_cases hp : ptr d ip p = 0
    · rw [hp, entryAt_zero, entryAt_zero]
    · by_cases hk' : k'.Ok
      · rw [entryAt_of_ne _ hp (hk'.pos_lt hc), entryAt_of_ne _ hp (hk'.pos_lt hc),
          hentry k' p hk' hc h.2 hp, if_neg (Ne.symm h.1)]
      · rw [← ptr_child d ip hc, ptr_not_ok d ip hk', ← ih h.2, ← ptr_child d' ip' hc,
          ptr_not_ok d' ip' hk']

theorem ptr_store_self (hk : k.Ok) (hpar : ∀ p, k.parent = some p → ptr d ip p ≠ 0) :
    ptr d' ip' k = y := by
  cases hr : k.parent with
  | none => rw [ptr_root _ _ hk hr, hroot k hk hr, if_pos rfl]
  | some p =>
    have hp := Slot.not_mem_path_parent hr
    rw [ptr_child _ _ hr, ptr_store_other hroot hentry hp,
      entryAt_of_ne _ (hpar p hr) (hk.pos_lt hr), hentry k p hk hr hp (hpar p hr), if_pos rfl]

theorem ptr_update (hk : k.Ok) (hpar : ∀ p, k.parent = some p → ptr d ip p ≠ 0)
    (hbelow : ∀ c, c.Ok → c.parent = some k →
      ptr d ip c = 0 ∧ (y = 0 ∨ getWord (d' y) c.pos = 0)) :
    ptr d' ip' = update (ptr d ip) k y := by
  have hself := ptr_store_self hroot hentry hk hpar
  funext k'
  by_cases he : k' = k
  · rw [he, hself, update_self]
  · rw [update_of_ne he]
    by_cases hu : k ∈ k'.path
    · rw [ptr_below_zero (fun c hc h => (hbelow c hc h).1) hu he]
      apply ptr_below_zero _ hu he
      intro c hc h
      rw [ptr_child _ _ h, hself]
      unfold entryAt
      rcases (hbelow c hc h).2 with hy | hy
      · rw [if_pos (.inl hy)]
      · rw [hy, ite_self]
    · exact ptr_store_other hroot hentry hu

end Store

def slotOf (bn : Nat) : Slot :=
  if bn < NDIRECT then .direct bn
  else if bn - NDIRECT < NINDIRECT then .sentry (bn - NDIRECT)
  else .dentry ((bn - NDIRECT - NINDIRECT) / NADDR_PER_BLOCK)
    ((bn - NDIRECT - NINDIRECT) % NADDR_PER_BLOCK)

theorem slotOf_index (bn : Nat) : (slotOf bn).index = false := by
  unfold slotOf
  split
  · rfl
  · split <;> rfl

theorem slotOf_ok (h : bn < MAXFILE) : (slotOf bn).Ok := by
  change bn < 65803 at h
  unfold slotOf
  split
  · next h1 => exact h1
  · split
    · next h2 => exact h2
    · constructor
      · change (bn - 11 - 256) / 256 < 256
        omega
      · exact Nat.mod_lt _ (by decide)

theorem lt_of_slotOf_ok (h : (slotOf bn).Ok) : bn < MAXFILE := by
  change bn < 65803
  simp only [slotOf, NDIRECT, NINDIRECT, NADDR_PER_BLOCK, BSIZE] at h
  split at h
  · omega
  · split at h
    · omega
    · have hi := h.1
      simp only [NADDR_PER_BLOCK, BSIZE] at hi
      omega

theorem slotOf_inj (h : slotOf bn = slotOf bn') : bn = bn' := by
  simp only [slotOf, NDIRECT, NINDIRECT, NADDR_PER_BLOCK, BSIZE] at h
  split at h
  · split at h
    · injection h
    · split at h <;> injection h
  · split at h
    · split at h
      · injection h
      · split at h
        · have he := Slot.sentry.inj h
          omega
        · injection h
    · split at h
      · injection h
      · split at h
        · injection h
        · obtain ⟨he, he'⟩ := Slot.dentry.inj h
          omega

theorem bmapNalloc_eq (d : Disk) (ip : Inode) (bn : Nat) :
    bmapNalloc d ip bn = ptr d ip (slotOf bn) := by
  unfold bmapNalloc slotOf
  by_cases h1 : bn < NDIRECT
  · simp only [if_pos h1, ptr]
  · by_cases h2 : bn - NDIRECT < NINDIRECT
    · simp only [if_neg h1, if_pos h2, ptr, entryAt]
      rw [ite_or, if_neg (Nat.not_le.2 h2)]
    · simp only [if_neg h1, if_neg h2, ptr]
      generalize bn - NDIRECT - NINDIRECT = n
      have hmod : n % NADDR_PER_BLOCK < NADDR_PER_BLOCK := Nat.mod_lt _ (by decide)
      by_cases h3 : n < NDINDIRECT
      · have hdiv : n / NADDR_PER_BLOCK < NADDR_PER_BLOCK := by
          change n < 65536 at h3
          change n / 256 < 256
          omega
        simp only [if_pos h3, entryAt]
        by_cases h4 : ip.addr (NDIRECT + 1) = 0
        · simp only [h4, true_or, ↓reduceIte]
        · simp only [h4, Nat.not_le.2 hdiv, Nat.not_le.2 hmod, or_self, or_false, ↓reduceIte]
      · have hdiv : NADDR_PER_BLOCK ≤ n / NADDR_PER_BLOCK := by
          change ¬ n < 65536 at h3
          change 256 ≤ n / 256
          omega
        simp only [if_neg h3, entryAt, hdiv, or_true, ↓reduceIte, true_or]

end OopsOS
