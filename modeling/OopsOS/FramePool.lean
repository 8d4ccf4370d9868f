import Mathlib.Algebra.Order.Group.Multiset
import Mathlib.Logic.Function.Basic

namespace OopsOS
set_option autoImplicit true
open Function

variable {n f g : Nat} {cnt : Nat → Int} {pool R : Multiset Nat}

def IsFrame (n f : Nat) : Prop := 0 < f ∧ f ≤ n

instance : Decidable (IsFrame n f) := inferInstanceAs (Decidable (_ ∧ _))

/-- The counts are those of the references in `R`; frames without one are in the pool, once. -/
structure Counted (n : Nat) (cnt : Nat → Int) (pool R : Multiset Nat) : Prop where
  count : ∀ f, IsFrame n f → cnt f = R.count f
  range : ∀ f ∈ R, IsFrame n f
  free : ∀ f, pool.count f = if IsFrame n f ∧ R.count f = 0 then 1 else 0

theorem Counted.of_mem_pool (h : Counted n cnt pool R) (hf : f ∈ pool) : IsFrame n f ∧ f ∉ R := by
  have hpos := Multiset.count_pos.2 hf
  rw [h.free f] at hpos
  split at hpos
  · next hz => exact ⟨hz.1, Multiset.count_eq_zero.1 hz.2⟩
  · cases hpos

/-- Only the references to one frame change, and with them its place in the pool. -/
theorem Counted.change {c : Int} {pool' R' : Multiset Nat} (h : Counted n cnt pool R)
    (hframe : IsFrame n f)
    (hrest : ∀ g, g ≠ f → pool'.count g = pool.count g ∧ R'.count g = R.count g)
    (hc : c = R'.count f)
    (hfree : pool'.count f = if R'.count f = 0 then 1 else 0) :
    Counted n (update cnt f c) pool' R' := by
  refine ⟨fun g hg => ?_, fun g hg => ?_, fun g => ?_⟩
  all_goals by_cases he : g = f
  · rw [he, update_self, hc]
  · rw [update_of_ne he, h.count g hg, (hrest g he).2]
  · exact he ▸ hframe
  · exact h.range g (Multiset.count_pos.1 ((hrest g he).2 ▸ Multiset.count_pos.2 hg))
  · rw [he, hfree]
    simp only [hframe, true_and]
  · rw [(hrest g he).1, (hrest g he).2, h.free g]

theorem Counted.drop_last (h : Counted n cnt pool (f ::ₘ R)) (h1 : cnt f = 1) :
    Counted n (update cnt f 0) (f ::ₘ pool) R := by
  have hframe := h.range f (Multiset.mem_cons_self f R)
  have hc := h.count f hframe
  have hpool := h.free f
  rw [Multiset.count_cons_self] at hc hpool
  have hR : R.count f = 0 := by omega
  refine h.change hframe (fun g he => ?_) (by rw [hR]; rfl) ?_
  · exact ⟨Multiset.count_cons_of_ne he _, (Multiset.count_cons_of_ne he _).symm⟩
  · rw [Multiset.count_cons_self, hpool, if_pos hR, if_neg fun hz => Nat.succ_ne_zero _ hz.2]

theorem Counted.drop (h : Counted n cnt pool (f ::ₘ R)) (h1 : cnt f ≠ 1) :
    Counted n (update cnt f (cnt f - 1)) pool R := by
  have hframe := h.range f (Multiset.mem_cons_self f R)
  have hc := h.count f hframe
  have hpool := h.free f
  rw [Multiset.count_cons_self] at hc hpool
  refine h.change hframe (fun g he => ⟨rfl, (Multiset.count_cons_of_ne he _).symm⟩) (by omega) ?_
  rw [hpool, if_neg fun hz => Nat.succ_ne_zero _ hz.2, if_neg (by omega)]

theorem Counted.take (h : Counted n cnt (f ::ₘ pool) R) :
    Counted n (update cnt f 1) pool (f ::ₘ R) := by
  obtain ⟨hframe, hf⟩ := h.of_mem_pool (Multiset.mem_cons_self f pool)
  have hR : R.count f = 0 := Multiset.count_eq_zero.2 hf
  have hpool := h.free f
  rw [Multiset.count_cons_self, if_pos ⟨hframe, hR⟩] at hpool
  refine h.change hframe (fun g he => ?_) (by rw [Multiset.count_cons_self, hR]; rfl) ?_
  · exact ⟨(Multiset.count_cons_of_ne he _).symm, Multiset.count_cons_of_ne he _⟩
  · rw [Multiset.count_cons_self, if_neg (Nat.succ_ne_zero _)]
    omega

theorem Counted.more (h : Counted n cnt pool R) (hf : f ∈ R) :
    Counted n (update cnt f (cnt f + 1)) pool (f ::ₘ R) := by
  have hR : R.count f ≠ 0 := Nat.ne_of_gt (Multiset.count_pos.2 hf)
  refine h.change (h.range f hf) (fun g he => ⟨rfl, Multiset.count_cons_of_ne he _⟩) ?_ ?_
  · rw [Multiset.count_cons_self, h.count f (h.range f hf)]
    rfl
  · rw [Multiset.count_cons_self, h.free f, if_neg fun hz => hR hz.2, if_neg (Nat.succ_ne_zero _)]

end OopsOS
