import Mathlib.Data.Finset.Card
import Mathlib.Algebra.BigOperators.Group.Finset.Basic
import Mathlib.Algebra.Order.Group.Multiset
import Mathlib.Tactic.Abel

namespace OopsOS
set_option autoImplicit true
open Function

variable {κ : Type} {S T : Finset κ} {v w : κ → Nat} {k k' : κ} {x : Nat}

def nonzero (x : Nat) : Multiset Nat := if x = 0 then 0 else {x}

@[simp] theorem nonzero_zero : nonzero 0 = 0 := rfl

theorem nonzero_of_ne (h : x ≠ 0) : nonzero x = {x} := if_neg h

theorem mem_nonzero : y ∈ nonzero x ↔ y = x ∧ x ≠ 0 := by
  by_cases h : x = 0
  · simp only [nonzero, h, ↓reduceIte, Multiset.notMem_zero, ne_eq, not_true_eq_false, and_false]
  · rw [nonzero, if_neg h, Multiset.mem_singleton]
    exact (and_iff_left h).symm

def values (S : Finset κ) (v : κ → Nat) : Multiset Nat := (S.val.map v).filter (· ≠ 0)

theorem mem_values : x ∈ values S v ↔ x ≠ 0 ∧ ∃ k ∈ S, v k = x := by
  simp only [values, Multiset.mem_filter, Multiset.mem_map, Finset.mem_val]
  exact And.comm

theorem values_congr (h : ∀ k ∈ S, v k = w k) : values S v = values S w := by
  rw [values, values, Multiset.map_congr rfl h]

theorem values_eq_of_support (h : ∀ k, v k ≠ 0 → (k ∈ S ↔ k ∈ T)) : values S v = values T v := by
  have he : S.filter (v · ≠ 0) = T.filter (v · ≠ 0) := by
    ext k
    rw [Finset.mem_filter, Finset.mem_filter, and_congr_left_iff]
    exact h k
  rw [values, values, Multiset.filter_map, Multiset.filter_map]
  exact congrArg (Multiset.map v) (congrArg Finset.val he)

theorem values_eq_zero (h : ∀ k ∈ S, v k = 0) : values S v = 0 := by
  apply Multiset.eq_zero_of_forall_notMem
  intro x hx
  obtain ⟨hx0, k, hk, he⟩ := mem_values.1 hx
  exact hx0 (he ▸ h k hk)

theorem count_values_pos (hk : k ∈ S) (h0 : v k ≠ 0) : 0 < (values S v).count (v k) :=
  Multiset.count_pos.2 (mem_values.2 ⟨h0, k, hk, rfl⟩)

theorem count_values (S : Finset κ) (v : κ → Nat) (hx : x ≠ 0) :
    (values S v).count x = (S.filter fun k => x = v k).card := by
  rw [values, Multiset.count_filter_of_pos (p := fun b => b ≠ 0) hx, Multiset.count_map,
    Finset.card_def, Finset.filter_val]

theorem count_values_le (hx : x ≠ 0) (h : ∀ k ∈ S, w k = x → v k = x) :
    (values S w).count x ≤ (values S v).count x := by
  rw [count_values S w hx, count_values S v hx]
  apply Finset.card_le_card
  intro k hk
  rw [Finset.mem_filter] at hk ⊢
  exact ⟨hk.1, (h k hk.1 hk.2.symm).symm⟩

variable [DecidableEq κ]

theorem values_insert (h : k ∉ S) : values (insert k S) v = nonzero (v k) + values S v := by
  rw [values, Finset.insert_val_of_notMem h, Multiset.map_cons, Multiset.filter_cons]
  by_cases hk : v k = 0
  · simp only [hk, ne_eq, not_true_eq_false, ↓reduceIte, nonzero_zero]
    rfl
  · simp only [ne_eq, hk, not_false_eq_true, ↓reduceIte, nonzero_of_ne hk]
    rfl

theorem values_eq_sum (S : Finset κ) (v : κ → Nat) : values S v = ∑ k ∈ S, nonzero (v k) := by
  induction S using Finset.induction_on with
  | empty => rfl
  | insert k S hk ih => rw [values_insert hk, Finset.sum_insert hk, ih]

theorem values_filter (p : κ → Prop) [DecidablePred p] :
    values S v = values (S.filter p) v + values (S.filter fun k => ¬ p k) v := by
  rw [values_eq_sum, values_eq_sum, values_eq_sum, Finset.sum_filter_add_sum_filter_not]

theorem values_erase (h : k ∈ S) : values S v = nonzero (v k) + values (S.erase k) v := by
  rw [← values_insert (Finset.notMem_erase k S), Finset.insert_erase h]

theorem values_update (h : k ∈ S) :
    values S (update v k x) + nonzero (v k) = values S v + nonzero x := by
  have hrest : values (S.erase k) (update v k x) = values (S.erase k) v :=
    values_congr fun k' hk' => update_of_ne (Finset.ne_of_mem_erase hk') _ _
  rw [values_erase h, values_erase (v := v) h, hrest, update_self]
  abel

theorem values_replace (h : k ∈ S)
    (hX : X' + nonzero x = X + nonzero (v k)) :
    values S (update v k x) + K + X' = values S v + K + X := by
  apply add_right_cancel (b := nonzero (v k))
  calc values S (update v k x) + K + X' + nonzero (v k)
      = values S (update v k x) + nonzero (v k) + K + X' := by abel
    _ = values S v + nonzero x + K + X' := by rw [values_update h]
    _ = values S v + K + (X' + nonzero x) := by abel
    _ = values S v + K + X + nonzero (v k) := by rw [hX]; abel

theorem values_update_change (h : k ∈ S) (h0 : v k ≠ 0) (hx : x ≠ 0) :
    values S (update v k x) = (x ::ₘ values S v).erase (v k) := by
  have he := values_update (x := x) (v := v) h
  rw [nonzero_of_ne hx, nonzero_of_ne h0, add_comm (values S v), Multiset.singleton_add] at he
  rw [← he, add_comm, Multiset.singleton_add, Multiset.erase_cons_head]

theorem sum_update_add {β : Type*} [AddCommMonoid β] (hk : k ∈ S) (v : κ → β) (x : β) :
    ∑ j ∈ S, update v k x j + v k = ∑ j ∈ S, v j + x := by
  have hrest : ∑ j ∈ S.erase k, update v k x j = ∑ j ∈ S.erase k, v j := by
    apply Finset.sum_congr rfl
    intro j hj
    rw [update_of_ne (Finset.ne_of_mem_erase hj)]
  rw [← Finset.add_sum_erase _ _ hk, hrest, ← Finset.add_sum_erase _ v hk, update_self]
  abel

theorem sum_apply_update_add [Fintype κ] {α β : Type*} [AddCommMonoid β] (g : α → β) (v : κ → α)
    (k : κ) (x : α) :
    ∑ j, g (update v k x j) + g (v k) = ∑ j, g (v j) + g x := by
  have h := sum_update_add (Finset.mem_univ k) (fun j => g (v j)) (g x)
  rw [← h]
  congr 2
  funext j
  by_cases hj : j = k
  · subst hj
    simp
  · simp [hj]

theorem count_values_eq_one (hk : k ∈ S) (h0 : v k ≠ 0)
    (huniq : ∀ k' ∈ S, v k' = v k → k' = k) : (values S v).count (v k) = 1 := by
  have hrest : (values (S.erase k) v).count (v k) = 0 := by
    rw [Multiset.count_eq_zero, mem_values]
    rintro ⟨-, k', hk', he⟩
    obtain ⟨hne, hk'⟩ := Finset.mem_erase.1 hk'
    exact hne (huniq k' hk' he)
  rw [values_erase hk, Multiset.count_add, hrest, nonzero_of_ne h0, Multiset.count_singleton_self]

theorem eq_of_count_le_one (h : (values S v).count x ≤ 1) (hx : x ≠ 0) (hk : k ∈ S)
    (hv : v k = x) (hk' : k' ∈ S) (hv' : v k' = x) : k = k' := by
  by_contra hne
  have hk'' : k' ∈ S.erase k := Finset.mem_erase.2 ⟨fun e => hne e.symm, hk'⟩
  rw [values_erase hk, values_erase hk'', hv, hv', nonzero_of_ne hx, Multiset.count_add,
    Multiset.count_add, Multiset.count_singleton_self] at h
  omega

end OopsOS
