import Mathlib.Data.Set.Card
import Mathlib.Data.Fintype.Card
import Mathlib.Data.List.FinRange

namespace OopsOS.KeyedSlots
set_option autoImplicit true
open Function

def firstSlot (p : Fin n → Bool) : Option (Fin n) := (List.finRange n).find? p

theorem firstSlot_some {p : Fin n → Bool} (h : firstSlot p = some i) : p i = true :=
  List.find?_some h

theorem firstSlot_none {p : Fin n → Bool} : firstSlot p = none ↔ ∀ i, p i = false := by
  simp [firstSlot, List.find?_eq_none]

variable {S K V : Type} [DecidableEq K] {used : S → Bool} {key : S → K} {val : S → V}
  {t : Fin n → S} {i : Fin n} {k : K} {x : S}

def findKey (used : S → Bool) (key : S → K) (t : Fin n → S) (k : K) : Option (Fin n) :=
  firstSlot fun i => used (t i) && decide (key (t i) = k)

/-- The map from keys to values that a table of slots stands for. -/
def toMap (used : S → Bool) (key : S → K) (val : S → V) (t : Fin n → S) (k : K) : Option V :=
  (findKey used key t k).map fun i => val (t i)

def Distinct (used : S → Bool) (key : S → K) (t : Fin n → S) : Prop :=
  ∀ i j, used (t i) = true → used (t j) = true → key (t i) = key (t j) → i = j

theorem findKey_none : findKey used key t k = none ↔ ∀ i, used (t i) = true → key (t i) ≠ k := by
  simp [findKey, firstSlot_none]

theorem findKey_used (h : findKey used key t k = some i) : used (t i) = true ∧ key (t i) = k := by
  have hp := firstSlot_some h
  simpa using hp

theorem Distinct.findKey (h : Distinct used key t) :
    findKey used key t k = some i ↔ used (t i) = true ∧ key (t i) = k := by
  refine ⟨findKey_used, fun ⟨hu, hk⟩ => ?_⟩
  cases hf : KeyedSlots.findKey used key t k with
  | none => exact (findKey_none.1 hf i hu hk).elim
  | some j =>
    obtain ⟨hu', hk'⟩ := findKey_used hf
    rw [h j i hu' hu (hk'.trans hk.symm)]

theorem Distinct.toMap (h : Distinct used key t) :
    toMap used key val t k = some v ↔
      ∃ i, used (t i) = true ∧ key (t i) = k ∧ val (t i) = v := by
  simp only [KeyedSlots.toMap, Option.map_eq_some_iff, h.findKey, and_assoc]

theorem toMap_none :
    toMap used key val t k = none ↔ ∀ i, used (t i) = true → key (t i) ≠ k := by
  rw [toMap, Option.map_eq_none_iff, findKey_none]

theorem Distinct.put (val : S → V) (h : Distinct used key t) (hx : used x = true) (hk : key x = k)
    (hi : ∀ j, used (t j) = true → (j = i ↔ key (t j) = k)) :
    Distinct used key (update t i x) ∧
      KeyedSlots.toMap used key val (update t i x) =
        update (KeyedSlots.toMap used key val t) k (some (val x)) := by
  have hd : Distinct used key (update t i x) := by
    intro a b
    by_cases ha : a = i <;> by_cases hb : b = i <;> simp only [ha, hb, update_self, ne_eq,
      not_false_eq_true, update_of_ne, implies_true]
    · intro _ hu e
      exact absurd ((hi b hu).2 (e.symm.trans hk)) hb
    · intro hu _ e
      exact absurd ((hi a hu).2 (e.trans hk)) ha
    · exact h a b
  refine ⟨hd, funext fun k' => Option.ext fun v => ?_⟩
  rw [hd.toMap]
  by_cases he : k' = k
  · subst he
    rw [update_self, Option.some.injEq]
    constructor
    · rintro ⟨j, hu, hj, rfl⟩
      rw [hd j i hu (by rw [update_self, hx]) (by rw [hj, update_self, hk]), update_self]
    · rintro rfl
      exact ⟨i, by simp [hx, hk]⟩
  · rw [update_of_ne he, h.toMap]
    constructor
    · rintro ⟨j, hu, hj, hv⟩
      have hne : j ≠ i := by
        rintro rfl
        rw [update_self] at hj
        exact he (hj.symm.trans hk)
      rw [update_of_ne hne] at hu hj hv
      exact ⟨j, hu, hj, hv⟩
    · rintro ⟨j, hu, hj, hv⟩
      have hne : j ≠ i := fun e => he (hj.symm.trans ((hi j hu).1 e))
      exact ⟨j, by rw [update_of_ne hne]; exact ⟨hu, hj, hv⟩⟩

theorem Distinct.drop (val : S → V) (h : Distinct used key t) (hx : used x = false)
    (hu : used (t i) = true) (hk : key (t i) = k) : Distinct used key (update t i x) ∧
      KeyedSlots.toMap used key val (update t i x) =
        update (KeyedSlots.toMap used key val t) k none := by
  have hsame (j : Fin n) (hj : used (update t i x j) = true) : j ≠ i ∧ update t i x j = t j := by
    have hne : j ≠ i := by
      rintro rfl
      rw [update_self, hx] at hj
      cases hj
    exact ⟨hne, update_of_ne hne ..⟩
  have hd : Distinct used key (update t i x) := by
    intro a b ha hb
    rw [(hsame a ha).2, (hsame b hb).2] at *
    exact h a b ha hb
  refine ⟨hd, funext fun k' => Option.ext fun v => ?_⟩
  rw [hd.toMap]
  by_cases he : k' = k
  · subst he
    rw [update_self]
    refine iff_of_false ?_ (by simp)
    rintro ⟨j, hj, hkey, -⟩
    obtain ⟨hne, hj'⟩ := hsame j hj
    rw [hj'] at hj hkey
    exact hne (h j i hj hu (hkey.trans hk.symm))
  · rw [update_of_ne he, h.toMap]
    constructor
    · rintro ⟨j, hj, hkey, hv⟩
      have hj' := (hsame j hj).2
      rw [hj'] at hj hkey hv
      exact ⟨j, hj, hkey, hv⟩
    · rintro ⟨j, hj, hkey, hv⟩
      have hne : j ≠ i := by
        rintro rfl
        exact he (hkey.symm.trans hk)
      exact ⟨j, by rw [update_of_ne hne]; exact ⟨hj, hkey, hv⟩⟩

theorem Distinct.full (val : S → V) (h : Distinct used key t) :
    n ≤ {k | KeyedSlots.toMap used key val t k ≠ none}.ncard ↔ ∀ i, used (t i) = true := by
  have hkeys : {k | KeyedSlots.toMap used key val t k ≠ none} =
      (fun i => key (t i)) '' (Finset.univ.filter fun i => used (t i) = true : Finset (Fin n)) := by
    ext k
    simp only [Set.mem_ofPred_eq, ne_eq, toMap_none, not_forall, not_not, Set.mem_image,
      Finset.coe_filter, Finset.mem_univ, true_and, exists_prop]
  rw [hkeys, Set.InjOn.ncard_image, Set.ncard_coe_finset]
  · constructor
    · intro hle i
      have hall := Finset.eq_univ_of_card (Finset.univ.filter fun i => used (t i) = true)
        (Nat.le_antisymm (Finset.card_le_univ _) (by rw [Fintype.card_fin]; exact hle))
      have hi := Finset.mem_univ i
      rw [← hall] at hi
      exact (Finset.mem_filter.1 hi).2
    · intro hall
      rw [Finset.filter_true_of_mem fun i _ => hall i, Finset.card_univ, Fintype.card_fin]
  · intro a ha b hb e
    exact h a b (Finset.mem_filter.1 ha).2 (Finset.mem_filter.1 hb).2 e

end OopsOS.KeyedSlots
