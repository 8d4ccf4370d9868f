import Mathlib.Logic.Function.Basic

namespace OopsOS
set_option autoImplicit true
open Function

variable {α : Type}

/-- Following the parent links from a node leads to the root. -/
inductive Rooted (up : α → α) (r : α) : α → Prop
  | root : Rooted up r r
  | step {x : α} (h : Rooted up r (up x)) : Rooted up r x

/-- The parent links lead from a node to the root without passing another node. -/
inductive Avoids (up : α → α) (r a : α) : α → Prop
  | root (h : r ≠ a) : Avoids up r a r
  | step {x : α} (hne : x ≠ a) (h : Avoids up r a (up x)) : Avoids up r a x

variable {up up' : α → α} {r a b x : α}

theorem Avoids.ne (h : Avoids up r a x) : x ≠ a := by
  cases h with
  | root h => exact h
  | step hne _ => exact hne

theorem Avoids.rooted (h : Avoids up r a x) : Rooted up r x := by
  induction h with
  | root => exact .root
  | step _ _ ih => exact .step ih

variable [DecidableEq α]

theorem Avoids.update (h : Avoids up r a x) (b : α) :
    Avoids (update up a b) r a x := by
  induction h with
  | root h => exact .root h
  | step hne _ ih =>
    apply Avoids.step hne
    rw [update_of_ne hne]
    exact ih

theorem Rooted.update (h : Rooted up r x) (hb : Avoids up r a b) :
    Rooted (update up a b) r x := by
  induction h with
  | root => exact .root
  | @step x _ ih =>
    apply Rooted.step
    by_cases hx : x = a
    · subst hx
      rw [update_self]
      exact (hb.update b).rooted
    · rw [update_of_ne hx]
      exact ih

theorem Rooted.avoids_or (h : Rooted (Function.update up a b) r x) (ha : r ≠ a) :
    Avoids up r a x ∨ Avoids up r a b := by
  induction h with
  | root => exact .inl (.root ha)
  | @step x _ ih =>
    by_cases hx : x = a
    · subst hx
      rw [update_self, or_self] at ih
      exact .inr ih
    · rw [update_of_ne hx] at ih
      exact ih.imp_left (.step hx)

end OopsOS
