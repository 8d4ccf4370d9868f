import Mathlib
import OopsOS.Limits

namespace OopsOS
set_option autoImplicit true

abbrev MAXVA : Nat := 2 ^ 38

def u64 (n : Nat) : Nat := n % 2 ^ 64

def pgRoundUp (a : Nat) : Nat := u64 (a + (PGSIZE - 1)) / PGSIZE * PGSIZE

variable {a : Nat}

theorem pgRoundUp_eq (h : a + (PGSIZE - 1) < 2 ^ 64) :
    pgRoundUp a = (a + (PGSIZE - 1)) / PGSIZE * PGSIZE := by
  rw [pgRoundUp, u64, Nat.mod_eq_of_lt h]

theorem pgRoundUp_wrap (h : 2 ^ 64 ≤ a + (PGSIZE - 1)) (ha : a < 2 ^ 64) : pgRoundUp a = 0 := by
  rw [pgRoundUp, u64]
  simp only [PGSIZE] at h ⊢
  omega

theorem pgRoundUp_mod (a : Nat) : pgRoundUp a % PGSIZE = 0 := Nat.mul_mod_left ..

end OopsOS
