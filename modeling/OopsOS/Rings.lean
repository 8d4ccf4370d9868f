import Mathlib.Data.Nat.ModEq
import Mathlib.Logic.Function.Basic

namespace OopsOS
set_option autoImplicit true
open Function

/-- A ring of bytes with free-running counters of 32 bits. -/
structure Ring where
  data : Nat → UInt8
  r : UInt32
  w : UInt32

def Ring.put (N : Nat) (b : Ring) (c : UInt8) : Ring :=
  { b with data := update b.data (b.w.toNat % N) c, w := b.w + 1 }

def Ring.front (N : Nat) (b : Ring) : UInt8 := b.data (b.r.toNat % N)

def Ring.pop (b : Ring) : Ring := { b with r := b.r + 1 }

structure Ring.Holds (N : Nat) (b : Ring) (q : List UInt8) : Prop where
  room : q.length ≤ N
  count : b.w.toNat = (b.r.toNat + q.length) % 2 ^ 32
  byte : ∀ i (h : i < q.length), b.data ((b.r.toNat + i) % N) = q[i]

variable {N : Nat} {b : Ring} {q : List UInt8} {c : UInt8}

theorem Ring.holds_nil (h : b.r = b.w) : b.Holds N [] :=
  ⟨Nat.zero_le _, by rw [h]; exact (Nat.mod_eq_of_lt b.w.toNat_lt).symm, nofun⟩

theorem Ring.Holds.empty_iff (h : b.Holds N q) (hN : N < 2 ^ 32) : b.r = b.w ↔ q = [] := by
  have hr := b.r.toNat_lt
  have hroom := h.room
  rw [← UInt32.toNat_inj, h.count, ← List.length_eq_zero_iff]
  omega

theorem Ring.Holds.full_iff (h : b.Holds N q) (hN : N < 2 ^ 32) :
    b.w = b.r + UInt32.ofNat N ↔ q.length = N := by
  have hr := b.r.toNat_lt
  have hroom := h.room
  rw [← UInt32.toNat_inj, h.count, UInt32.toNat_add, UInt32.toNat_ofNat_of_lt' hN]
  omega

theorem Ring.Holds.put (h : b.Holds N q) (hN : N ∣ 2 ^ 32) (hlt : q.length < N) :
    (b.put N c).Holds N (q ++ [c]) := by
  have hw : b.w.toNat % N = (b.r.toNat + q.length) % N := by
    rw [h.count, Nat.mod_mod_of_dvd _ hN]
  refine ⟨by simpa using Nat.succ_le_of_lt hlt, ?_, fun i hi => ?_⟩
  · show (b.w + 1).toNat = _
    rw [UInt32.toNat_add, h.count, List.length_append, List.length_singleton, ← Nat.add_assoc]
    exact Nat.mod_add_mod ..
  · show update b.data (b.w.toNat % N) c ((b.r.toNat + i) % N) = _
    rw [hw]
    obtain hi | rfl : i < q.length ∨ i = q.length := by
      rw [List.length_append, List.length_singleton] at hi
      omega
    · rw [List.getElem_append_left hi, update_of_ne, h.byte i hi]
      intro he
      have hmod : i ≡ q.length [MOD N] := Nat.ModEq.add_left_cancel' _ he
      rw [Nat.ModEq, Nat.mod_eq_of_lt hlt, Nat.mod_eq_of_lt (hi.trans hlt)] at hmod
      exact hi.ne hmod
    · rw [update_self, List.getElem_concat_length rfl]

theorem Ring.Holds.front_eq (h : b.Holds N (c :: q)) : b.front N = c := h.byte 0 (Nat.succ_pos _)

theorem Ring.Holds.pop (h : b.Holds N (c :: q)) (hN : N ∣ 2 ^ 32) : b.pop.Holds N q := by
  have hr : (b.r + 1).toNat = (b.r.toNat + 1) % 2 ^ 32 := UInt32.toNat_add ..
  refine ⟨(Nat.le_succ _).trans h.room, ?_, fun i hi => ?_⟩
  · show b.w.toNat = ((b.r + 1).toNat + _) % _
    rw [h.count, hr, Nat.mod_add_mod, List.length_cons]
    congr 1
    omega
  · show b.data (((b.r + 1).toNat + i) % N) = _
    have hbyte := h.byte (i + 1) (Nat.succ_lt_succ hi)
    rw [List.getElem_cons_succ] at hbyte
    rw [hr, ← hbyte, ← Nat.mod_add_mod, Nat.mod_mod_of_dvd _ hN, Nat.mod_add_mod]
    congr 2
    omega

end OopsOS
