import OopsOS.PageFaults

namespace OopsOS.Pg
set_option autoImplicit true
open Function

variable {s : PgState} {t vpn f va : Nat} {cause : Cause}

/-- No run of it walks past the end of the address space. -/
abbrev Calm (m : PgM α) : Prop := Maintains (fun e => e ≠ .walk) (fun _ => True) m

/-- Run from the state it does not walk past the end of the address space. -/
def Stays (m : PgM α) (s : PgState) : Prop := wp (fun e => e ≠ .walk) m s (fun _ _ => True)

def Fetches (s : PgState) (t vpn : Nat) : Prop :=
  s.swapready = true ∧ (s.pte t vpn).swapped = true ∧ s.pbufFind (s.pte t vpn).num = none

/-- The states in which the page-table pages on the way to an entry are allocated. -/
def PathAllocs (t vpn : Nat) (s s' : PgState) : Prop :=
  (s.table t).node (.mid (vpn / 2 ^ 18)) = 0 ∧ s' = s ∨
  walkNode t (.mid (vpn / 2 ^ 18)) s = .ok (true, s') ∧ (s'.table t).node (.low (vpn / 2 ^ 9)) = 0

/-- The states in which `kalloc` is called to supply a page. -/
def Draws (t vpn : Nat) (o : Option Supply) (s s' : PgState) : Prop :=
  ∃ p, o = some p ∧
    (s' = s ∨ ∃ f s₁ s₂, kalloc s = .ok (some f, s₁) ∧ readIf p.reads s₁ = .ok ((), s₂) ∧
    PathAllocs t vpn (s₂.setData f p.bytes) s')

theorem supply_lt (hp : (supply s va cause).isSome = true) : va / PGSIZE < NVPN := by
  by_contra hle
  unfold supply at hp
  rw [if_pos (Nat.le_of_not_lt hle)] at hp
  cases hp

end OopsOS.Pg
