import OopsOS.Procs
import OopsOS.Traces

namespace OopsOS.Bank
set_option autoImplicit true
open Function

abbrev BANKER_RES_MAX : Nat := 8

structure BankState extends Procs where
  inited : Bool
  nres : Nat
  total : Nat → Int
  avail : Nat → Int
  active : ProcSlot → Bool
  max : ProcSlot → Nat → Int
  alloc : ProcSlot → Nat → Int

def BankState.need (s : BankState) (p : ProcSlot) (r : Nat) : Int := s.max p r - s.alloc p r

def BankState.needOk (s : BankState) (p : ProcSlot) (work : Nat → Int) : Bool :=
  (List.range s.nres).all fun r => s.need p r ≤ work r

structure Scan where
  work : Nat → Int
  finish : ProcSlot → Bool
  progress : Bool

/-- The test of one process, which gives back what it holds if its need can be met. -/
def BankState.visit (s : BankState) (c : Scan) (i : ProcSlot) : Scan :=
  if c.finish i then c
  else if s.needOk i c.work then
    ⟨fun r => if r < s.nres then c.work r + s.alloc i r else c.work r, update c.finish i true,
      true⟩
  else c

def BankState.pass (s : BankState) (c : Scan) : Scan :=
  (List.finRange NPROC).foldl s.visit { c with progress := false }

def BankState.scan (s : BankState) : Nat → Scan → Scan
  | 0, c => c
  | n + 1, c => if (s.pass c).progress then s.scan n (s.pass c) else s.pass c

def BankState.counts (s : BankState) (p : ProcSlot) : Bool := s.state p ≠ .unused && s.active p

def BankState.bankerIsSafeLocked (s : BankState) : Bool :=
  (List.finRange NPROC).all (s.scan (NPROC + 1) ⟨s.avail, fun p => !s.counts p, false⟩).finish

def BankState.bankerAnyAllocLocked (s : BankState) : Bool :=
  (List.finRange NPROC).any fun p => s.active p && (List.range s.nres).any fun r => 0 < s.alloc p r

def BankState.bankerInit (s : BankState) (nres : Nat) (total : Nat → Int) : BankState :=
  if nres = 0 ∨ BANKER_RES_MAX < nres then s
  else if ∃ r < nres, total r < 0 then s
  else if s.inited && s.bankerAnyAllocLocked then s
  else { s with
    inited := true
    nres := nres
    total := fun r => if r < nres then total r else 0
    avail := fun r => if r < nres then total r else 0
    active := fun _ => false
    max := fun _ _ => 0
    alloc := fun _ _ => 0 }

def BankState.AcceptsMax (s : BankState) (p : ProcSlot) (nres : Nat) (max : Nat → Int) : Prop :=
  s.inited = true ∧ nres = s.nres ∧ ∀ r < nres, 0 ≤ max r ∧ max r ≤ s.total r ∧ s.alloc p r ≤ max r

instance {s : BankState} {p : ProcSlot} {nres : Nat} {max : Nat → Int} :
    Decidable (s.AcceptsMax p nres max) :=
  inferInstanceAs (Decidable (_ ∧ _ ∧ _))

def BankState.bankerSetMax (s : BankState) (p : ProcSlot) (nres : Nat) (max : Nat → Int) :
    BankState :=
  if s.AcceptsMax p nres max then
    { s with
      alloc := if s.active p then s.alloc else update s.alloc p fun _ => 0
      active := update s.active p true
      max := update s.max p fun r => if r < nres then max r else 0 }
  else s

def BankState.grab (s : BankState) (p : ProcSlot) (nres : Nat) (d : Nat → Int) : BankState :=
  { s with
    avail := fun r => if r < nres then s.avail r - d r else s.avail r
    alloc := update s.alloc p fun r => if r < nres then s.alloc p r + d r else s.alloc p r }

def BankState.give (s : BankState) (p : ProcSlot) (nres : Nat) (d : Nat → Int) : BankState :=
  { s with
    avail := fun r => if r < nres then s.avail r + d r else s.avail r
    alloc := update s.alloc p fun r => if r < nres then s.alloc p r - d r else s.alloc p r }

def BankState.bankerRequest (s : BankState) (p : ProcSlot) (nres : Nat) (req : Nat → Int) :
    BankState :=
  if s.inited = true ∧ nres = s.nres ∧ s.active p = true ∧
      ∀ r < nres, 0 ≤ req r ∧ req r ≤ s.need p r ∧ req r ≤ s.avail r then
    if (s.grab p nres req).bankerIsSafeLocked then s.grab p nres req
    else (s.grab p nres req).give p nres req
  else s

def BankState.bankerRelease (s : BankState) (p : ProcSlot) (nres : Nat) (rel : Nat → Int) :
    BankState :=
  if s.inited = true ∧ nres = s.nres ∧ s.active p = true ∧ ∀ r < nres, 0 ≤ rel r ∧
    rel r ≤ s.alloc p r then
    s.give p nres rel
  else s

def BankState.bankerReleaseProc (s : BankState) (p : ProcSlot) : BankState :=
  if s.inited = true ∧ s.active p = true then
    { s with
      avail := fun r => if r < s.nres then s.avail r + s.alloc p r else s.avail r
      alloc := update s.alloc p fun r => if r < s.nres then 0 else s.alloc p r
      max := update s.max p fun r => if r < s.nres then 0 else s.max p r
      active := update s.active p false }
  else s

def BankState.vacate (s : BankState) (p : ProcSlot) : BankState :=
  { s with toProcs := s.toProcs.vacate p }

def BankState.freeproc (s : BankState) (p : ProcSlot) : BankState :=
  (s.bankerReleaseProc p).vacate p

def BankState.freethread (s : BankState) (p : ProcSlot) : BankState := s.vacate p

def BankState.allocproc (s : BankState) (p : ProcSlot) : BankState :=
  { s with
    active := update s.active p false
    max := update s.max p fun _ => 0
    alloc := update s.alloc p fun _ => 0
    pthread := update s.pthread p none }

def BankState.start (s : BankState) (p : ProcSlot) (parent pthread : Option ProcSlot) : BankState :=
  { s with toProcs := s.toProcs.start p parent pthread }

/-- A new process or thread; if there is no memory for it, the slot is freed again. -/
def BankState.spawn (s : BankState) (parent pthread : Option ProcSlot) (ok : Bool) : BankState :=
  match s.unusedSlot with
  | none => s
  | some np =>
    if ok then (s.allocproc np).start np parent pthread else (s.allocproc np).freeproc np

def BankState.exit (s : BankState) (p : ProcSlot) : BankState :=
  { s with toProcs := s.toProcs.exit p }

inductive Event where
  | bankerInit (p : ProcSlot) (nres : Nat) (total : Nat → Int)
  | bankerSetMax (p : ProcSlot) (nres : Nat) (max : Nat → Int)
  | bankerRequest (p : ProcSlot) (nres : Nat) (req : Nat → Int)
  | bankerRelease (p : ProcSlot) (nres : Nat) (rel : Nat → Int)
  | fork (p : ProcSlot) (ok : Bool)
  | clone (p : ProcSlot) (ok : Bool)
  | exit (p : ProcSlot)
  | reap (p q : ProcSlot)
  | wait (p : ProcSlot)
  | join (p : ProcSlot)

def Event.caller : Event → ProcSlot
  | bankerInit p _ _ | bankerSetMax p _ _ | bankerRequest p _ _ | bankerRelease p _ _ => p
  | fork p _ | clone p _ | exit p | reap p _ | wait p | join p => p

/-- One call of a live process; one that exits first reaps the threads of its group. -/
def fire (s : BankState) (e : Event) : Option BankState :=
  if s.state e.caller = .live then
    match e with
    | .bankerInit _ nres total => some (s.bankerInit nres total)
    | .bankerSetMax p nres max => some (s.bankerSetMax p nres max)
    | .bankerRequest p nres req => some (s.bankerRequest p nres req)
    | .bankerRelease p nres rel => some (s.bankerRelease p nres rel)
    | .fork p ok => some (s.spawn (some p) none ok)
    | .clone p ok => some (s.spawn none (some (s.tgroupLeader p)) ok)
    | .exit p => if p ≠ 0 ∧ ∀ q, s.pthread q ≠ some p then some (s.exit p) else none
    | .reap p q => if s.pthread q = some p ∧ s.state q = .zombie then some (s.freethread q)
      else none
    | .wait p =>
      match s.deadChild p with
      | some q => some (s.freeproc q)
      | none => some s
    | .join p =>
      match s.deadThread p with
      | some q => some (s.freethread q)
      | none => some s
  else none

def boot : BankState where
  toProcs := Procs.boot
  inited := false
  nres := 0
  total _ := 0
  avail _ := 0
  active _ := false
  max _ _ := 0
  alloc _ _ := 0

end OopsOS.Bank
