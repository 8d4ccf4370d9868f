import OopsOS.Family
import OopsOS.Procs
import OopsOS.Traces

namespace OopsOS.Mon
set_option autoImplicit true
open Function

abbrev MONITOR_MAX_NUM : Nat := 16

abbrev MONITOR_COND_MAX : Nat := 16

abbrev MonId := Fin MONITOR_MAX_NUM

abbrev CondId := Fin MONITOR_COND_MAX

/-- What a process sleeps on: a monitor or one of its condition variables. -/
inductive Chan where
  | entry (m : MonId)
  | cond (m : MonId) (c : CondId)
deriving DecidableEq

def Chan.mon : Chan → MonId
  | entry m | cond m _ => m

/-- Where a process is: outside the calls, asleep in `mon_enter` or (`wait`) `cond_wait`, woken, or
exiting. -/
inductive Pc where
  | idle
  | asleep (ch : Chan) (wait : Bool)
  | woken (ch : Chan) (wait : Bool)
  | exiting (i : Nat)
deriving DecidableEq

/-- The monitors and processes; unused slots have pid 0. `inside` is not of the kernel: who is in a
monitor. -/
structure State where
  allocated : MonId → Bool
  locked : MonId → Bool
  owner : MonId → Nat
  condAllocated : MonId → CondId → Bool
  waiters : Chan → Nat
  pid : ProcSlot → Nat
  nextpid : Nat
  killed : ProcSlot → Bool
  pc : ProcSlot → Pc
  inside : Finset (ProcSlot × MonId)

def State.setPc (s : State) (p : ProcSlot) (c : Pc) : State := { s with pc := update s.pc p c }

def State.setWaiters (s : State) (ch : Chan) (n : Nat) : State :=
  { s with waiters := update s.waiters ch n }

def Pc.chan : Pc → Option Chan
  | asleep ch _ => some ch
  | _ => none

def Pc.wake : Pc → Pc
  | asleep ch wait => woken ch wait
  | c => c

def State.wakeupOneProc (s : State) (ch : Chan) : State :=
  match (List.finRange NPROC).find? fun q => (s.pc q).chan = some ch with
  | none => s
  | some q => s.setPc q (s.pc q).wake

def State.wakeup (s : State) (ch : Chan) : State :=
  { s with pc := fun q => if (s.pc q).chan = some ch then (s.pc q).wake else s.pc q }

def State.take (s : State) (p : ProcSlot) (m : MonId) : State :=
  { s with
    locked := update s.locked m true
    owner := update s.owner m (s.pid p)
    inside := insert (p, m) s.inside }

def State.leave (s : State) (p : ProcSlot) (m : MonId) : State :=
  { s with
    locked := update s.locked m false
    owner := update s.owner m 0
    inside := s.inside.erase (p, m) }.wakeupOneProc (.entry m)

def State.sleep (s : State) (p : ProcSlot) (ch : Chan) (wait : Bool) : State :=
  (s.setWaiters ch (s.waiters ch + 1)).setPc p (.asleep ch wait)

/-- A call ends with the given value, or it sleeps. -/
abbrev Outcome := State × Option Int

def State.monCreate (s : State) : Outcome :=
  match (List.finRange MONITOR_MAX_NUM).find? fun m => s.allocated m = false with
  | none => (s, some (-1))
  | some m =>
    ({ s with
      allocated := update s.allocated m true
      locked := update s.locked m false
      owner := update s.owner m 0
      condAllocated := update s.condAllocated m fun _ => false
      waiters := fun ch => if ch.mon = m then 0 else s.waiters ch }, some m.val)

def State.monFree (s : State) (m : MonId) : Outcome :=
  if s.allocated m = false ∨ s.locked m = true ∨ 0 < s.waiters (.entry m) ∨
      ∃ c, s.condAllocated m c = true ∨ 0 < s.waiters (.cond m c) then (s, some (-1))
  else ({ s with allocated := update s.allocated m false }, some 0)

/-- The loop of `mon_enter`; `cycle` is what `deadlock_detect` returns. -/
def State.enterLoop (s : State) (p : ProcSlot) (m : MonId) (cycle : Bool) : Outcome :=
  if s.locked m = true then
    if s.killed p = true ∨ cycle = true then (s, some (-1)) else (s.sleep p (.entry m) false, none)
  else (s.take p m, some 0)

def State.monEnter (s : State) (p : ProcSlot) (m : MonId) (cycle : Bool) : Outcome :=
  if s.allocated m = false ∨ s.owner m = s.pid p then (s, some (-1)) else s.enterLoop p m cycle

def State.monExit (s : State) (p : ProcSlot) (m : MonId) : Outcome :=
  if s.allocated m = false ∨ s.owner m ≠ s.pid p then (s, some (-1)) else (s.leave p m, some 0)

def State.condCreate (s : State) (m : MonId) : Outcome :=
  if s.allocated m = false then (s, some (-1))
  else
    match (List.finRange MONITOR_COND_MAX).find? fun c => s.condAllocated m c = false with
    | none => (s, some (-1))
    | some c =>
      ({ s with
        condAllocated := update s.condAllocated m (update (s.condAllocated m) c true)
        waiters := update s.waiters (.cond m c) 0 }, some c.val)

def State.condFree (s : State) (m : MonId) (c : CondId) : Outcome :=
  if s.allocated m = false ∨ s.condAllocated m c = false ∨ 0 < s.waiters (.cond m c) then
    (s, some (-1))
  else
    ({ s with
      condAllocated := update s.condAllocated m (update (s.condAllocated m) c false) },
      some 0)

def State.Denied (s : State) (p : ProcSlot) (m : MonId) (c : CondId) : Prop :=
  s.allocated m = false ∨ s.condAllocated m c = false ∨ s.owner m ≠ s.pid p

instance (s : State) (p : ProcSlot) (m : MonId) (c : CondId) : Decidable (s.Denied p m c) :=
  inferInstanceAs (Decidable (_ ∨ _))

def State.condWait (s : State) (p : ProcSlot) (m : MonId) (c : CondId) : Outcome :=
  if s.Denied p m c then (s, some (-1)) else ((s.leave p m).sleep p (.cond m c) true, none)

def State.condSignal (s : State) (p : ProcSlot) (m : MonId) (c : CondId) : Outcome :=
  if s.Denied p m c then (s, some (-1))
  else (if 0 < s.waiters (.cond m c) then s.wakeupOneProc (.cond m c) else s, some 0)

def State.condBroadcast (s : State) (p : ProcSlot) (m : MonId) (c : CondId) : Outcome :=
  if s.Denied p m c then (s, some (-1))
  else (if 0 < s.waiters (.cond m c) then s.wakeup (.cond m c) else s, some 0)

def State.resume (s : State) (p : ProcSlot) (ch : Chan) (wait cycle : Bool) : Outcome :=
  let s := (s.setWaiters ch (s.waiters ch - 1)).setPc p .idle
  if wait = false then s.enterLoop p ch.mon cycle
  else if s.killed p = true then (s, some (-1))
  else if s.locked ch.mon = true then (s.sleep p (.entry ch.mon) true, none)
  else (s.take p ch.mon, some 0)

/-- A turn of the loop of `monitor_release_on_exit`, after which the process is gone. -/
def State.exitStep (s : State) (p : ProcSlot) (i : Nat) : State :=
  if h : i < MONITOR_MAX_NUM then
    if s.allocated ⟨i, h⟩ = true ∧ s.locked ⟨i, h⟩ = true ∧ s.owner ⟨i, h⟩ = s.pid p then
      (s.leave p ⟨i, h⟩).setPc p (.exiting (i + 1))
    else s.setPc p (.exiting (i + 1))
  else { s.setPc p .idle with pid := update s.pid p 0 }

inductive Call where
  | create
  | free (mid : Int)
  | enter (mid : Int)
  | exit (mid : Int)
  | condCreate (mid : Int)
  | condFree (mid cid : Int)
  | wait (mid cid : Int)
  | signal (mid cid : Int)
  | broadcast (mid cid : Int)
deriving DecidableEq

def checked (n : Nat) (id : Int) : Option (Fin n) :=
  if h : 0 ≤ id ∧ id < n then some ⟨id.toNat, by omega⟩ else none

def State.onMon (s : State) (mid : Int) (f : MonId → Outcome) : Outcome :=
  match checked MONITOR_MAX_NUM mid with
  | some m => f m
  | none => (s, some (-1))

def State.onCond (s : State) (mid cid : Int) (f : MonId → CondId → Outcome) : Outcome :=
  s.onMon mid fun m =>
    match checked MONITOR_COND_MAX cid with
    | some c => f m c
    | none => (s, some (-1))

def State.call (s : State) (p : ProcSlot) (cycle : Bool) : Call → Outcome
  | .create => s.monCreate
  | .free mid => s.onMon mid s.monFree
  | .enter mid => s.onMon mid (s.monEnter p · cycle)
  | .exit mid => s.onMon mid (s.monExit p)
  | .condCreate mid => s.onMon mid s.condCreate
  | .condFree mid cid => s.onCond mid cid s.condFree
  | .wait mid cid => s.onCond mid cid (s.condWait p)
  | .signal mid cid => s.onCond mid cid (s.condSignal p)
  | .broadcast mid cid => s.onCond mid cid (s.condBroadcast p)

inductive Event where
  | call (p : ProcSlot) (c : Call) (cycle : Bool)
  | resume (p : ProcSlot) (cycle : Bool)
  | kill (p : ProcSlot)
  | exit (p : ProcSlot)
  | exitStep (p : ProcSlot)
  | fork (p : ProcSlot)
deriving DecidableEq

/-- A step: a part of a call with the lock of a monitor, `kill`, a part of `exit`, or a new process.
-/
def fire (s : State) : Event → Option State
  | .call p c cycle => if s.pid p ≠ 0 ∧ s.pc p = .idle then some (s.call p cycle c).1 else none
  | .resume p cycle =>
    match s.pc p with
    | .woken ch wait => some (s.resume p ch wait cycle).1
    | _ => none
  | .kill p =>
    if s.pid p ≠ 0 then
      some ({ s with killed := update s.killed p true }.setPc p (s.pc p).wake)
    else none
  | .exit p => if s.pid p ≠ 0 ∧ s.pc p = .idle then some (s.setPc p (.exiting 0)) else none
  | .exitStep p =>
    match s.pc p with
    | .exiting i => some (s.exitStep p i)
    | _ => none
  | .fork p =>
    if s.pid p = 0 then
      some { s with
        pid := update s.pid p s.nextpid
        nextpid := s.nextpid + 1
        killed := update s.killed p false }
    else none

structure Started (s : State) : Prop where
  allocated : ∀ m, s.allocated m = false
  locked : ∀ m, s.locked m = false
  owner : ∀ m, s.owner m = 0
  waiters : ∀ ch, s.waiters ch = 0
  pids : ∀ p q, s.pid p = s.pid q → s.pid p ≠ 0 → p = q
  fresh : ∀ p, s.pid p < s.nextpid
  pc : ∀ p, s.pc p = .idle
  inside : s.inside = ∅

end OopsOS.Mon
