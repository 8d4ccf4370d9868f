import Mathlib
import OopsOS.Traces
import OopsOS.Limits

namespace OopsOS.Sem
set_option autoImplicit true
open Function

/-- The process in slot `p` has the pid `p + 1`. -/
def pidOf (p : ProcSlot) : Nat := p.val + 1

def int32 (x : Int) : Int := x.bmod (2 ^ 32)

/-- The parts of the semaphore calls that run with locks held. -/
inductive Section where
  | p (id : Nat)
  | pBack (id : Nat)
  | v (id : Nat)
  | multi (ids : List Nat) (again : Bool)
  | multiBack (ids : List Nat) (wait : Nat)
  | multiRetry (ids : List Nat)
deriving DecidableEq

inductive Waiter where
  | p (id : Nat)
  | multi (ids : List Nat) (wait : Nat)
deriving DecidableEq

def Waiter.chan : Waiter → Nat
  | p id => id
  | multi _ wait => wait

/-- What a process does when it has released its locks. -/
inductive Next where
  | done
  | took (ids : List Nat)
  | sleep (w : Waiter)
  | back (ids : List Nat)
  | again (ids : List Nat)
deriving DecidableEq

/-- Where a process is: it acquires the locks `todo` after those held, releases them, or sleeps. -/
inductive Pc where
  | idle
  | acquiring (sec : Section) (held todo : List Nat)
  | releasing (todo : List Nat) (next : Next)
  | asleep (w : Waiter)
deriving DecidableEq

/-- The semaphores of a table or a set. Not of the kernel: from `initial` on, the units `granted`,
acquisitions that `returned` 0, and what a call has `taken`. -/
structure SemState where
  size : Nat
  allocated : Nat → Bool
  count : Nat → Int
  waiters : Nat → Int
  owner : Nat → Nat
  lock : Nat → Option ProcSlot
  pc : ProcSlot → Pc
  killed : ProcSlot → Bool
  initial : Nat → Int
  completed : Nat → Nat
  granted : Nat → Nat
  returned : Nat → Nat
  taken : ProcSlot → Nat → Int

def SemState.setPc (s : SemState) (p : ProcSlot) (c : Pc) : SemState :=
  { s with pc := update s.pc p c }

def SemState.setLock (s : SemState) (x : Nat) (o : Option ProcSlot) : SemState :=
  { s with lock := update s.lock x o }

def SemState.take (s : SemState) (p : ProcSlot) (id : Nat) : SemState :=
  { s with
    count := update s.count id (int32 (s.count id - 1))
    taken := update s.taken p (update (s.taken p) id (s.taken p id + 1)) }

def SemState.untake (s : SemState) (p : ProcSlot) (id : Nat) : SemState :=
  { s with
    count := update s.count id (int32 (s.count id + 1))
    taken := update s.taken p (update (s.taken p) id (s.taken p id - 1)) }

def SemState.give (s : SemState) (id : Nat) : SemState :=
  { s with count := update s.count id (int32 (s.count id + 1)) }

def SemState.addWaiters (s : SemState) (id : Nat) (d : Int) : SemState :=
  { s with waiters := update s.waiters id (s.waiters id + d) }

def SemState.setOwner (s : SemState) (id pid : Nat) : SemState :=
  { s with owner := update s.owner id pid }

def SemState.own (s : SemState) (p : ProcSlot) (id : Nat) : SemState :=
  if s.count id = 0 then s.setOwner id (pidOf p)
  else if 0 < s.count id then s.setOwner id 0
  else s

def SemState.grant (s : SemState) (id : Nat) : SemState :=
  { s with granted := update s.granted id (s.granted id + 1) }

def SemState.returnWith (s : SemState) (p : ProcSlot) (ids : List Nat) : SemState :=
  { s with
    returned := fun i => s.returned i + ids.count i
    taken := update s.taken p fun _ => 0 }

def SemState.complete (s : SemState) (id : Nat) : SemState :=
  { s with completed := update s.completed id (s.completed id + 1) }

def SemState.chan (s : SemState) (q : ProcSlot) : Option Nat :=
  match s.pc q with
  | .asleep w => some w.chan
  | _ => none

def SemState.chase (s : SemState) (me : ProcSlot) : Nat → Nat → Bool
  | 0, _ => false
  | n + 1, pid =>
    if pid = 0 then false
    else if pid = pidOf me then true
    else
      match (List.finRange NPROC).find? (fun q => pidOf q = pid) with
      | none => false
      | some q =>
        match s.chan q with
        | none => false
        | some chan => s.chase me n (s.owner chan)

def SemState.deadlockDetect (s : SemState) (me : ProcSlot) (id : Nat) : Bool :=
  s.chase me NPROC (s.owner id)

def Waiter.woken : Waiter → Pc
  | p id => .acquiring (.pBack id) [] [id]
  | multi ids wait => .acquiring (.multiBack ids wait) [] [wait]

def SemState.wake (s : SemState) (q : ProcSlot) : SemState :=
  match s.pc q with
  | .asleep w => s.setPc q w.woken
  | _ => s

/-- The unit that a call of `sem_v` hands to the process that it wakes from `sem_p`. -/
def SemState.grantTo (s : SemState) (q : ProcSlot) : SemState :=
  match s.pc q with
  | .asleep (.p id) => s.grant id
  | _ => s

def SemState.wakeupOneProc (s : SemState) (id : Nat) : SemState :=
  match (List.finRange NPROC).find? (fun q => s.chan q = some id) with
  | none => s
  | some q => (s.grantTo q).wake q

def SemState.goto (s : SemState) (p : ProcSlot) : Next → SemState
  | .done => (s.returnWith p []).setPc p .idle
  | .took ids => (s.returnWith p ids).setPc p .idle
  | .sleep w => s.setPc p (.asleep w)
  | .back ids => s.setPc p (.acquiring (.multiRetry ids) [] ids)
  | .again ids => s.setPc p (.acquiring (.multi ids true) [] ids)

def SemState.drop (s : SemState) (p : ProcSlot) : List Nat → Next → SemState
  | [], next => s.goto p next
  | [x], next => (s.setLock x none).goto p next
  | x :: y :: rest, next => (s.setLock x none).setPc p (.releasing (y :: rest) next)

/-- What is left after a part of a call: the locks to release, in this order, and the rest. -/
structure Exit where
  state : SemState
  locks : List Nat
  next : Next

def SemState.semP (s : SemState) (p : ProcSlot) (id : Nat) : Exit :=
  if s.allocated id = false then ⟨s, [id], .done⟩
  else if (s.take p id).count id < 0 then
    if (s.take p id).deadlockDetect p id = true then ⟨(s.take p id).untake p id, [id], .done⟩
    else ⟨(s.take p id).addWaiters id 1, [id], .sleep (.p id)⟩
  else ⟨((s.take p id).own p id).grant id, [id], .took [id]⟩

def SemState.semPBack (s : SemState) (p : ProcSlot) (id : Nat) : Exit :=
  ⟨(s.addWaiters id (-1)).own p id, [id], .took [id]⟩

def SemState.post (s : SemState) (id : Nat) : SemState := ((s.give id).setOwner id 0).complete id

def SemState.semV (s : SemState) (id : Nat) : Exit :=
  if s.allocated id = false then ⟨s, [id], .done⟩
  else if (s.post id).count id ≤ 0 ∨ 0 < (s.post id).waiters id then
    ⟨(s.post id).wakeupOneProc id, [id], .done⟩
  else ⟨s.post id, [id], .done⟩

def SemState.takeOne (p : ProcSlot) (s : SemState) (id : Nat) : SemState :=
  ((s.take p id).own p id).grant id

def SemState.semPMulti (s : SemState) (p : ProcSlot) (ids : List Nat) : Exit :=
  if ids.any (fun id => s.allocated id = false) = true then ⟨s, ids, .done⟩
  else
    match ids.find? (fun id => s.count id ≤ 0) with
    | none => ⟨ids.foldl (SemState.takeOne p) s, ids, .took ids⟩
    | some wait =>
      if s.deadlockDetect p wait = true then ⟨s, ids, .done⟩
      else
        ⟨ids.foldl (fun s id => s.addWaiters id 1) s, ids.filter (· ≠ wait) ++ [wait],
          .sleep (.multi ids wait)⟩

def SemState.semPMultiRetry (s : SemState) (ids : List Nat) : Exit :=
  ⟨ids.foldl (fun s id => s.addWaiters id (-1)) s, ids, .again ids⟩

def SemState.body (s : SemState) (p : ProcSlot) : Section → Exit
  | .p id => s.semP p id
  | .pBack id => s.semPBack p id
  | .v id => s.semV id
  | .multi ids _ => s.semPMulti p ids
  | .multiBack ids wait => ⟨s, [wait], .back ids⟩
  | .multiRetry ids => s.semPMultiRetry ids

def Exit.leave (e : Exit) (p : ProcSlot) : SemState := e.state.drop p e.locks e.next

inductive Call where
  | p (id : Int)
  | v (id : Int)
  | multi (ids : List Int)
deriving DecidableEq

/-- The identifiers of `sem_p_multi` in increasing order, if they pass its checks. -/
def sortedIds (size : Nat) (ids : List Int) : Option (List Nat) :=
  let l := ids.insertionSort (· ≤ ·)
  if ids.length = 0 ∨ size < ids.length then none
  else if (∀ id ∈ l, 0 ≤ id ∧ id < size) ∧ l.Pairwise (· ≠ ·) then some (l.map Int.toNat)
  else none

def Call.section (size : Nat) : Call → Option Section
  | p id => if 0 ≤ id ∧ id < size then some (.p id.toNat) else none
  | v id => if 0 ≤ id ∧ id < size then some (.v id.toNat) else none
  | multi ids => (sortedIds size ids).map fun l => .multi l false

def Section.locks : Section → List Nat
  | p id | pBack id | v id => [id]
  | multi ids _ | multiRetry ids => ids
  | multiBack _ wait => [wait]

inductive Event where
  | call (p : ProcSlot) (c : Call)
  | acquire (p : ProcSlot)
  | run (p : ProcSlot)
  | release (p : ProcSlot)
  | kill (p : ProcSlot)
deriving DecidableEq

/-- A step of a process: the start of a call, a lock taken or released, a part with locks held, or
`kill`. -/
def fire (s : SemState) : Event → Option SemState
  | .call p c =>
    if s.pc p = .idle ∧ s.killed p = false then
      match c.section s.size with
      | none => some s
      | some sec => some (s.setPc p (.acquiring sec [] sec.locks))
    else none
  | .acquire p =>
    match s.pc p with
    | .acquiring sec held (x :: todo) =>
      if s.lock x = none then some
        ((s.setLock x (some p)).setPc p (.acquiring sec (held ++ [x]) todo))
      else none
    | _ => none
  | .run p =>
    match s.pc p with
    | .acquiring sec _ [] => some ((s.body p sec).leave p)
    | _ => none
  | .release p =>
    match s.pc p with
    | .releasing todo next => some (s.drop p todo next)
    | _ => none
  | .kill p => some ({ s with killed := update s.killed p true }.wake p)

/-- All semaphores have their initial counts, and no call is in progress. -/
structure Started (s : SemState) : Prop where
  count : s.count = s.initial
  range : ∀ i, 0 ≤ s.initial i ∧ s.initial i < 2 ^ 31
  waiters : ∀ i, s.waiters i = 0
  owner : ∀ i, s.owner i = 0
  lock : ∀ x, s.lock x = none
  pc : ∀ p, s.pc p = .idle
  completed : ∀ i, s.completed i = 0
  granted : ∀ i, s.granted i = 0
  returned : ∀ i, s.returned i = 0
  taken : ∀ p i, s.taken p i = 0

attribute [local grind =] update_apply

def Section.Starts : Section → Prop
  | .p _ | .v _ | .multi _ _ => True
  | _ => False

inductive Ran (s : SemState) (p : ProcSlot) : Section → Exit → Prop
  | unallocated {sec : Section} {id : Nat} (hsec : sec.Starts) (hid : id ∈ sec.locks)
    (halloc : s.allocated id = false) : Ran s p sec ⟨s, sec.locks, .done⟩
  | deadlockP {id : Nat} (hneg : int32 (s.count id - 1) < 0) : Ran s p (.p id) ⟨s, [id], .done⟩
  | sleepP {id : Nat} (halloc : s.allocated id = true) (hneg : int32 (s.count id - 1) < 0) :
    Ran s p (.p id) ⟨(s.take p id).addWaiters id 1, [id], .sleep (.p id)⟩
  | tookP {id : Nat} (hpos : 0 ≤ int32 (s.count id - 1)) :
    Ran s p (.p id) ⟨s.takeOne p id, [id], .took [id]⟩
  | backP {id : Nat} : Ran s p (.pBack id) ⟨(s.addWaiters id (-1)).own p id, [id], .took [id]⟩
  | quiet {id : Nat} (hquiet : (∀ q, s.chan q ≠ some id) ∨ s.waiters id ≤ 0) :
    Ran s p (.v id) ⟨s.post id, [id], .done⟩
  | woke {q : ProcSlot} {w : Waiter} {id : Nat} (hchan : s.pc q = .asleep w) (hid : w.chan = id) :
    Ran s p (.v id) ⟨((s.post id).grantTo q).wake q, [id], .done⟩
  | deadlockMulti {ids : List Nat} {wait : Nat} {again : Bool}
    (hwait : ids.find? (fun id => s.count id ≤ 0) = some wait)
    (hcycle : s.deadlockDetect p wait = true) : Ran s p (.multi ids again) ⟨s, ids, .done⟩
  | tookMulti {ids : List Nat} {again : Bool} (hpos : ∀ id ∈ ids, 0 < s.count id) :
    Ran s p (.multi ids again) ⟨ids.foldl (SemState.takeOne p) s, ids, .took ids⟩
  | sleepMulti {ids : List Nat} {wait : Nat} {again : Bool}
    (halloc : ∀ id ∈ ids, s.allocated id = true) (hmem : wait ∈ ids) (hwait : s.count wait ≤ 0)
    (hacyclic : s.deadlockDetect p wait = false) :
    Ran s p (.multi ids again) ⟨{ s with waiters := fun i => s.waiters i + ids.count i },
      ids.filter (· ≠ wait) ++ [wait], .sleep (.multi ids wait)⟩
  | backMulti {ids : List Nat} {wait : Nat} : Ran s p (.multiBack ids wait) ⟨s, [wait], .back ids⟩
  | retry {ids : List Nat} : Ran s p (.multiRetry ids)
    ⟨{ s with waiters := fun i => s.waiters i - ids.count i }, ids, .again ids⟩

def Exit.hold (e : Exit) (p : ProcSlot) : SemState := e.state.setPc p (.releasing e.locks e.next)

inductive Fired (s : SemState) : Event → SemState → Prop
  | refused {p : ProcSlot} {c : Call} : Fired s (.call p c) s
  | called {p : ProcSlot} {c : Call} {sec : Section} (hpc : s.pc p = .idle)
    (hsec : Call.section s.size c = some sec) :
    Fired s (.call p c) (s.setPc p (.acquiring sec [] sec.locks))
  | acquired {p : ProcSlot} {sec : Section} {held todo : List Nat} {x : Nat}
    (hpc : s.pc p = .acquiring sec held (x :: todo)) (hlock : s.lock x = none) :
    Fired s (.acquire p) ((s.setLock x (some p)).setPc p (.acquiring sec (held ++ [x]) todo))
  | ran {p : ProcSlot} {sec : Section} {held : List Nat} {e : Exit}
    (hpc : s.pc p = .acquiring sec held []) (hran : Ran s p sec e) :
    Fired s (.run p) ((e.hold p).drop p e.locks e.next)
  | released {p : ProcSlot} {todo : List Nat} {next : Next} (hpc : s.pc p = .releasing todo next) :
    Fired s (.release p) (s.drop p todo next)
  | killed {p : ProcSlot} : Fired s (.kill p) ({ s with killed := update s.killed p true }.wake p)

variable {s s' : SemState} {p q : ProcSlot} {i id wait : Nat} {ids todo held : List Nat}
  {sec : Section} {next : Next} {w : Waiter} {e : Exit} {ev : Event} {again : Bool}

theorem int32_add (x y : Int) : int32 (int32 x + y) = int32 (x + y) := Int.bmod_add_bmod

theorem int32_idem (x : Int) : int32 (int32 x) = int32 x := Int.bmod_bmod

theorem int32_of_range (hlo : -2 ^ 31 ≤ x) (hhi : x < 2 ^ 31) : int32 x = x :=
  Int.bmod_eq_of_le (by omega) (by omega)

theorem int32_range (x : Int) : -2 ^ 31 ≤ int32 x ∧ int32 x < 2 ^ 31 :=
  ⟨Int.le_bmod (by decide), Int.bmod_lt (by decide)⟩

theorem Call.section_starts {size : Nat} {c : Call} (h : c.section size = some sec) :
    sec.Starts := by
  cases c with
  | p id | v id =>
    obtain ⟨-, rfl⟩ := of_guarded h
    trivial
  | multi ids =>
    simp only [Call.section, Option.map_eq_some_iff] at h
    obtain ⟨l, -, rfl⟩ := h
    trivial

def SemState.InRange (s : SemState) : Prop := ∀ i, int32 (s.count i) = s.count i

theorem untake_take (h : s.InRange) : (s.take p id).untake p id = s := by
  have hcount : int32 (int32 (s.count id - 1) + 1) = s.count id := by
    rw [int32_add, sub_add_cancel]
    exact h id
  unfold SemState.untake SemState.take
  simp only [update_self, update_idem, hcount, add_sub_cancel_right,
    update_eq_self]

def ownerAfter (n : Int) (pid old : Nat) : Nat := if n = 0 then pid else if 0 < n then 0 else old

theorem own_eq : s.own p id = s.setOwner id (ownerAfter (s.count id) (pidOf p) (s.owner id)) := by
  unfold SemState.own ownerAfter
  split
  · rfl
  · split
    · rfl
    · exact (congrArg (fun o => ({ s with owner := o } : SemState))
        (update_eq_self id s.owner)).symm

structure Taken (s s' : SemState) (p : ProcSlot) (ids : List Nat) : Prop where
  frame : s' = { s with
    count := s'.count, owner := s'.owner, granted := s'.granted, taken := s'.taken }
  count : ∀ i, s'.count i = if i ∈ ids then int32 (s.count i - 1) else s.count i
  owner : ∀ i, s'.owner i =
    if i ∈ ids then ownerAfter (int32 (s.count i - 1)) (pidOf p) (s.owner i) else s.owner i
  granted : ∀ i, s'.granted i = s.granted i + ids.count i
  taken : ∀ i, s'.taken p i = s.taken p i + ids.count i
  others : ∀ q, q ≠ p → s'.taken q = s.taken q

theorem Taken.nil (s : SemState) (p : ProcSlot) : Taken s s p [] :=
  ⟨rfl, fun _ => rfl, fun _ => rfl, fun _ => rfl, fun _ => (Int.add_zero _).symm, fun _ _ => rfl⟩

theorem takeOne_eq : s.takeOne p id = { s with
    count := update s.count id (int32 (s.count id - 1))
    owner := update s.owner id
      (ownerAfter (int32 (s.count id - 1)) (pidOf p) (s.owner id))
    granted := update s.granted id (s.granted id + 1)
    taken := update s.taken p (update (s.taken p) id (s.taken p id + 1)) } := by
  unfold SemState.takeOne
  rw [own_eq]
  simp only [SemState.take, SemState.setOwner, SemState.grant, update_self]

theorem Taken.cons (hid : id ∉ ids) (h : Taken (s.takeOne p id) s' p ids) :
    Taken s s' p (id :: ids) := by
  rw [takeOne_eq] at h
  have hne {i : Nat} (hi : i ∈ ids) : i ≠ id := fun he => hid (he ▸ hi)
  refine ⟨h.frame, fun i => ?_, fun i => ?_, fun i => ?_, fun i => ?_, fun q hq => ?_⟩
  · rw [h.count]
    by_cases hi : i = id
    · subst hi
      rw [if_neg hid, if_pos List.mem_cons_self]
      exact update_self ..
    · simp only [List.mem_cons, hi, false_or]
      rw [update_of_ne hi]
  · rw [h.owner]
    by_cases hi : i = id
    · subst hi
      rw [if_neg hid, if_pos List.mem_cons_self]
      exact update_self ..
    · simp only [List.mem_cons, hi, false_or]
      rw [update_of_ne hi, update_of_ne hi]
  · rw [h.granted, List.count_cons]
    by_cases hi : i = id
    · subst hi
      simp only [update_self, BEq.rfl, ↓reduceIte]
      omega
    · simp only [update_of_ne hi, beq_iff_eq, Ne.symm hi, ↓reduceIte, add_zero]
  · rw [h.taken, List.count_cons]
    by_cases hi : i = id
    · subst hi
      simp only [update_self, BEq.rfl, ↓reduceIte]
      omega
    · simp only [update_self, update_of_ne hi, beq_iff_eq, Ne.symm hi, ↓reduceIte,
        add_zero]
  · rw [h.others q hq]
    exact update_of_ne hq _ _

theorem foldl_takeOne (h : ids.Nodup) : Taken s (ids.foldl (SemState.takeOne p) s) p ids := by
  induction ids generalizing s with
  | nil => exact .nil s p
  | cons id ids ih =>
    obtain ⟨hid, hrest⟩ := List.nodup_cons.1 h
    exact .cons hid (ih hrest)

theorem takeOne_taken : Taken s (s.takeOne p id) p [id] :=
  .cons List.not_mem_nil (.nil _ p)

theorem foldl_addWaiters (d : Int) : ids.foldl (fun s id => SemState.addWaiters s id d) s =
    { s with waiters := fun i => s.waiters i + d * ids.count i } := by
  induction ids generalizing s with
  | nil => simp only [List.foldl_nil, List.count_nil, Nat.cast_zero, mul_zero, add_zero]
  | cons id ids ih =>
    rw [List.foldl_cons, ih]
    simp only [SemState.addWaiters, SemState.mk.injEq, true_and, and_true]
    funext i
    rw [List.count_cons]
    by_cases hi : i = id
    · subst hi
      simp only [update_self, BEq.rfl, ↓reduceIte, Nat.cast_add, Nat.cast_one]
      rw [mul_add_one, add_assoc, add_comm d]
    · simp only [update_of_ne hi, beq_iff_eq, Ne.symm hi, ↓reduceIte, add_zero]

theorem ran_semP (h : s.InRange) : Ran s p (.p id) (s.semP p id) := by
  have hcount : (s.take p id).count id = int32 (s.count id - 1) := update_self ..
  unfold SemState.semP
  rw [hcount, untake_take h]
  split
  · next halloc => exact .unallocated trivial List.mem_cons_self halloc
  · next halloc =>
    split
    · next hneg =>
      split
      · exact .deadlockP hneg
      · exact .sleepP (Bool.eq_true_of_not_eq_false halloc) hneg
    · next hpos => exact .tookP (not_lt.1 hpos)

theorem ran_semV : Ran s p (.v id) (s.semV id) := by
  unfold SemState.semV
  split
  · next halloc => exact .unallocated trivial List.mem_cons_self halloc
  · split
    · unfold SemState.wakeupOneProc
      split
      · next hnone =>
        refine .quiet (.inl fun q hq => ?_)
        have := List.find?_eq_none.1 hnone q (List.mem_finRange q)
        exact this (decide_eq_true hq)
      · next q hsome =>
        have hfound := List.find?_some hsome
        have hq : s.chan q = some id := of_decide_eq_true hfound
        unfold SemState.chan at hq
        split at hq
        · next w hpc => exact .woke hpc (Option.some.inj hq)
        · cases hq
    · next hno => exact .quiet (.inr (not_lt.1 fun h => hno (.inr h)))

theorem ran_semPMulti : Ran s p (.multi ids again) (s.semPMulti p ids) := by
  unfold SemState.semPMulti
  split
  · next hany =>
    obtain ⟨id, hid, halloc⟩ := List.any_eq_true.1 hany
    exact .unallocated trivial hid (of_decide_eq_true halloc)
  · next hall =>
    split
    · next hnone =>
      refine .tookMulti fun id hid => ?_
      have := List.find?_eq_none.1 hnone id hid
      exact not_le.1 fun hle => this (decide_eq_true hle)
    · next wait hsome =>
      split
      · next hcycle => exact .deadlockMulti hsome hcycle
      · next hacyclic =>
        have hfound := List.find?_some hsome
        rw [foldl_addWaiters]
        simp only [one_mul]
        refine .sleepMulti (fun id hid => ?_) (List.mem_of_find?_eq_some hsome)
          (of_decide_eq_true hfound) (Bool.eq_false_of_not_eq_true hacyclic)
        refine Bool.eq_true_of_not_eq_false fun halloc => hall ?_
        exact List.any_eq_true.2 ⟨id, hid, decide_eq_true halloc⟩

theorem ran_body (h : s.InRange) (p : ProcSlot) (sec : Section) : Ran s p sec (s.body p sec) := by
  cases sec with
  | p id => exact ran_semP h
  | pBack id => exact .backP
  | v id => exact ran_semV
  | multi ids again => exact ran_semPMulti
  | multiBack ids wait => exact .backMulti
  | multiRetry ids =>
    show Ran s p (.multiRetry ids) (s.semPMultiRetry ids)
    unfold SemState.semPMultiRetry
    rw [foldl_addWaiters]
    simp only [neg_one_mul, ← sub_eq_add_neg]
    exact .retry

theorem setPc_setPc (c d : Pc) : (s.setPc p c).setPc p d = s.setPc p d := by
  simp only [SemState.setPc, update_idem]

theorem goto_setPc (c : Pc) : (s.setPc p c).goto p next = s.goto p next := by
  cases next <;> simp only [SemState.goto, SemState.returnWith, SemState.setPc, update_idem]

theorem wake_eq (hq : s.pc q = .asleep w) : s.wake q = s.setPc q w.woken := by
  unfold SemState.wake
  rw [hq]

theorem grantTo_wake_p (hq : s.pc q = .asleep (.p id)) :
    (s.grantTo q).wake q = (s.grant id).setPc q (Waiter.p id).woken := by
  have hgrant : s.grantTo q = s.grant id := by
    unfold SemState.grantTo
    rw [hq]
  rw [hgrant]
  exact wake_eq (s := s.grant id) hq

theorem grantTo_wake_multi (hq : s.pc q = .asleep (.multi ids wait)) :
    (s.grantTo q).wake q = s.setPc q (Waiter.multi ids wait).woken := by
  have hgrant : s.grantTo q = s := by
    unfold SemState.grantTo
    rw [hq]
  rw [hgrant]
  exact wake_eq hq

theorem grantTo_pc (s : SemState) (q : ProcSlot) : (s.grantTo q).pc = s.pc := by
  unfold SemState.grantTo
  split <;> rfl

theorem wake_grantTo_pc_of_ne (hne : p ≠ q) : ((s.grantTo q).wake q).pc p = s.pc p := by
  unfold SemState.wake
  split
  · show update (s.grantTo q).pc q _ p = _
    rw [update_of_ne hne, grantTo_pc]
  · rw [grantTo_pc]

structure Near (s s' : SemState) : Prop where
  size : s'.size = s.size
  allocated : s'.allocated = s.allocated
  lock : s'.lock = s.lock
  initial : s'.initial = s.initial
  returned : s'.returned = s.returned
  pc : ∀ q, s'.pc q = s.pc q ∨ ∃ w, s.pc q = .asleep w ∧ s'.pc q = w.woken

theorem Near.rfl : Near s s :=
  ⟨.refl _, .refl _, .refl _, .refl _, .refl _, fun _ => .inl (.refl _)⟩

theorem Near.trans (h : Near s s₁) (h' : Near s₁ s') : Near s s' := by
  refine ⟨h'.size.trans h.size, h'.allocated.trans h.allocated, h'.lock.trans h.lock,
    h'.initial.trans h.initial, h'.returned.trans h.returned, fun q => ?_⟩
  obtain hpc | ⟨w, hw, hpc⟩ := h.pc q
  · rw [← hpc]
    exact h'.pc q
  · obtain hpc' | ⟨w', hw', -⟩ := h'.pc q
    · exact .inr ⟨w, hw, hpc'.trans hpc⟩
    · rw [hpc] at hw'
      cases w <;> cases hw'

theorem takeOne_near : Near s (s.takeOne p id) := by
  rw [takeOne_eq]
  exact ⟨rfl, rfl, rfl, rfl, rfl, fun _ => .inl rfl⟩

theorem grantTo_near (s : SemState) (q : ProcSlot) : Near s (s.grantTo q) := by
  unfold SemState.grantTo
  split <;> exact ⟨rfl, rfl, rfl, rfl, rfl, fun _ => .inl rfl⟩

theorem foldl_takeOne_near : Near s (ids.foldl (SemState.takeOne p) s) := by
  induction ids generalizing s with
  | nil => exact .rfl
  | cons id ids ih => exact takeOne_near.trans ih

theorem wake_near (s : SemState) (q : ProcSlot) : Near s (s.wake q) := by
  unfold SemState.wake
  split
  · next w hpc =>
    refine ⟨rfl, rfl, rfl, rfl, rfl, fun r => ?_⟩
    by_cases hr : r = q
    · subst hr
      exact .inr ⟨w, hpc, update_self ..⟩
    · exact .inl (update_of_ne hr _ _)
  · exact .rfl

theorem kill_near (s : SemState) (p : ProcSlot) :
    Near s ({ s with killed := update s.killed p true }.wake p) := by
  have hset : Near s { s with killed := update s.killed p true } :=
    ⟨rfl, rfl, rfl, rfl, rfl, fun _ => .inl rfl⟩
  exact hset.trans (wake_near _ p)

theorem Ran.near (h : Ran s p sec e) : Near s e.state := by
  cases h with
  | tookP => exact takeOne_near
  | tookMulti => exact foldl_takeOne_near
  | backP =>
    rw [own_eq]
    exact ⟨rfl, rfl, rfl, rfl, rfl, fun _ => .inl rfl⟩
  | @woke q w id =>
    have hpost : Near s (s.post id) := ⟨rfl, rfl, rfl, rfl, rfl, fun _ => .inl rfl⟩
    exact (hpost.trans (grantTo_near _ q)).trans (wake_near _ q)
  | _ => exact ⟨rfl, rfl, rfl, rfl, rfl, fun _ => .inl rfl⟩

theorem leave_eq (e : Exit) (p : ProcSlot) : e.leave p = (e.hold p).drop p e.locks e.next := by
  obtain ⟨s, locks, next⟩ := e
  unfold Exit.leave Exit.hold
  match locks with
  | [] => exact (goto_setPc _).symm
  | [x] => exact (goto_setPc (s := s.setLock x none) _).symm
  | x :: y :: rest => exact (setPc_setPc (s := s.setLock x none) _ _).symm

theorem fired_of_fire (h : s.InRange) (hfire : fire s ev = some s') : Fired s ev s' := by
  cases ev with
  | call p c =>
    simp only [fire] at hfire
    split at hfire
    · next hidle =>
      split at hfire
      · cases hfire
        exact .refused
      · next sec hsec =>
        cases hfire
        exact .called hidle.1 hsec
    · cases hfire
  | acquire p =>
    simp only [fire] at hfire
    split at hfire
    · next sec held x todo hpc =>
      obtain ⟨hlock, rfl⟩ := of_guarded hfire
      exact .acquired hpc hlock
    · cases hfire
  | run p =>
    simp only [fire] at hfire
    split at hfire
    · next sec held hpc =>
      cases hfire
      rw [leave_eq]
      exact .ran hpc (ran_body h p sec)
    · cases hfire
  | release p =>
    simp only [fire] at hfire
    split at hfire
    · next todo next hpc =>
      cases hfire
      exact .released hpc
    · cases hfire
  | kill p =>
    cases hfire
    exact .killed

end OopsOS.Sem
