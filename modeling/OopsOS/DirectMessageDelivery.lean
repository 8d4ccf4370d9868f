import OopsOS.Procs
import OopsOS.Traces

namespace OopsOS.Delivery
set_option autoImplicit true
open Function

/-- A message; the kernel does not keep the pid `target` that `dmsgsend` was called with. -/
structure Dmsg where
  sender : Nat
  data : List UInt8
  target : Nat
deriving DecidableEq

/-- A process is outside the calls, asleep in `dmsgsend` at slot `p`, or in `exit` past
`dmsg_close`. -/
inductive Pc where
  | away
  | sending (p : ProcSlot) (m : Dmsg)
  | exiting
deriving DecidableEq

/-- The process table and the queues. Not of the kernel: who received what, and the results of
`dmsgsend`. -/
structure State extends Procs where
  pid : ProcSlot → Nat
  nextpid : Nat
  dmsgs : ProcSlot → List Dmsg
  dmsg_closed : ProcSlot → Bool
  pc : ProcSlot → Pc
  received : List (Nat × Dmsg)
  returned : List (Dmsg × Int)

/-- The critical sections. `fork` may fail with the pid in the slot or without; `exit` first closes
the queue. -/
inductive Event where
  | fork (c np : ProcSlot)
  | forkFails (np : ProcSlot) (freed : Bool)
  | send (c p : ProcSlot) (target : Nat) (data : List UInt8) (ok : Bool)
  | resume (c : ProcSlot) (ok : Bool)
  | rcv (p : ProcSlot) (len : Nat)
  | exit (p : ProcSlot)
  | die (p : ProcSlot)
  | wait (c p : ProcSlot)

variable {s s' : State} {e : Event} {es : List Event} {c p np : ProcSlot} {m : Dmsg} {ok : Bool}

def State.allocproc (s : State) (np : ProcSlot) : State :=
  { s with
    pid := update s.pid np s.nextpid
    nextpid := s.nextpid + 1
    dmsgs := update s.dmsgs np []
    dmsg_closed := update s.dmsg_closed np false }

def State.freeproc (s : State) (p : ProcSlot) : State :=
  { s with toProcs := s.vacate p, pid := update s.pid p 0 }

def State.dmsgsend (s : State) (c p : ProcSlot) (m : Dmsg) (ok : Bool) : State :=
  if (s.dmsgs p).length ≥ DMSG_QUEUE_MAX then { s with pc := update s.pc c (.sending p m) }
  else if ok then
    { s with
      dmsgs := update s.dmsgs p (s.dmsgs p ++ [m])
      pc := update s.pc c .away
      returned := (m, 0) :: s.returned }
  else { s with pc := update s.pc c .away, returned := (m, -1) :: s.returned }

/-- `sys_dmsgrcv`; a call that returns early changes nothing, one at an empty queue sleeps. -/
def State.dmsgrcv (s : State) (p : ProcSlot) (len : Nat) : Option State :=
  match s.dmsgs p with
  | [] => none
  | m :: ms =>
    if len < m.data.length then some s
    else some { s with dmsgs := update s.dmsgs p ms, received := (s.pid p, m) :: s.received }

def State.dmsg_close (s : State) (p : ProcSlot) : State :=
  { s with dmsgs := update s.dmsgs p [], dmsg_closed := update s.dmsg_closed p true }

def fire (s : State) : Event → Option State
  | .fork c np =>
    if s.state c = .live ∧ s.pc c = .away ∧ s.state np = .unused then
      some { s.allocproc np with toProcs := s.start np (some c) none }
    else none
  | .forkFails np freed =>
    if s.state np = .unused then
      some (if freed then (s.allocproc np).freeproc np else s.allocproc np)
    else none
  | .send c p target data ok =>
    if s.state c = .live ∧ s.pc c = .away ∧ 0 < target ∧ data.length ≤ DMSG_MAX ∧
        s.pid p = target ∧ s.state p ≠ .unused then
      let m := ⟨s.pid c, data, target⟩
      if s.dmsg_closed p then some { s with returned := (m, -1) :: s.returned }
      else some (s.dmsgsend c p m ok)
    else none
  | .resume c ok =>
    match s.pc c with
    | .sending p m =>
      if s.dmsg_closed p then
        some { s with pc := update s.pc c .away, returned := (m, -1) :: s.returned }
      else some (s.dmsgsend c p m ok)
    | _ => none
  | .rcv p len => if s.state p = .live ∧ s.pc p = .away then s.dmsgrcv p len else none
  | .exit p =>
    if s.state p = .live ∧ s.pc p = .away then
      some { s.dmsg_close p with pc := update s.pc p .exiting }
    else none
  | .die p =>
    if s.pc p = .exiting then
      some { s with toProcs := s.toProcs.exit p, pc := update s.pc p .away }
    else none
  | .wait c p =>
    if s.state c = .live ∧ s.pc c = .away ∧ s.parent p = some c ∧ s.state p = .zombie then
      some (s.freeproc p)
    else none

def boot : State := ⟨Procs.boot, fun p => if p = 0 then 1 else 0, 2, fun _ => [], fun _ => false,
  fun _ => .away, [], []⟩

/-- Every message is in the queue of the live process it was sent to, or was received by it. -/
def State.Addressed (s : State) : Prop :=
  (∀ p, ∀ m ∈ s.dmsgs p, m.target = s.pid p ∧ s.state p = .live ∧ s.dmsg_closed p = false) ∧
  ∀ x ∈ s.received, x.2.target = x.1

/-- A sender that goes on after it slept finds the process it looked up. -/
def Current (s : State) : Event → Prop
  | .resume c ok => ∀ p m, s.pc c = .sending p m → s.dmsg_closed p = false →
      (s.dmsgs p).length < DMSG_QUEUE_MAX → ok → m.target = s.pid p
  | _ => True

/-- -1 changes no queue, and 0 is returned if the live addressee has got `m`. -/
def State.Answered (s s' : State) (m : Dmsg) (r : Int) : Prop :=
  r = -1 ∧ s'.dmsgs = s.dmsgs ∨ r = 0 ∧ ∃ p, s.pid p = m.target ∧ s.state p = .live ∧
    s.dmsg_closed p = false ∧ s'.dmsgs = update s.dmsgs p (s.dmsgs p ++ [m])

def Told (s : State) (e : Event) : Prop :=
  ∀ s' m r, fire s e = some s' → s'.returned = (m, r) :: s.returned → s.Answered s' m r

structure Inv (s : State) : Prop where
  addressed : s.Addressed
  fresh : ∀ p, s.pid p < s.nextpid
  lookedUp : ∀ c p m, s.pc c = .sending p m →
    m.target < s.nextpid ∧ 0 < m.target ∧ (m.target = s.pid p → s.state p ≠ .unused)
  shut : ∀ p, s.state p = .zombie ∨ s.pc p = .exiting → s.dmsg_closed p = true
  busy : ∀ c, s.pc c ≠ .away → s.state c = .live

attribute [local grind =] update_apply

theorem Inv.dmsgsend (h : Inv s) (hc : s.state c = .live) (hm : m.target < s.nextpid)
    (hpos : 0 < m.target) (hopen : s.dmsg_closed p = false)
    (hused : m.target = s.pid p → s.state p ≠ .unused)
    (hto : (s.dmsgs p).length < DMSG_QUEUE_MAX → ok → m.target = s.pid p) :
    Inv (s.dmsgsend c p m ok) := by
  obtain ⟨⟨hqueue, hrec⟩, hfresh, hlook, hshut, hbusy⟩ := h
  have hlive : s.state p ≠ .unused → s.state p = .live := by
    cases hp : s.state p <;> grind
  unfold State.dmsgsend
  split
  · exact ⟨⟨hqueue, hrec⟩, hfresh, by grind, by grind, by grind⟩
  · split
    · exact ⟨⟨by grind, hrec⟩, hfresh, by grind, by grind, by grind⟩
    · exact ⟨⟨hqueue, hrec⟩, hfresh, by grind, by grind, by grind⟩

theorem Inv.fire (h : Inv s) (hcur : Current s e) (hf : fire s e = some s') : Inv s' := by
  cases e with
  | fork c np =>
    obtain ⟨⟨hc, hu, hnp⟩, rfl⟩ := of_guarded hf
    obtain ⟨⟨hqueue, hrec⟩, hfresh, hlook, hshut, hbusy⟩ := h
    simp only [State.allocproc, Procs.start]
    exact ⟨⟨by grind, hrec⟩, by grind, by grind, by grind, by grind⟩
  | forkFails np freed =>
    obtain ⟨hnp, rfl⟩ := of_guarded hf
    obtain ⟨⟨hqueue, hrec⟩, hfresh, hlook, hshut, hbusy⟩ := h
    cases freed <;> simp only [State.allocproc, State.freeproc, Procs.vacate] <;>
      exact ⟨⟨by grind, hrec⟩, by grind, by grind, by grind, by grind⟩
  | send c p target data ok =>
    simp only [Delivery.fire, Option.ite_none_right_eq_some] at hf
    obtain ⟨⟨hc, hu, hpos, hlen, rfl, hused⟩, hf⟩ := hf
    split at hf <;> cases hf
    · exact { h with }
    · exact h.dmsgsend hc (h.fresh p) hpos (by grind) (fun _ => hused) (fun _ _ => rfl)
  | resume c ok =>
    simp only [Delivery.fire] at hf
    split at hf
    · next p m hpc =>
      obtain ⟨hm, hpos, hused⟩ := h.lookedUp c p m hpc
      have hc := h.busy c (by simp [hpc])
      split at hf <;> cases hf
      · obtain ⟨⟨hqueue, hrec⟩, hfresh, hlook, hshut, hbusy⟩ := h
        exact ⟨⟨hqueue, hrec⟩, hfresh, by grind, by grind, by grind⟩
      · exact h.dmsgsend hc hm hpos (by grind) hused (hcur p m hpc (by grind))
    · cases hf
  | rcv p len =>
    simp only [Delivery.fire, Option.ite_none_right_eq_some, State.dmsgrcv] at hf
    obtain ⟨-, hf⟩ := hf
    split at hf
    · cases hf
    · next m ms hq =>
      split at hf <;> cases hf
      · exact h
      · obtain ⟨⟨hqueue, hrec⟩, hfresh, hlook, hshut, hbusy⟩ := h
        exact ⟨⟨by grind, by grind⟩, hfresh, hlook, hshut, hbusy⟩
  | exit p =>
    obtain ⟨⟨hp, hu⟩, rfl⟩ := of_guarded hf
    obtain ⟨⟨hqueue, hrec⟩, hfresh, hlook, hshut, hbusy⟩ := h
    simp only [State.dmsg_close]
    exact ⟨⟨by grind, hrec⟩, hfresh, by grind, by grind, by grind⟩
  | die p =>
    obtain ⟨hp, rfl⟩ := of_guarded hf
    obtain ⟨⟨hqueue, hrec⟩, hfresh, hlook, hshut, hbusy⟩ := h
    simp only [Procs.exit]
    exact ⟨⟨by grind, hrec⟩, hfresh, by grind, by grind, by grind⟩
  | wait c p =>
    obtain ⟨⟨hc, hu, hparent, hp⟩, rfl⟩ := of_guarded hf
    obtain ⟨⟨hqueue, hrec⟩, hfresh, hlook, hshut, hbusy⟩ := h
    have hpos := Nat.zero_lt_of_lt (hfresh p)
    simp only [State.freeproc, Procs.vacate]
    exact ⟨⟨by grind, hrec⟩, by grind, by grind, by grind, by grind⟩

theorem not_addressed (hcur : ¬ Current s e) (hf : fire s e = some s') : ¬ s'.Addressed := by
  cases e with
  | resume c ok =>
    simp only [Current, not_forall] at hcur
    obtain ⟨p, m, hpc, hopen, hlen, rfl, hne⟩ := hcur
    simp only [Delivery.fire, hpc, hopen] at hf
    cases hf
    intro hs
    rw [State.dmsgsend, if_neg (by omega), if_pos rfl] at hs
    exact hne (hs.1 p m (by simp)).1
  | _ => exact absurd trivial hcur

theorem boot_inv : Inv boot := by
  refine ⟨⟨by simp [boot], by simp [boot]⟩, ?_, by simp [boot], ?_, by simp [boot]⟩
  · intro p
    simp only [boot]
    grind
  · intro p
    simp only [boot, Procs.boot]
    grind

theorem dmsgsend_told {r : Int} {m' : Dmsg} (hopen : s.dmsg_closed p = false)
    (hto : (s.dmsgs p).length < DMSG_QUEUE_MAX → ok → m.target = s.pid p ∧ s.state p = .live)
    (hr : (s.dmsgsend c p m ok).returned = (m', r) :: s.returned) :
    s.Answered (s.dmsgsend c p m ok) m' r := by
  unfold State.dmsgsend at hr ⊢
  split_ifs at hr ⊢ with hfull hok
  · simp at hr
  · cases hr
    obtain ⟨hpid, hlive⟩ := hto (Nat.lt_of_not_le hfull) hok
    exact .inr ⟨rfl, p, hpid.symm, hlive, hopen, rfl⟩
  · cases hr
    exact .inl ⟨rfl, rfl⟩

theorem Inv.told (h : Inv s) (hcur : Current s e) : Told s e := by
  have hlive (p) (hused : s.state p ≠ .unused) (hopen : s.dmsg_closed p = false) :
      s.state p = .live := by
    have hshut := h.shut p
    cases hp : s.state p <;> grind
  intro s' m r hf hr
  cases e with
  | send c p target data ok =>
    simp only [Delivery.fire, Option.ite_none_right_eq_some] at hf
    obtain ⟨⟨-, -, -, -, rfl, hused⟩, hf⟩ := hf
    split at hf <;> cases hf
    · cases hr
      exact .inl ⟨rfl, rfl⟩
    · next hopen =>
      replace hopen : s.dmsg_closed p = false := by simpa using hopen
      exact dmsgsend_told hopen (fun _ _ => ⟨rfl, hlive p hused hopen⟩) hr
  | resume c ok =>
    simp only [Delivery.fire] at hf
    split at hf
    next p m₀ hpc =>
      split at hf <;> cases hf
      · cases hr
        exact .inl ⟨rfl, rfl⟩
      · next hopen =>
        replace hopen : s.dmsg_closed p = false := by simpa using hopen
        refine dmsgsend_told hopen (fun hroom hok => ?_) hr
        have hpid := hcur p m₀ hpc hopen hroom hok
        exact ⟨hpid, hlive p ((h.lookedUp c p m₀ hpc).2.2 hpid) hopen⟩
    · cases hf
  | _ =>
    have hsame : s'.returned = s.returned := by
      simp only [Delivery.fire, State.dmsgrcv, State.allocproc, State.freeproc,
        State.dmsg_close] at hf
      grind
    simp [hsame] at hr

/-- Direct messages reach their addressee exactly if no sender that slept appends when its slot has
another process; then every call tells what it did. -/
theorem dmsg_addressed_iff (es : List Event) :
    (Always fire State.Addressed boot es ↔ Along fire Current boot es) ∧
      (Along fire Current boot es → Along fire Told boot es) := by
  constructor
  · exact always_iff_along (I := Inv) (fun _ h => h.addressed) (fun _ _ _ h hc hf => h.fire hc hf)
      (fun _ _ _ _ hc hf => not_addressed hc hf) boot_inv
  · intro h
    exact h.steps (I := Inv) (fun _ _ _ h hc _ => h.told hc) (fun _ _ _ h hc hf => h.fire hc hf)
      boot_inv

/-- While a sender sleeps at a full queue, its process exits and `init` forks another one into the
slot. -/
def reusedSlot : List Event :=
  [.fork 0 1, .fork 0 2] ++ List.replicate 16 (.send 2 1 2 [] true) ++
  [.send 2 1 2 [7] true, .exit 1, .die 1, .wait 0 1, .fork 0 1, .resume 2 true, .rcv 1 128]

/-- The process with pid 4 receives the message to pid 2. -/
theorem dmsg_misdelivered : ∃ s, runEvents fire boot reusedSlot = some s ∧
    s.received = [(4, ⟨3, [7], 2⟩)] := by
  exact exists_of_any (by decide +kernel)

end OopsOS.Delivery
