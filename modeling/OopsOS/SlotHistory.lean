import OopsOS.Procs

namespace OopsOS.SlotHistory
set_option autoImplicit true
open Function

abbrev BANKER_MAX_RES : Nat := 8

abbrev KERNBASE : BitVec 32 := 0x80000000

inductive Policy where
  | normal
  | rtLlf
deriving DecidableEq

structure Rt where
  policy : Policy
  period : Int
  runtime : Int
  deadline : Int
  release : BitVec 32
  deadline_tick : BitVec 32
  remaining : Int
  misses : Int
deriving DecidableEq

structure VmArea where
  used : Bool
  addr : UInt64
  len : UInt64
  prot : Int
  flags : Int
  vfd : Int
  vfile : Nat
  offset : UInt64
  filesz : UInt64
deriving DecidableEq

/-- A slot of the process table, as far as `fork`, `clone` and the calls with a pid go. -/
structure Proc where
  state : ProcState
  pid : Nat
  killed : Bool
  tgid : Nat
  tgroup_ref : Int
  pthread : Option ProcSlot
  ustack : UInt64
  mqmask : BitVec 32
  dmsgs : List (List UInt8)
  dmsg_closed : Bool
  bkr_active : Bool
  bkr_max : Fin BANKER_MAX_RES → Int
  bkr_alloc : Fin BANKER_MAX_RES → Int
  priority : Int
  cpu_time : Int
  wait_time : Int
  dyn_priority : Int
  pi_boost : Int
  mlfq_level : Int
  mlfq_ticks : Int
  rt : Rt
  midsched_suspending : Bool
  shm : BitVec 32
  shmkeymask : BitVec 32
  shmva : Fin 8 → UInt64
  alarm_interval : Int
  alarm_handler : UInt64
  alarm_ticks : Int
  alarm_goingoff : Bool
  vma : Fin NVMA → VmArea

structure State where
  proc : ProcSlot → Proc
  nextpid : Nat
  ticks : BitVec 32

def Rt.reset : Rt := ⟨.normal, 0, 0, 0, 0, 0, 0, 0⟩

def Rt.setup (period runtime deadline : Int) (now : BitVec 32) : Rt :=
  ⟨.rtLlf, period, runtime, deadline, now, now + BitVec.ofInt 32 deadline, runtime, 0⟩

def VmArea.zero : VmArea := ⟨false, 0, 0, 0, 0, 0, 0, 0, 0⟩

def Proc.allocproc (q : Proc) (pid : Nat) : Proc :=
  { q with
    pid := pid
    tgid := 0
    tgroup_ref := 0
    pthread := none
    ustack := 0
    mqmask := 0
    dmsgs := []
    dmsg_closed := false
    bkr_active := false
    bkr_max := fun _ => 0
    bkr_alloc := fun _ => 0
    priority := 10
    cpu_time := 0
    wait_time := 0
    dyn_priority := 10
    pi_boost := 0
    mlfq_level := 0
    mlfq_ticks := 0
    rt := Rt.reset
    midsched_suspending := false
    shm := KERNBASE
    shmkeymask := 0
    alarm_interval := 0
    alarm_handler := 0
    alarm_ticks := 0
    alarm_goingoff := false
    vma := fun _ => VmArea.zero }

def Proc.shmkeyused (p : Proc) (i : Fin 8) : Bool := p.shmkeymask.getLsbD i

def Proc.copyShm (np p : Proc) : Proc :=
  { np with
    shm := p.shm
    shmkeymask := p.shmkeymask
    shmva := fun i => if p.shmkeyused i then p.shmva i else np.shmva i }

def Proc.fork (np p : Proc) : Proc :=
  { np.copyShm p with
    mqmask := p.mqmask
    tgid := np.pid
    tgroup_ref := 1
    pthread := none
    ustack := 0
    vma := fun i => if (p.vma i).used then p.vma i else np.vma i
    state := .live }

def Proc.clone (np : Proc) (l : Proc) (leader : ProcSlot) (stack : UInt64) (now : BitVec 32) :
    Proc :=
  { np.copyShm l with
    tgid := l.pid
    pthread := some leader
    ustack := stack
    mlfq_level := l.mlfq_level
    mlfq_ticks := 0
    rt := if l.rt.policy = .rtLlf then Rt.setup l.rt.period l.rt.runtime l.rt.deadline now
      else Rt.reset
    state := .live }

inductive Call where
  | fork
  | clone (stack : UInt64)

def State.child (s : State) (p : ProcSlot) (call : Call) (q : Proc) : Proc :=
  match call with
  | .fork => (q.allocproc s.nextpid).fork (s.proc p)
  | .clone stack =>
    let leader := (s.proc p).pthread.getD p
    (q.allocproc s.nextpid).clone (s.proc leader) leader stack s.ticks

def State.unusedSlot (s : State) : Option ProcSlot :=
  (List.finRange NPROC).find? fun p => (s.proc p).state = .unused

def State.create (s : State) (p : ProcSlot) (call : Call) : Option (ProcSlot × State) :=
  match s.unusedSlot with
  | none => none
  | some np =>
    let s' := { s with
      proc := update s.proc np (s.child p call (s.proc np))
      nextpid := s.nextpid + 1 }
    match call with
    | .fork => some (np, s')
    | .clone _ =>
      let leader := (s.proc p).pthread.getD p
      let l := s'.proc leader
      some (np, { s' with
        proc := update s'.proc leader { l with tgroup_ref := l.tgroup_ref + 1 } })

def State.slotOf (s : State) (pid : Nat) : Option ProcSlot :=
  (List.finRange NPROC).find? fun p => (s.proc p).pid = pid

/-- `kill`; the states of a process that is not unused are not told apart. -/
def State.kill (s : State) (pid : Nat) : State :=
  match s.slotOf pid with
  | some p => { s with proc := update s.proc p { s.proc p with killed := true } }
  | none => s

/-- The fields of a process, without the addresses of shared memory that it does not use. -/
def Proc.fields (q : Proc) : Proc :=
  { q with shmva := fun i => if q.shmkeyused i then q.shmva i else 0 }

def Proc.blank : Proc :=
  ⟨.unused, 0, false, 0, 0, none, 0, 0, [], false, false, fun _ => 0, fun _ => 0, 0, 0, 0, 0, 0, 0,
    0, Rt.reset, false, 0, 0, fun _ => 0, 0, 0, 0, false, fun _ => VmArea.zero⟩

structure Agree (s₁ s₂ : State) : Prop where
  state : ∀ p, (s₁.proc p).state = (s₂.proc p).state
  proc : ∀ p, (s₁.proc p).state ≠ .unused → s₁.proc p = s₂.proc p
  nextpid : s₁.nextpid = s₂.nextpid
  ticks : s₁.ticks = s₂.ticks

variable {s s' s₁ s₂ s₁' s₂' : State} {p np np₁ np₂ : ProcSlot} {call : Call}

def State.Calls (s : State) (p : ProcSlot) : Prop :=
  (s.proc p).state ≠ .unused ∧ (s.proc ((s.proc p).pthread.getD p)).state ≠ .unused

theorem fields_child (s : State) (p : ProcSlot) (call : Call) (q : Proc) :
    (s.child p call q).fields = { (s.child p call .blank).fields with killed := q.killed } := by
  cases call <;>
    simp [State.child, Proc.fork, Proc.clone, Proc.copyShm, Proc.allocproc, Proc.fields,
      Proc.shmkeyused, Proc.blank] <;>
    grind

theorem killed_child (s : State) (p : ProcSlot) (call : Call) (q : Proc) :
    (s.child p call q).fields.killed = q.killed := by
  rw [fields_child]

theorem State.unused_of_unusedSlot (h : s.unusedSlot = some np) : (s.proc np).state = .unused := by
  have hfound := List.find?_some h
  exact of_decide_eq_true hfound

theorem child_of_create (hcalls : s.Calls p) (h : s.create p call = some (np, s')) :
    s.unusedSlot = some np ∧ s'.proc np = s.child p call (s.proc np) := by
  unfold State.create at h
  split at h
  · cases h
  · next np' hslot =>
    have hne : (s.proc p).pthread.getD p ≠ np' := by
      intro heq
      exact hcalls.2 (heq ▸ State.unused_of_unusedSlot hslot)
    cases call with
    | fork =>
      cases h
      exact ⟨hslot, update_self ..⟩
    | clone stack =>
      cases h
      exact ⟨hslot, (update_of_ne hne.symm _ _).trans (update_self ..)⟩

theorem Agree.unusedSlot (h : Agree s₁ s₂) : s₁.unusedSlot = s₂.unusedSlot := by
  unfold State.unusedSlot
  congr 1
  funext p
  rw [h.state p]

theorem Agree.child (h : Agree s₁ s₂) (hcalls : s₁.Calls p) (q : Proc) :
    s₁.child p call q = s₂.child p call q := by
  have hp := h.proc p hcalls.1
  have hl := h.proc _ hcalls.2
  cases call with
  | fork => simp only [State.child, h.nextpid, hp]
  | clone stack => simp only [State.child, h.nextpid, h.ticks, hl, ← hp]

/-- In states that agree but for unused slots, children get the same fields exactly if the slot was
not killed. -/
theorem child_independent_iff (h : Agree s₁ s₂) (hcalls : s₁.Calls p)
    (h₁ : s₁.create p call = some (np₁, s₁')) (h₂ : s₂.create p call = some (np₂, s₂')) :
    (np₁ = np₂ ∧ (s₁'.proc np₁).fields = (s₂'.proc np₂).fields ∧
      (s₁'.proc np₁).fields = (s₁.child p call .blank).fields) ↔
    (s₁.proc np₁).killed = false ∧ (s₂.proc np₂).killed = false := by
  have hcalls₂ : s₂.Calls p := by
    have hp := h.proc p hcalls.1
    refine ⟨hp ▸ hcalls.1, ?_⟩
    rw [← hp, ← h.proc _ hcalls.2]
    exact hcalls.2
  obtain ⟨hslot₁, hchild₁⟩ := child_of_create hcalls h₁
  obtain ⟨hslot₂, hchild₂⟩ := child_of_create hcalls₂ h₂
  rw [hchild₁, hchild₂, ← h.child hcalls]
  constructor
  · rintro ⟨-, hsame, hblank⟩
    have hkilled := congrArg Proc.killed hblank
    rw [killed_child, killed_child] at hkilled
    have hkilled' := congrArg Proc.killed hsame
    rw [killed_child, killed_child] at hkilled'
    exact ⟨hkilled, hkilled' ▸ hkilled⟩
  · rintro ⟨hk₁, hk₂⟩
    have hnp : np₁ = np₂ := Option.some.inj (hslot₁ ▸ h.unusedSlot ▸ hslot₂)
    refine ⟨hnp, ?_, ?_⟩
    · rw [fields_child, fields_child s₁ p call (s₂.proc np₂), hk₁, hk₂]
    · rw [fields_child, hk₁]
      exact (fields_child s₁ p call .blank).symm

def boot : State :=
  ⟨fun p =>
    if p = 0 then { (Proc.blank.allocproc 1) with tgid := 1, tgroup_ref := 1, state := .live }
    else .blank, 2, 0⟩

def leftover : State :=
  { boot with proc := update boot.proc 1 { Proc.blank with priority := 3 } }

theorem agree_update (hp : (s.proc p).state = .unused) (hq : q.state = .unused) :
    Agree s { s with proc := update s.proc p q } := by
  refine ⟨fun p' => ?_, fun p' hp' => ?_, rfl, rfl⟩
  · by_cases heq : p' = p <;> simp [heq, hp, hq]
  · have hne : p' ≠ p := fun heq => hp' (heq ▸ hp)
    simp [hne]

theorem child_independent_boot : Agree boot leftover ∧ boot.Calls 0 ∧ ∃ r₁ r₂,
    boot.create 0 .fork = some (1, r₁) ∧ leftover.create 0 .fork = some (1, r₂) ∧
    (r₁.proc 1).fields = (r₂.proc 1).fields := by
  have hagree : Agree boot leftover := agree_update rfl rfl
  have hcalls : boot.Calls 0 := ⟨by decide, by decide⟩
  have h₁ : (boot.create 0 .fork).map Prod.fst = some 1 := by decide +kernel
  have h₂ : (leftover.create 0 .fork).map Prod.fst = some 1 := by decide +kernel
  obtain ⟨⟨_, r₁⟩, h₁, rfl⟩ := Option.map_eq_some_iff.1 h₁
  obtain ⟨⟨_, r₂⟩, h₂, rfl⟩ := Option.map_eq_some_iff.1 h₂
  exact ⟨hagree, hcalls, r₁, r₂, h₁, h₂,
    ((child_independent_iff hagree hcalls h₁ h₂).2 ⟨rfl, rfl⟩).2.1⟩

/-- `kill(0)` marks the first unused slot, and the next child is born killed. -/
theorem child_born_killed : Agree boot (boot.kill 0) ∧
    (boot.create 0 .fork).any (fun r => (r.2.proc r.1).killed = false) = true ∧
    ((boot.kill 0).create 0 .fork).any (fun r => (r.2.proc r.1).killed = true) = true := by
  have hslot : boot.slotOf 0 = some 1 := by decide +kernel
  refine ⟨?_, by decide +kernel, by decide +kernel⟩
  simp only [State.kill, hslot]
  exact agree_update rfl rfl

end OopsOS.SlotHistory
