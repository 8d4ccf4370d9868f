import OopsOS.Procs
import OopsOS.Traces

namespace OopsOS.Rt
set_option autoImplicit true
open Function

def u32 (x : Nat) : Nat := x % 2 ^ 32

inductive RunState where
  | unused
  | sleeping
  | runnable
  | running
deriving DecidableEq

/-- A process. Not of the kernel: `start`, when `rt_set` came, and `log`, the ticks since at which
it ran. -/
structure Proc where
  state : RunState
  realTime : Bool
  period : Nat
  runtime : Nat
  deadline : Nat
  release : Nat
  deadlineTick : Nat
  remaining : Int
  misses : Nat
  start : Nat
  log : List Nat

def Proc.setup (x : Proc) (period runtime deadline now : Nat) : Proc :=
  { x with
    realTime := true, period := period, runtime := runtime, deadline := deadline
    release := now, deadlineTick := u32 (now + deadline), remaining := runtime, misses := 0
    start := now, log := [] }

def Proc.refreshLoop (now : Nat) : Nat → Proc → Proc
  | 0, x => x
  | n + 1, x =>
    if u32 (x.release + x.period) ≤ now then
      Proc.refreshLoop now n { x with
        misses := if 0 < x.remaining then x.misses + 1 else x.misses
        release := u32 (x.release + x.period)
        deadlineTick := u32 (u32 (x.release + x.period) + x.deadline)
        remaining := x.runtime }
    else x

def Proc.refresh (x : Proc) (now : Nat) : Proc :=
  if x.realTime = false ∨ x.period = 0 ∨ x.deadline = 0 ∨ x.runtime = 0 then x
  else
    let x := x.refreshLoop now (2 ^ 32)
    if x.remaining < 0 then { x with remaining := 0 } else x

def Proc.eligible (x : Proc) (now : Nat) : Bool := x.realTime ∧ 0 < x.remaining ∧ x.release ≤ now

def Proc.laxity (x : Proc) (now : Nat) : Int := x.deadlineTick - now - x.remaining

abbrev Table := ProcSlot → Proc

def pickLoop (now : Nat) : List ProcSlot → Table → Option (ProcSlot × Int) → Table × Option ProcSlot
  | [], t, best => (t, best.map (·.1))
  | p :: l, t, best =>
    if (t p).state = .runnable ∧ (t p).realTime = true then
      let x := (t p).refresh now
      if x.eligible now = true ∧ best.all (fun b => x.laxity now < b.2) = true then
        pickLoop now l (update t p x) (some (p, x.laxity now))
      else pickLoop now l (update t p x) best
    else pickLoop now l t best

def rtPick (now : Nat) (t : Table) : Table × Option ProcSlot :=
  pickLoop now (List.finRange NPROC) t none

def Proc.rtTick (x : Proc) (now : Nat) : Proc × Bool :=
  if x.realTime = false then (x, false)
  else if x.state ≠ .running then (x, false)
  else if x.realTime = true then (x, false)
  else
    let x := x.refresh now
    let x := if 0 < x.remaining then { x with remaining := x.remaining - 1 } else x
    if x.remaining ≤ 0 then ({ x with remaining := 0 }, true) else (x, false)

def preemptLoop (now : Nat) (cur : Option Int) : List ProcSlot → Table → Table × Bool
  | [], t => (t, false)
  | p :: l, t =>
    if (t p).state = .runnable ∧ (t p).realTime = true then
      let x := (t p).refresh now
      if x.eligible now = true ∧ cur.all (fun c => x.laxity now < c) = true then
        (update t p x, true)
      else preemptLoop now cur l (update t p x)
    else preemptLoop now cur l t

def rtShouldPreempt (now : Nat) (t : Table) (p : ProcSlot) : Table × Bool :=
  if (t p).realTime = true ∧ (t p).state = .running then
    let x := (t p).refresh now
    preemptLoop now (if x.eligible now = true then some (x.laxity now) else none)
      (List.finRange NPROC) (update t p x)
  else preemptLoop now none (List.finRange NPROC) t

/-- One processor: `cur` is the process that runs on it, `now` the number of ticks. -/
structure State where
  now : Nat
  proc : Table
  cur : Option ProcSlot

def State.setProc (s : State) (p : ProcSlot) (x : Proc) : State :=
  { s with proc := update s.proc p x }

def Proc.runAt (x : Proc) (now : Nat) : Proc := { x with log := x.log ++ [now] }

def State.interrupt (s : State) (p : ProcSlot) (slice : Bool) : State :=
  let (x, yield) := ((s.proc p).runAt s.now).rtTick s.now
  let (t, preempt) := if yield then (update s.proc p x, true)
    else rtShouldPreempt s.now (update s.proc p x) p
  if preempt || slice then
    { s with proc := update t p { t p with state := .runnable }, cur := none }
  else { s with proc := t }

inductive Event where
  | rtSet (p : ProcSlot) (period runtime deadline : Nat)
  | tick (slice : Bool)
  | pick
  | pickNormal (p : ProcSlot)
  | sleep
  | wakeup (p : ProcSlot)
deriving DecidableEq

/-- A step: `rt_set`, a timer tick, the choice of a process, `sleep` or `wakeup`. -/
def fire (s : State) : Event → Option State
  | .rtSet p period runtime deadline =>
    if 0 < runtime ∧ runtime ≤ deadline ∧ deadline ≤ period ∧ period < 2 ^ 31 then
      some (s.setProc p ((s.proc p).setup period runtime deadline s.now))
    else some s
  | .tick slice =>
    let s := { s with now := u32 (s.now + 1) }
    match s.cur with
    | none => some s
    | some p => some (s.interrupt p slice)
  | .pick =>
    if s.cur = none then
      let (t, best) := rtPick s.now s.proc
      match best with
      | none => some { s with proc := t }
      | some p => some { s with proc := update t p { t p with state := .running }, cur := some p }
    else none
  | .pickNormal p =>
    if s.cur = none ∧ (s.proc p).state = .runnable ∧ (s.proc p).realTime = false then
      some { s.setProc p { s.proc p with state := .running } with cur := some p }
    else none
  | .sleep =>
    match s.cur with
    | none => none
    | some p => some { s.setProc p { s.proc p with state := .sleeping } with cur := none }
  | .wakeup p =>
    if (s.proc p).state = .sleeping then some (s.setProc p { s.proc p with state := .runnable })
    else none

def Proc.ran (x : Proc) (release : Nat) : Nat :=
  x.log.countP fun t => release ≤ t ∧ t < release + x.period

/-- The budget of a real-time process in the window to which its fields belong. -/
structure State.Accounts (s : State) (p : ProcSlot) : Prop where
  window : (s.proc p).release =
    (s.proc p).start + (s.now - (s.proc p).start) / (s.proc p).period * (s.proc p).period
  remaining :
    (s.proc p).remaining = max 0 ((s.proc p).runtime - (s.proc p).ran (s.proc p).release : Int)
  misses : (s.proc p).misses =
    (List.range ((s.now - (s.proc p).start) / (s.proc p).period)).countP fun k =>
      (s.proc p).ran ((s.proc p).start + k * (s.proc p).period) < (s.proc p).runtime
  exhausted : (s.proc p).remaining = 0 → (rtPick s.now s.proc).2 ≠ some p

/-- Every real-time process whose window has not elapsed is accounted for. -/
def State.Budgeted (s : State) : Prop :=
  ∀ p, (s.proc p).realTime = true → s.now < (s.proc p).release + (s.proc p).period → s.Accounts p

/-- `rt_tick` asks for a yield at the tick that uses the budget up. -/
def State.Yields (s : State) : Event → Prop
  | .tick _ => ∀ p, s.cur = some p → (s.proc p).realTime = true →
      (s.proc p).runtime = (s.proc p).ran (s.proc p).release + 1 →
        u32 (s.now + 1) < (s.proc p).release + (s.proc p).period →
          ((s.proc p).rtTick (u32 (s.now + 1))).2 = true
  | _ => True

def State.Unused (s : State) : Event → Prop
  | .tick _ => ∀ p, s.cur = some p → (s.proc p).realTime = false
  | _ => True

structure Started (s : State) : Prop where
  normal : ∀ p, (s.proc p).realTime = false
  state : ∀ p, (s.proc p).state ≠ .running
  cur : s.cur = none

variable {s s' : State} {e : Event} {es : List Event} {x y : Proc} {t : Table} {p q : ProcSlot}
  {now n : Nat} {l : List ProcSlot} {t₀ : Table}

/-- A real-time process whose budget was never used. -/
structure Proc.Regular (x : Proc) (now : Nat) : Prop where
  remaining : x.remaining = x.runtime
  release : x.release = x.start + x.misses * x.period
  begun : x.release ≤ now
  runtime : 0 < x.runtime
  deadline : 0 < x.deadline
  period : 0 < x.period ∧ x.period < 2 ^ 31

def Proc.Kept (x y : Proc) : Prop :=
  y.state = x.state ∧ y.realTime = x.realTime ∧ y.log = x.log

theorem Proc.Regular.refreshLoop (h : x.Regular now) (hnow : now < 2 ^ 31)
    (hn : now < x.release + n) :
    (x.refreshLoop now n).Regular now ∧ x.Kept (x.refreshLoop now n) ∧
      now < (x.refreshLoop now n).release + (x.refreshLoop now n).period := by
  induction n generalizing x with
  | zero => exact absurd h.begun (by omega)
  | succ n ih =>
    have hperiod := h.period
    have hbegun := h.begun
    have hu : u32 (x.release + x.period) = x.release + x.period := Nat.mod_eq_of_lt (by omega)
    rw [Proc.refreshLoop, hu]
    split
    · next hle =>
      refine ih ⟨rfl, ?_, hle, h.runtime, h.deadline, hperiod⟩ (by dsimp only; omega)
      have hpos : 0 < x.remaining := by
        rw [h.remaining]
        exact_mod_cast h.runtime
      simp only [if_pos hpos, h.release, Nat.succ_mul, Nat.add_assoc]
    · next hle => exact ⟨h, ⟨rfl, rfl, rfl⟩, Nat.lt_of_not_le hle⟩

theorem Proc.Regular.refresh (h : x.Regular now) (hrt : x.realTime = true) (hnow : now < 2 ^ 31) :
    (x.refresh now).Regular now ∧ x.Kept (x.refresh now) ∧
      now < (x.refresh now).release + (x.refresh now).period := by
  have hloop := h.refreshLoop (n := 2 ^ 32) hnow (by omega)
  have hpos : ¬ (x.refreshLoop now (2 ^ 32)).remaining < 0 := by
    rw [hloop.1.remaining]
    omega
  have := h.period
  have := h.deadline
  have := h.runtime
  unfold Proc.refresh
  rw [if_neg (by simp [hrt]; omega)]
  simp only [if_neg hpos]
  exact hloop

def Proc.Fresh (x : Proc) (now : Nat) : Prop := x.realTime = true → x.Regular now ∧ x.log = []

theorem Proc.Fresh.refresh (h : x.Fresh now) (hrt : x.realTime = true) (hnow : now < 2 ^ 31) :
    (x.refresh now).Fresh now ∧ (x.refresh now).state = x.state := by
  obtain ⟨hreg, hlog⟩ := h hrt
  obtain ⟨hreg', ⟨hstate, -, hlog'⟩, -⟩ := hreg.refresh hrt hnow
  exact ⟨fun _ => ⟨hreg', hlog'.trans hlog⟩, hstate⟩

def Table.Fresh (t t₀ : Table) (now : Nat) : Prop :=
  ∀ p, (t p).Fresh now ∧ (t p).state = (t₀ p).state

theorem Table.Fresh.update (h : Table.Fresh t t₀ now) (hx : x.Fresh now)
    (hstate : x.state = (t₀ p).state) : Table.Fresh (update t p x) t₀ now :=
  (forall_update_iff t fun q y => y.Fresh now ∧ y.state = (t₀ q).state).2
    ⟨⟨hx, hstate⟩, fun q _ => h q⟩

theorem Table.Fresh.pickLoop {best : Option (ProcSlot × Int)}
    (h : Table.Fresh t t₀ now) (hnow : now < 2 ^ 31) :
    Table.Fresh (pickLoop now l t best).1 t₀ now := by
  induction l generalizing t best with
  | nil => exact h
  | cons p l ih =>
    unfold Rt.pickLoop
    split
    · next hp =>
      obtain ⟨hfresh, hstate⟩ := (h p).1.refresh hp.2 hnow
      dsimp only
      split <;> exact ih (h.update hfresh (hstate.trans (h p).2))
    · exact ih h

theorem Table.Fresh.preemptLoop {cur : Option Int}
    (h : Table.Fresh t t₀ now) (hnow : now < 2 ^ 31) :
    Table.Fresh (preemptLoop now cur l t).1 t₀ now := by
  induction l generalizing t with
  | nil => exact h
  | cons p l ih =>
    unfold Rt.preemptLoop
    split
    · next hp =>
      obtain ⟨hfresh, hstate⟩ := (h p).1.refresh hp.2 hnow
      have hupdate := h.update hfresh (hstate.trans (h p).2)
      dsimp only
      split
      · exact hupdate
      · exact ih hupdate
    · exact ih h

structure Inv (s : State) : Prop where
  fresh : ∀ p, (s.proc p).Fresh s.now
  running : ∀ p, (s.proc p).state = .running ↔ s.cur = some p

theorem Started.inv (h : Started s) : Inv s where
  fresh p hrt := by simp [h.normal] at hrt
  running p := by simp [h.state, h.cur]

theorem rtTick_eq (x : Proc) (now : Nat) : x.rtTick now = (x, false) := by
  unfold Proc.rtTick
  split
  · rfl
  · next hrt => simp [hrt]

theorem Inv.setState (h : Inv s) {st : RunState} {cur : Option ProcSlot}
    (hfresh : Table.Fresh t s.proc s.now) (hcur : ∀ q, q ≠ p → (s.cur = some q ↔ cur = some q))
    (hst : st = .running ↔ cur = some p) :
    Inv { s with proc := update t p { t p with state := st }, cur := cur } where
  fresh := (forall_update_iff t fun _ y => y.Fresh s.now).2 ⟨fun hrt => by
    obtain ⟨hreg, hlog⟩ := (hfresh p).1 hrt
    exact ⟨{ hreg with }, hlog⟩, fun q _ => (hfresh q).1⟩
  running := (forall_update_iff t fun q y => y.state = .running ↔ cur = some q).2
    ⟨hst, fun q hq => by rw [(hfresh q).2, h.running q, hcur q hq]⟩

theorem Inv.table (h : Inv s) (ht : Table.Fresh t s.proc s.now) : Inv { s with proc := t } where
  fresh p := (ht p).1
  running p := by rw [(ht p).2, h.running p]

theorem Inv.interrupt (h : Inv s) (hcur : s.cur = some p) (hrt : (s.proc p).realTime = false)
    (hnow : s.now < 2 ^ 31) {slice : Bool} : Inv (s.interrupt p slice) := by
  have hx : ((s.proc p).runAt s.now).realTime = false := hrt
  have hlogged : Table.Fresh (update s.proc p ((s.proc p).runAt s.now)) s.proc s.now :=
    Table.Fresh.update (fun q => ⟨h.fresh q, rfl⟩) (fun hx' => by simp [hx] at hx') rfl
  have hpreempt : Table.Fresh (Rt.preemptLoop s.now none (List.finRange NPROC) _).1 s.proc s.now :=
    hlogged.preemptLoop hnow
  simp only [State.interrupt, rtTick_eq, Bool.false_eq_true, if_false, rtShouldPreempt,
    update_self, hx, false_and]
  split
  · exact h.setState hpreempt (fun q hq => by simp [hcur, Ne.symm hq]) (by simp)
  · exact h.table hpreempt

theorem Inv.later (h : Inv s) : Inv { s with now := s.now + 1 } where
  fresh p hrt := by
    obtain ⟨hreg, hlog⟩ := h.fresh p hrt
    exact ⟨{ hreg with begun := Nat.le_succ_of_le hreg.begun }, hlog⟩
  running := h.running

theorem Inv.fire (h : Inv s) (hnow : s.now + 1 < 2 ^ 31) (hun : s.Unused e)
    (hf : fire s e = some s') : Inv s' := by
  have hself : Table.Fresh s.proc s.proc s.now := fun p => ⟨h.fresh p, rfl⟩
  cases e with
  | rtSet p period runtime deadline =>
    simp only [Rt.fire] at hf
    split at hf
    · next hok =>
      cases hf
      refine h.table (hself.update (fun _ => ⟨⟨rfl, ?_, Nat.le_refl _, ?_, ?_, ?_⟩, rfl⟩) rfl)
      · simp [Proc.setup]
      all_goals
        dsimp only [Proc.setup]
        omega
    · cases hf
      exact h
  | tick slice =>
    have hu : u32 (s.now + 1) = s.now + 1 := Nat.mod_eq_of_lt (by omega)
    simp only [Rt.fire, hu] at hf
    split at hf
    · cases hf
      exact h.later
    · next p hcur =>
      cases hf
      exact h.later.interrupt hcur (hun p hcur) hnow
  | pick =>
    simp only [Rt.fire, Option.ite_none_right_eq_some] at hf
    obtain ⟨hcur, hf⟩ := hf
    have hpick : Table.Fresh (rtPick s.now s.proc).1 s.proc s.now := hself.pickLoop (by omega)
    split at hf
    · cases hf
      exact h.table hpick
    · next p _ =>
      cases hf
      exact h.setState hpick (fun q hq => by simp [hcur, Ne.symm hq]) (by simp)
  | pickNormal p =>
    obtain ⟨⟨hcur, -⟩, rfl⟩ := of_guarded hf
    exact h.setState hself (fun q hq => by simp [hcur, Ne.symm hq]) (by simp)
  | sleep =>
    simp only [Rt.fire] at hf
    split at hf
    · cases hf
    · next p hcur =>
      cases hf
      exact h.setState hself (fun q hq => by simp [hcur, Ne.symm hq]) (by simp)
  | wakeup p =>
    obtain ⟨hstate, rfl⟩ := of_guarded hf
    refine h.setState hself (fun _ _ => Iff.rfl) ?_
    rw [← h.running p, hstate]
    simp

theorem Proc.ran_nil (hlog : x.log = []) (r : Nat) : x.ran r = 0 := by
  rw [Proc.ran, hlog]
  rfl

theorem Inv.budgeted (h : Inv s) : s.Budgeted := by
  intro p hrt hwindow
  obtain ⟨hreg, hlog⟩ := h.fresh p hrt
  have hpos : 0 < ((s.proc p).runtime : Int) := by exact_mod_cast hreg.runtime
  have helapsed : (s.now - (s.proc p).start) / (s.proc p).period = (s.proc p).misses := by
    have hbegun := hreg.begun
    rw [hreg.release] at hbegun hwindow
    refine Nat.div_eq_of_lt_le ?_ ?_
    · omega
    · rw [Nat.succ_mul]
      omega
  refine ⟨?_, ?_, ?_, fun hzero => ?_⟩
  · rw [helapsed, hreg.release]
  · rw [Proc.ran_nil hlog, hreg.remaining]
    omega
  · rw [helapsed]
    symm
    convert List.length_range (n := (s.proc p).misses)
    rw [List.countP_eq_length]
    intro k _
    simp [Proc.ran_nil hlog, hreg.runtime]
  · rw [hreg.remaining] at hzero
    omega

theorem State.Unused.yields (hun : s.Unused e) : s.Yields e := by
  cases e with
  | tick slice =>
    intro p hcur hrt
    rw [hun p hcur] at hrt
    cases hrt
  | _ => trivial

theorem preemptLoop_self {cur : Option Int} (hp : (t p).state ≠ .runnable) :
    (preemptLoop now cur l t).1 p = t p := by
  induction l generalizing t with
  | nil => rfl
  | cons q l ih =>
    unfold preemptLoop
    split
    · next hq =>
      have hpq : p ≠ q := fun he => hp (he ▸ hq.1)
      dsimp only
      split
      · exact update_of_ne hpq _ _
      · rw [ih (by rwa [update_of_ne hpq]), update_of_ne hpq]
    · exact ih hp

theorem rtShouldPreempt_self (hp : (t p).realTime = true ∧ (t p).state = .running)
    (hstate : ((t p).refresh now).state ≠ .runnable) :
    (rtShouldPreempt now t p).1 p = (t p).refresh now := by
  rw [rtShouldPreempt, if_pos hp]
  dsimp only
  rw [preemptLoop_self (by rwa [update_self]), update_self]

theorem interrupt_self (hrt : (s.proc p).realTime = true) (hrun : (s.proc p).state = .running)
    (hreg : ((s.proc p).runAt s.now).Regular s.now) (hnow : s.now < 2 ^ 31) (slice : Bool) :
    (s.interrupt p slice).now = s.now ∧ ∃ st, (s.interrupt p slice).proc p =
      { ((s.proc p).runAt s.now).refresh s.now with state := st } := by
  have hstate : (((s.proc p).runAt s.now).refresh s.now).state ≠ .runnable := by
    rw [(hreg.refresh hrt hnow).2.1.1]
    exact fun he => by simp [Proc.runAt, hrun] at he
  have hself := rtShouldPreempt_self (p := p) (t := update s.proc p ((s.proc p).runAt s.now))
    (by rw [update_self]; exact ⟨hrt, hrun⟩)
    (show ((update s.proc p ((s.proc p).runAt s.now) p).refresh s.now).state ≠ _ by
      rwa [update_self])
  rw [update_self] at hself
  simp only [State.interrupt, rtTick_eq, Bool.false_eq_true, if_false]
  split
  · exact ⟨rfl, .runnable, by simp only [update_self, hself]⟩
  · exact ⟨rfl, _, hself⟩

theorem Inv.not_budgeted (h : Inv s) (hnow : s.now + 1 < 2 ^ 31) (hun : ¬ s.Unused e)
    (hf : Rt.fire s e = some s') : ¬ s'.Budgeted := by
  cases e with
  | tick slice =>
    simp only [State.Unused, Classical.not_forall, Bool.not_eq_false] at hun
    obtain ⟨p, hcur, hrt⟩ := hun
    have hu : u32 (s.now + 1) = s.now + 1 := Nat.mod_eq_of_lt (by omega)
    have hs' : State.interrupt { s with now := s.now + 1 } p slice = s' := by
      simp only [Rt.fire, hu] at hf
      split at hf <;> simp_all
    obtain ⟨hreg, hlog⟩ := h.later.fresh p hrt
    have hreg' : ((s.proc p).runAt (s.now + 1)).Regular (s.now + 1) :=
      { hreg with }
    obtain ⟨hnew, hkept, hwindow⟩ := hreg'.refresh hrt hnow
    obtain ⟨hnow', st, hst⟩ := interrupt_self (s := { s with now := s.now + 1 }) hrt
      ((h.running p).2 hcur) hreg' hnow slice
    rw [hs'] at hnow' hst
    intro hbudget
    have hremaining := (hbudget p (by rw [hst]; exact hkept.2.1.trans hrt)
      (by rw [hst, hnow']; exact hwindow)).remaining
    have hran : 0 < (s'.proc p).ran (s'.proc p).release := by
      refine List.countP_pos_iff.2 ⟨s.now + 1, ?_, ?_⟩
      · rw [hst]
        exact hkept.2.2 ▸ List.mem_append_right _ List.mem_cons_self
      · rw [hst]
        exact decide_eq_true ⟨hnew.begun, hwindow⟩
    have hfull : (s'.proc p).remaining = (s'.proc p).runtime := by
      rw [hst]
      exact hnew.remaining
    have hpos : 0 < (s'.proc p).runtime := by
      rw [hst]
      exact hnew.runtime
    omega
  | _ => exact absurd trivial hun

/-- Below `2 ^ 31` ticks, budgets are accounted for exactly if no real-time process runs at a tick.
-/
theorem budgets_iff (hs : Started s) (hclock : Along fire (fun s _ => s.now + 1 < 2 ^ 31) s es) :
    Always fire State.Budgeted s es ∧ Along fire State.Yields s es ↔
    Along fire State.Unused s es := by
  have hiff : Always fire State.Budgeted s es ↔ Along fire State.Unused s es :=
    always_iff_along_of (I := Inv) (fun _ h => h.budgeted)
      (fun _ _ _ h hnow hun hf => h.fire hnow hun hf)
      (fun _ _ _ h hnow hun hf => h.not_budgeted hnow hun hf) hs.inv hclock
  refine ⟨fun h => hiff.1 h.1, fun h => ⟨hiff.2 h, ?_⟩⟩
  exact h.steps (I := fun _ => True) (fun _ _ _ _ hun _ => hun.yields)
    (fun _ _ _ _ _ _ => trivial) trivial

def oneProc : State where
  now := 0
  proc _ := ⟨.runnable, false, 0, 0, 0, 0, 0, 0, 0, 0, []⟩
  cur := none

theorem oneProc_started : Started oneProc := ⟨fun _ => rfl, fun _ => nofun, rfl⟩

/-- A real-time process is picked and sleeps while another process runs for two ticks. -/
def sleepRun : List Event :=
  [.rtSet 0 10 2 5, .pick, .sleep, .pickNormal 1, .tick false, .tick false, .wakeup 0]

theorem budgets_sleepRun : (runEvents fire oneProc sleepRun).isSome = true ∧
    Always fire State.Budgeted oneProc sleepRun ∧ Along fire State.Yields oneProc sleepRun := by
  have hclock : Along fire (fun s _ => s.now + 1 < 2 ^ 31) oneProc sleepRun := by decide +kernel
  have hcur : Along fire (fun s e => (∃ b, e = .tick b) → ∀ p, s.cur = some p →
      (s.proc p).realTime = false) oneProc sleepRun := by decide +kernel
  refine ⟨by decide +kernel, (budgets_iff oneProc_started hclock).2 ?_⟩
  refine hcur.steps (I := fun _ => True) (fun s e _ _ h _ => ?_)
    (fun _ _ _ _ _ _ => trivial) trivial
  cases e with
  | tick b => exact h ⟨b, rfl⟩
  | _ => trivial

/-- A process with a budget of one tick in ten runs for two ticks and can go on. -/
theorem budget_not_used : ∃ es s', runEvents fire oneProc es = some s' ∧ ¬ s'.Budgeted := by
  obtain ⟨s', hs', hrt, hwindow, hne⟩ :
    ∃ s', runEvents fire oneProc [.rtSet 0 10 1 5, .pick, .tick false, .tick false] = some s' ∧
      (s'.proc 0).realTime ∧ s'.now < (s'.proc 0).release + (s'.proc 0).period ∧
        (s'.proc 0).remaining ≠ max 0
          ((s'.proc 0).runtime - (s'.proc 0).ran (s'.proc 0).release : Int) :=
    exists_of_any (by decide +kernel)
  exact ⟨_, s', hs', fun hbudget => hne (hbudget 0 hrt hwindow).remaining⟩

end OopsOS.Rt
