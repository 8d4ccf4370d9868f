import OopsOS.Procs
import OopsOS.Traces

namespace OopsOS.Midsched
set_option autoImplicit true
open Function

inductive RunState where
  | unused
  | sleeping
  | suspendedSleep
  | suspended
  | runnable
  | running
  | zombie
deriving DecidableEq

/-- What a process sleeps on: itself, in `wait` and `join`, or another address. -/
inductive Chan where
  | proc (p : ProcSlot)
  | addr (n : Nat)
deriving DecidableEq

/-- A slot of the process table. Not of the kernel: `woken`, a wakeup since its last `sleep`. -/
structure Proc where
  state : RunState
  chan : Option Chan
  suspending : Bool
  sz : Nat
  pid : Nat
  realTime : Bool
  parent : Option ProcSlot
  woken : Bool

def Proc.Asleep (x : Proc) : Prop := x.state = .sleeping ∨ x.state = .suspendedSleep

def Proc.Suspended (x : Proc) : Prop := x.state = .suspended ∨ x.state = .suspendedSleep

instance (x : Proc) : Decidable x.Asleep := inferInstanceAs (Decidable (_ ∨ _))

instance (x : Proc) : Decidable x.Suspended := inferInstanceAs (Decidable (_ ∨ _))

/-- The loops over the process table that take one process lock at a time. -/
inductive Loop where
  | wakeup (chan : Chan)
  | wakeupOneProc (chan : Chan)
  | resumeAll
  | maybeResume
  | kill (pid : Nat)
  | killtree (pid : Nat)
deriving DecidableEq

/-- Where an activity is: in a loop, looking for a victim, or in `swapout_proc`. -/
inductive Job where
  | idle
  | loop (l : Loop) (i : Nat)
  | scan (i maxsz : Nat) (victim : Option ProcSlot)
  | swap (victim : ProcSlot) (prev : RunState)
deriving DecidableEq

/-- The process table and the activities, each with the process it runs for. -/
structure State where
  proc : ProcSlot → Proc
  enabled : Bool
  cur : Nat → Option ProcSlot
  job : Nat → Job

def State.setProc (s : State) (p : ProcSlot) (x : Proc) : State :=
  { s with proc := update s.proc p x }

def State.setJob (s : State) (a : Nat) (j : Job) : State :=
  { s with job := update s.job a j }

def State.isDescendant (s : State) (root : Nat) : Nat → Option ProcSlot → Bool
  | 0, _ | _, none => false
  | n + 1, some p => (s.proc p).pid = root || s.isDescendant root n (s.proc p).parent

def State.Hits (s : State) (p : ProcSlot) : Loop → Prop
  | .wakeup c => (s.proc p).chan = some c
  | .wakeupOneProc c => (s.proc p).chan = some c ∧ (s.proc p).Asleep
  | .resumeAll => True
  | .maybeResume => (s.proc p).Suspended ∧ (s.proc p).suspending = false
  | .kill pid => (s.proc p).pid = pid
  | .killtree pid => (s.proc p).state ≠ .unused ∧ s.isDescendant pid NPROC (some p) = true

instance (s : State) (p : ProcSlot) : (l : Loop) → Decidable (s.Hits p l)
  | .wakeupOneProc _ | .maybeResume | .killtree _ => inferInstanceAs (Decidable (_ ∧ _))
  | .resumeAll => inferInstanceAs (Decidable True)
  | .wakeup _ | .kill _ => inferInstanceAs (Decidable (_ = _))

def Proc.wake (x : Proc) : Proc :=
  match x.state with
  | .sleeping => { x with state := .runnable, woken := true }
  | .suspendedSleep => { x with state := .suspended, woken := true }
  | _ => { x with woken := true }

def Proc.resume (x : Proc) : Proc :=
  match x.state with
  | .suspended => { x with state := .runnable }
  | .suspendedSleep => { x with state := if x.chan.isSome then .sleeping else .runnable }
  | _ => x

def Proc.markKilled (x : Proc) : Proc :=
  match x.state with
  | .sleeping => { x with state := .runnable }
  | .suspended | .suspendedSleep => { x with state := .runnable, suspending := false }
  | _ => x

def Loop.effect : Loop → Proc → Proc
  | wakeup _, x | wakeupOneProc _, x => x.wake
  | resumeAll, x => { x.resume with suspending := false }
  | maybeResume, x => x.resume
  | kill _, x | killtree _, x => x.markKilled

def Loop.once : Loop → Bool
  | wakeupOneProc _ | maybeResume | kill _ => true
  | _ => false

def State.visit (s : State) (a : Nat) (l : Loop) (i : Nat) : State :=
  if h : i < NPROC then
    if s.Hits ⟨i, h⟩ l then
      (s.setProc ⟨i, h⟩ (l.effect (s.proc ⟨i, h⟩))).setJob a
        (if l.once then .idle else .loop l (i + 1))
    else s.setJob a (.loop l (i + 1))
  else s.setJob a .idle

def State.midschedCanSuspend (s : State) (p : ProcSlot) (cur : Option ProcSlot) : Bool :=
  ((s.proc p).state = .runnable ∨ (s.proc p).state = .sleeping) ∧ (s.proc p).suspending = false ∧
    (s.proc p).sz ≠ 0 ∧ 1 < (s.proc p).pid ∧ cur ≠ some p ∧ (s.proc p).realTime = false

def Proc.suspend (x : Proc) : Proc :=
  { x with
    state := if x.state = .sleeping then .suspendedSleep else .suspended
    suspending := true }

def State.midschedSuspendOne (s : State) (a i maxsz : Nat) (victim : Option ProcSlot) : State :=
  if h : i < NPROC then
    if s.midschedCanSuspend ⟨i, h⟩ (s.cur a) = true ∧ maxsz < (s.proc ⟨i, h⟩).sz then
      s.setJob a (.scan (i + 1) (s.proc ⟨i, h⟩).sz (some ⟨i, h⟩))
    else s.setJob a (.scan (i + 1) maxsz victim)
  else
    match victim with
    | none => s.setJob a .idle
    | some v =>
      if s.midschedCanSuspend v (s.cur a) = true then
        (s.setProc v (s.proc v).suspend).setJob a (.swap v (s.proc v).state)
      else s.setJob a .idle

def Proc.swapped (x : Proc) (prev : RunState) (ok : Bool) : Proc :=
  { x with suspending := false, state := if ok = false ∧ x.Suspended then prev else x.state }

inductive Event where
  | pick (p : ProcSlot)
  | yield (p : ProcSlot)
  | sleep (p : ProcSlot) (c : Chan)
  | wakeup1 (p : ProcSlot)
  | enable
  | start (a : Nat) (cur : Option ProcSlot) (l : Loop)
  | suspendOne (a : Nat) (cur : Option ProcSlot)
  | step (a : Nat)
  | finish (a : Nat) (ok : Bool)
deriving DecidableEq

def State.Runs (s : State) (cur : Option ProcSlot) : Prop := ∀ p ∈ cur, (s.proc p).state = .running

instance (s : State) (cur : Option ProcSlot) : Decidable (s.Runs cur) :=
  inferInstanceAs (Decidable (∀ p ∈ cur, _))

/-- A step of a process, of the scheduler, of `wakeup1` or of the mid-term scheduler, slot by slot.
-/
def fire (s : State) : Event → Option State
  | .pick p =>
    if (s.proc p).state = .runnable then
      some (s.setProc p { s.proc p with state := .running, chan := none })
    else none
  | .yield p =>
    if (s.proc p).state = .running then some (s.setProc p { s.proc p with state := .runnable })
    else none
  | .sleep p c =>
    if (s.proc p).state = .running then
      some (s.setProc p { s.proc p with state := .sleeping, chan := some c, woken := false })
    else none
  | .wakeup1 p =>
    if (s.proc p).chan = some (.proc p) then some (s.setProc p (s.proc p).wake) else some s
  | .enable => some { s with enabled := true }
  | .start a cur l =>
    if s.job a = .idle ∧ s.Runs cur ∧ (l = .maybeResume → s.enabled = true) then
      some { s with
        enabled := s.enabled && l ≠ .resumeAll
        cur := update s.cur a cur
        job := update s.job a (.loop l 0) }
    else none
  | .suspendOne a cur =>
    if s.job a = .idle ∧ s.Runs cur ∧ s.enabled = true then
      some { s with
        cur := update s.cur a cur
        job := update s.job a (.scan 0 0 none) }
    else none
  | .step a =>
    if s.Runs (s.cur a) then
      match s.job a with
      | .loop l i => some (s.visit a l i)
      | .scan i maxsz victim => some (s.midschedSuspendOne a i maxsz victim)
      | _ => none
    else none
  | .finish a ok =>
    if s.Runs (s.cur a) then
      match s.job a with
      | .swap v prev => some ((s.setProc v ((s.proc v).swapped prev ok)).setJob a .idle)
      | _ => none
    else none

structure Started (s : State) : Prop where
  state : ∀ p, (s.proc p).state = .unused ∨ (s.proc p).state = .runnable
  woken : ∀ p, (s.proc p).woken = false
  job : ∀ a, s.job a = .idle

variable {s s' : State} {e : Event} {es : List Event} {l : Loop} {x : Proc} {p v : ProcSlot}
  {a i : Nat} {j : Job}

/-- What a step does to the processes, and to the calls of `swapout_proc` in progress. -/
inductive Fired (s : State) : Event → State → Prop
  | quiet {e : Event} {en : Bool} {cur : Nat → Option ProcSlot} {job : Nat → Job}
    (hjob : ∀ a v prev, job a = .swap v prev → s.job a = .swap v prev) :
    Fired s e { s with enabled := en, cur := cur, job := job }
  | picked {p : ProcSlot} (hp : (s.proc p).state = .runnable) :
    Fired s (.pick p) (s.setProc p { s.proc p with state := .running, chan := none })
  | yielded {p : ProcSlot} (hp : (s.proc p).state = .running) :
    Fired s (.yield p) (s.setProc p { s.proc p with state := .runnable })
  | slept {p : ProcSlot} {c : Chan} (hp : (s.proc p).state = .running) : Fired s (.sleep p c)
      (s.setProc p { s.proc p with state := .sleeping, chan := some c, woken := false })
  | woke {p : ProcSlot} (hchan : (s.proc p).chan = some (.proc p)) :
    Fired s (.wakeup1 p) (s.setProc p (s.proc p).wake)
  | hit {a i : Nat} {l : Loop} {p : ProcSlot} {j : Job} (hjob : s.job a = .loop l i)
    (hi : p.val = i) (hhit : s.Hits p l) (hj : ∀ v prev, j ≠ .swap v prev) :
    Fired s (.step a) ((s.setProc p (l.effect (s.proc p))).setJob a j)
  | marked {a i m : Nat} {v : ProcSlot} (hjob : s.job a = .scan i m (some v))
    (hcan : s.midschedCanSuspend v (s.cur a) = true) :
    Fired s (.step a) ((s.setProc v (s.proc v).suspend).setJob a (.swap v (s.proc v).state))
  | finished {a : Nat} {v : ProcSlot} {prev : RunState} {ok : Bool}
    (hjob : s.job a = .swap v prev) :
    Fired s (.finish a ok) ((s.setProc v ((s.proc v).swapped prev ok)).setJob a .idle)

theorem Fired.setJob (hj : ∀ v prev, j ≠ .swap v prev) : Fired s e (s.setJob a j) :=
  .quiet fun b v prev hb => by
    by_cases hab : b = a
    · subst hab
      rw [update_self] at hb
      exact absurd hb (hj v prev)
    · rwa [update_of_ne hab] at hb

theorem fire_cases (h : fire s e = some s') : Fired s e s' := by
  cases e with
  | pick p | yield p | sleep p c =>
    obtain ⟨hp, rfl⟩ := of_guarded h
    constructor
    exact hp
  | wakeup1 p =>
    simp only [fire] at h
    split at h
    · next hp =>
      cases h
      exact .woke hp
    · cases h
      exact .quiet fun _ _ _ hb => hb
  | enable =>
    cases h
    exact .quiet fun _ _ _ hb => hb
  | start a cur l | suspendOne a cur =>
    obtain ⟨-, rfl⟩ := of_guarded h
    refine .quiet fun b v prev hb => ?_
    by_cases hab : b = a
    · subst hab
      rw [update_self] at hb
      cases hb
    · rwa [update_of_ne hab] at hb
  | step a =>
    simp only [fire, Option.ite_none_right_eq_some] at h
    obtain ⟨-, h⟩ := h
    split at h
    · next l i hjob =>
      cases h
      unfold State.visit
      split
      · split
        · next hhit => exact .hit hjob rfl hhit (by split <;> nofun)
        · exact .setJob nofun
      · exact .setJob nofun
    · next i maxsz victim hjob =>
      cases h
      unfold State.midschedSuspendOne
      split
      · split <;> exact .setJob nofun
      · split
        · exact .setJob nofun
        · split
          · next hcan => exact .marked hjob hcan
          · exact .setJob nofun
    · cases h
  | finish a ok =>
    simp only [fire, Option.ite_none_right_eq_some] at h
    obtain ⟨-, h⟩ := h
    split at h
    · next v prev hjob =>
      cases h
      exact .finished hjob
    · cases h

def State.Restorable (s : State) : Prop :=
  ∀ a v prev, s.job a = .swap v prev → prev = .runnable ∨ prev = .sleeping

theorem State.Restorable.setJob (h : s.Restorable)
    (hj : ∀ v prev, j = .swap v prev → prev = .runnable ∨ prev = .sleeping) :
    (s.setJob a j).Restorable :=
  (forall_update_iff s.job
    fun _ k => ∀ v prev, k = .swap v prev → prev = .runnable ∨ prev = .sleeping).2
    ⟨hj, fun b _ => h b⟩

theorem State.Restorable.fired (h : s.Restorable) (hf : Fired s e s') : s'.Restorable := by
  cases hf with
  | quiet hjob => exact fun a v prev hswap => h a v prev (hjob a v prev hswap)
  | picked | yielded | slept | woke => exact h
  | hit hjob hi hhit hj => exact h.setJob fun v prev hswap => absurd hswap (hj v prev)
  | marked hjob hcan =>
    refine h.setJob fun w prev hswap => ?_
    cases hswap
    exact (of_decide_eq_true hcan).1
  | finished hjob => exact h.setJob nofun

def Proc.Alert (x : Proc) : Prop := x.woken = true → ¬ x.Asleep

def State.Alert (s : State) : Prop := ∀ p, (s.proc p).Alert

/-- A victim that was asleep is not put back to sleep after a wakeup. -/
def State.Unwoken (s : State) : Event → Prop
  | .finish a ok => ∀ v, s.job a = .swap v .sleeping → ok = false → (s.proc v).state = .suspended →
      (s.proc v).woken = false
  | _ => True

instance (s : State) : (e : Event) → Decidable (s.Unwoken e)
  | .finish _ _ => inferInstanceAs (Decidable (∀ _, _))
  | .pick _ | .yield _ | .sleep _ _ | .wakeup1 _ | .enable | .start _ _ _ | .suspendOne _ _
  | .step _ =>
    inferInstanceAs (Decidable True)

theorem State.Alert.setProc (h : s.Alert) (hx : x.Alert) : (s.setProc p x).Alert :=
  (forall_update_iff s.proc fun _ y => y.Alert).2 ⟨hx, fun q _ => h q⟩

theorem Loop.effect_alert (hx : x.Alert) : (l.effect x).Alert := by
  obtain ⟨state, chan, suspending, sz, pid, realTime, parent, woken⟩ := x
  cases state <;> cases l <;>
    simp_all [Proc.Alert, Loop.effect, Proc.wake, Proc.resume, Proc.markKilled, Proc.Asleep]

theorem State.Alert.fired (h : s.Alert) (hr : s.Restorable) (hun : s.Unwoken e)
    (hf : Fired s e s') : s'.Alert := by
  cases hf with
  | quiet => exact h
  | picked | yielded | slept => exact h.setProc (by simp [Proc.Alert, Proc.Asleep])
  | @woke p => exact h.setProc (Loop.effect_alert (l := .wakeup (.proc p)) (h p))
  | @hit a i l p => exact h.setProc (Loop.effect_alert (h p))
  | @marked a i m v =>
    refine h.setProc fun hw => ?_
    have hsleep : (s.proc v).state ≠ .sleeping := fun he => h v hw (.inl he)
    simp [Proc.Asleep, Proc.suspend, hsleep]
  | @finished a v prev ok hjob =>
    refine h.setProc fun hw => ?_
    have hawake : ¬ (s.proc v).Asleep := h v hw
    by_cases hback : ok = false ∧ (s.proc v).Suspended
    · obtain rfl | rfl := hr a v prev hjob
      · simp [Proc.Asleep, Proc.swapped, hback]
      · obtain ⟨hok, hsusp⟩ := hback
        have hunwoken := hun v hjob hok (hsusp.resolve_right fun he => hawake (.inr he))
        exact absurd hw (by simp [Proc.swapped, hunwoken])
    · simpa [Proc.Asleep, Proc.swapped, hback] using hawake

theorem State.Alert.lost (hun : ¬ s.Unwoken e) (hf : fire s e = some s') : ¬ s'.Alert := by
  cases e with
  | finish a ok =>
    simp only [State.Unwoken, Classical.not_forall, Bool.not_eq_false] at hun
    obtain ⟨v, hjob, hok, hstate, hw⟩ := hun
    simp only [fire, hjob, Option.ite_none_right_eq_some, Option.some.injEq] at hf
    obtain ⟨-, rfl⟩ := hf
    intro h
    have hx : ((s.proc v).swapped .sleeping ok).Alert := by
      simpa only [State.setJob, State.setProc, update_self] using h v
    refine hx hw (.inl ?_)
    simp [Proc.swapped, hok, Proc.Suspended, hstate]
  | _ => exact absurd trivial hun

def twoProcs : State where
  proc p := ⟨if p < 2 then .runnable else .unused, none, false, (p.val + 1) * 4096, p + 2, false,
    none, false⟩
  enabled := true
  cur _ := none
  job _ := .idle

theorem twoProcs_started : Started twoProcs where
  state p := by
    by_cases hp : p < 2
    · exact .inr (if_pos hp)
    · exact .inl (if_neg hp)
  woken _ := rfl
  job _ := rfl

def suspension : List Event :=
  [.pick 1, .sleep 1 (.addr 0), .pick 0, .suspendOne 0 (some 0)] ++ List.replicate (NPROC + 1)
    (.step 0)

/-- No wakeup is lost exactly if, whenever `swapout_proc` wrote nothing, none has come to a victim
that slept. -/
theorem wakeups_kept_iff (hs : Started s) : Always fire State.Alert s es ↔
    Along fire State.Unwoken s es :=
  always_iff_along (I := fun s => s.Alert ∧ s.Restorable) (fun _ hI => hI.1)
    (fun _ _ _ hI hun hf => ⟨hI.1.fired hI.2 hun (fire_cases hf), hI.2.fired (fire_cases hf)⟩)
    (fun _ _ _ _ hun hf => State.Alert.lost hun hf)
    ⟨fun p hw => absurd hw (by rw [hs.woken p]; decide),
      fun a v prev hswap => by rw [hs.job a] at hswap; cases hswap⟩

/-- A process is woken while `swapout_proc` works on it, and is made runnable after that. -/
def resumption : List Event :=
  suspension ++ [.start 1 none (.wakeup (.addr 0)), .step 1, .step 1, .finish 0 true,
    .start 2 none .maybeResume, .step 2, .step 2, .pick 1]

theorem wakeups_kept_twoProcs : Started twoProcs ∧ (runEvents fire twoProcs resumption).isSome ∧
    Along fire State.Unwoken twoProcs resumption ∧ Always fire State.Alert twoProcs resumption := by
  have hunwoken : Along fire State.Unwoken twoProcs resumption := by decide +kernel
  exact ⟨twoProcs_started, by decide +kernel, hunwoken,
    (wakeups_kept_iff twoProcs_started).2 hunwoken⟩

/-- A wakeup during a `swapout_proc` that has written nothing is forgotten. -/
theorem wakeup_forgotten : ∃ es s', runEvents fire twoProcs es = some s' ∧ ¬ s'.Alert := by
  obtain ⟨s', hs', hw, hasleep⟩ : ∃ s', runEvents fire twoProcs (suspension ++
      [.start 1 none (.wakeup (.addr 0)), .step 1, .step 1, .finish 0 false]) = some s' ∧
      (s'.proc 1).woken ∧ (s'.proc 1).Asleep :=
    exists_of_any (by decide +kernel)
  exact ⟨_, s', hs', fun halert => halert 1 hw hasleep⟩

def Proc.Active (x : Proc) : Prop := x.state = .runnable ∨ x.state = .running

instance (x : Proc) : Decidable x.Active := inferInstanceAs (Decidable (_ ∨ _))

def State.Exclusive (s : State) : Prop := ∀ a v prev, s.job a = .swap v prev → ¬ (s.proc v).Active

def State.Swapping (s : State) (v : ProcSlot) : Prop := ∃ a prev, s.job a = .swap v prev

def Proc.Roused (x : Proc) : Loop → Prop
  | .wakeup _ | .wakeupOneProc _ => x.state = .sleeping
  | .resumeAll | .maybeResume => x.state = .suspended ∨ x.state = .suspendedSleep ∧ x.chan = none
  | .kill _ | .killtree _ => x.Asleep ∨ x.Suspended

/-- No step wakes, kills or resumes a process `swapout_proc` works on, or makes it runnable
otherwise. -/
def State.Spares (s : State) : Event → Prop
  | .step a => ∀ l p, s.job a = .loop l p.val → s.Hits p l → s.Swapping p → ¬ (s.proc p).Roused l
  | .wakeup1 p => (s.proc p).chan = some (.proc p) → s.Swapping p → (s.proc p).state ≠ .sleeping
  | .finish a ok => ∀ v, s.job a = .swap v .runnable → ok = false → (s.proc v).Suspended →
      ∀ b prev, b ≠ a → s.job b ≠ .swap v prev
  | _ => True

theorem Loop.effect_active (hx : ¬ x.Active) : (l.effect x).Active ↔ x.Roused l := by
  obtain ⟨state, chan, suspending, sz, pid, realTime, parent, woken⟩ := x
  cases state <;> cases l <;> cases chan <;>
    simp_all [Proc.Active, Proc.Roused, Loop.effect, Proc.wake, Proc.resume, Proc.markKilled,
      Proc.Asleep, Proc.Suspended]

theorem State.Exclusive.setProc (h : s.Exclusive) (hx : s.Swapping p → ¬ x.Active) :
    (s.setProc p x).Exclusive := by
  intro a v prev hswap
  by_cases hv : v = p
  · subst hv
    simpa only [State.setProc, update_self] using hx ⟨a, prev, hswap⟩
  · simpa only [State.setProc, update_of_ne hv] using h a v prev hswap

theorem State.Exclusive.setJob (h : s.Exclusive)
    (hj : ∀ v prev, j = .swap v prev → ¬ (s.proc v).Active) :
    (s.setJob a j).Exclusive :=
  (forall_update_iff s.job fun _ k => ∀ v prev, k = .swap v prev → ¬ (s.proc v).Active).2
    ⟨hj, fun b _ => h b⟩

theorem State.Exclusive.fired (h : s.Exclusive) (hr : s.Restorable) (hsp : s.Spares e)
    (hf : Fired s e s') : s'.Exclusive := by
  have hout {p : ProcSlot} (hp : (s.proc p).Active) : ¬ s.Swapping p :=
    fun ⟨a, prev, hswap⟩ => h a p prev hswap hp
  cases hf with
  | quiet hjob => exact fun a v prev hswap => h a v prev (hjob a v prev hswap)
  | picked hp => exact h.setProc fun hswap => absurd hswap (hout (.inl hp))
  | yielded hp => exact h.setProc fun hswap => absurd hswap (hout (.inr hp))
  | slept hp => exact h.setProc fun hswap => absurd hswap (hout (.inr hp))
  | @woke p hchan =>
    refine h.setProc fun hswap => ?_
    obtain ⟨b, prev, hb⟩ := hswap
    have hactive := Loop.effect_active (l := .wakeup (.proc p)) (h b p prev hb)
    exact fun hx => hsp hchan ⟨b, prev, hb⟩ (hactive.1 hx)
  | @hit a i l p j hjob hi hhit hj =>
    refine (h.setProc fun hswap => ?_).setJob fun v prev he => absurd he (hj v prev)
    obtain ⟨b, prev, hb⟩ := hswap
    rw [Loop.effect_active (h b p prev hb)]
    exact hsp l p (hi ▸ hjob) hhit ⟨b, prev, hb⟩
  | @marked a i m v hjob hcan =>
    have hself : ¬ (s.proc v).suspend.Active := by
      unfold Proc.suspend Proc.Active
      split <;> simp
    refine (h.setProc fun _ => hself).setJob fun w prev he => ?_
    cases he
    simpa only [State.setProc, update_self] using hself
  | @finished a v prev ok hjob =>
    refine State.Exclusive.setProc (s := s.setJob a .idle) (h.setJob nofun) fun ⟨b, prev', hb⟩ => ?_
    have hba : b ≠ a := fun he => by simp [State.setJob, he] at hb
    have hb' : s.job b = .swap v prev' := by simpa [State.setJob, hba] using hb
    by_cases hback : ok = false ∧ (s.proc v).Suspended
    · obtain rfl | rfl := hr a v prev hjob
      · exact absurd hb' (hsp v hjob hback.1 hback.2 b prev' hba)
      · simp [Proc.Active, Proc.swapped, hback]
    · simpa [Proc.Active, Proc.swapped, hback] using h b v prev' hb'

theorem visit_hit (hi : p.val = i) (hhit : s.Hits p l) : s.visit a l i =
    (s.setProc p (l.effect (s.proc p))).setJob a (if l.once then .idle else .loop l (i + 1)) := by
  subst hi
  unfold State.visit
  rw [dif_pos p.isLt, if_pos hhit]

theorem State.Exclusive.disturbed (h : s.Exclusive) (hsp : ¬ s.Spares e) (hf : fire s e = some s') :
    ¬ s'.Exclusive := by
  cases e with
  | step a =>
    simp only [State.Spares, Classical.not_forall, not_not] at hsp
    obtain ⟨l, p, hjob, hhit, ⟨b, prev, hb⟩, hrouse⟩ := hsp
    simp only [fire, hjob, visit_hit rfl hhit, Option.ite_none_right_eq_some, Option.some.injEq]
      at hf
    obtain ⟨-, rfl⟩ := hf
    have hba : b ≠ a := fun he => by simp [he, hjob] at hb
    intro h'
    have hx := h' b p prev (by simpa [State.setJob, State.setProc, hba] using hb)
    simp only [State.setJob, State.setProc, update_self] at hx
    exact hx ((Loop.effect_active (h b p prev hb)).2 hrouse)
  | wakeup1 p =>
    simp only [State.Spares, Classical.not_forall, not_not] at hsp
    obtain ⟨hchan, ⟨b, prev, hb⟩, hsleep⟩ := hsp
    simp only [fire, hchan, if_true, Option.some.injEq] at hf
    subst hf
    intro h'
    have hx := h' b p prev hb
    simp [State.setProc, Proc.wake, Proc.Active, hsleep] at hx
  | finish a ok =>
    simp only [State.Spares, Classical.not_forall, not_not] at hsp
    obtain ⟨v, hjob, hok, hsusp, b, prev, hba, hb⟩ := hsp
    simp only [fire, hjob, Option.ite_none_right_eq_some, Option.some.injEq] at hf
    obtain ⟨-, rfl⟩ := hf
    intro h'
    have hx := h' b v prev (by simpa [State.setJob, State.setProc, hba] using hb)
    simp [State.setJob, State.setProc, Proc.swapped, hok, hsusp, Proc.Active] at hx
  | _ => exact absurd trivial hsp

/-- No process runs while `swapout_proc` works on it exactly if all steps spare it. -/
theorem victim_not_run_iff (hs : Started s) :
    Always fire State.Exclusive s es ↔ Along fire State.Spares s es :=
  have hidle {a : Nat} {v : ProcSlot} {prev : RunState} (hswap : s.job a = .swap v prev) :
    False := by
    rw [hs.job a] at hswap
    cases hswap
  always_iff_along (I := fun s => s.Exclusive ∧ s.Restorable) (fun _ hI => hI.1)
    (fun _ _ _ hI hsp hf => ⟨hI.1.fired hI.2 hsp (fire_cases hf), hI.2.fired (fire_cases hf)⟩)
    (fun _ _ _ hI hsp hf => hI.1.disturbed hsp hf)
    ⟨fun _ _ _ hswap => (hidle hswap).elim, fun _ _ _ hswap => (hidle hswap).elim⟩

def State.RousesNone (s : State) : Job → Prop
  | .loop l i => ∀ p : ProcSlot, p.val = i → s.Hits p l → ¬ (s.proc p).Roused l
  | _ => True

/-- The step makes no process runnable that is not. -/
def State.Gentle (s : State) : Event → Prop
  | .step a => s.RousesNone (s.job a)
  | .wakeup1 p => (s.proc p).state ≠ .sleeping
  | .finish _ ok => ok = true
  | _ => True

theorem State.Gentle.spares (h : s.Gentle e) : s.Spares e := by
  cases e with
  | step a =>
    intro l p hjob hhit _
    simp only [State.Gentle, State.RousesNone, hjob] at h
    exact h p rfl hhit
  | wakeup1 p => exact fun _ _ => h
  | finish a ok => exact fun v _ hok => absurd (h.symm.trans hok) (by decide)
  | _ => trivial

instance (x : Proc) : (l : Loop) → Decidable (x.Roused l)
  | .wakeup _ | .wakeupOneProc _ => inferInstanceAs (Decidable (_ = _))
  | .resumeAll | .maybeResume | .kill _ | .killtree _ => inferInstanceAs (Decidable (_ ∨ _))

instance (s : State) : (j : Job) → Decidable (s.RousesNone j)
  | .loop _ _ => inferInstanceAs (Decidable (∀ _, _))
  | .idle | .scan _ _ _ | .swap _ _ => inferInstanceAs (Decidable True)

instance (s : State) : (e : Event) → Decidable (s.Gentle e)
  | .step a => inferInstanceAs (Decidable (s.RousesNone (s.job a)))
  | .wakeup1 _ => inferInstanceAs (Decidable (_ ≠ _))
  | .finish _ _ => inferInstanceAs (Decidable (_ = _))
  | .pick _ | .yield _ | .sleep _ _ | .enable | .start _ _ _ | .suspendOne _ _ =>
    inferInstanceAs (Decidable True)

def wakening : List Event :=
  suspension ++ [.start 1 none (.wakeup (.addr 0)), .step 1, .step 1, .finish 0 true]

theorem victim_not_run_twoProcs : Started twoProcs ∧ (runEvents fire twoProcs wakening).isSome ∧
    Along fire State.Spares twoProcs wakening ∧ Always fire State.Exclusive twoProcs wakening := by
  have hgentle : Along fire State.Gentle twoProcs wakening := by decide +kernel
  have hspares : Along fire State.Spares twoProcs wakening :=
    hgentle.steps (I := fun _ => True) (fun _ _ _ _ h _ => h.spares)
      (fun _ _ _ _ _ _ => trivial) trivial
  exact ⟨twoProcs_started, by decide +kernel, hspares,
    (victim_not_run_iff twoProcs_started).2 hspares⟩

/-- `kill` lets a process run while `swapout_proc` works on it. -/
theorem victim_killed : ∃ es s', runEvents fire twoProcs es = some s' ∧ ¬ s'.Exclusive := by
  obtain ⟨s', hs', hjob, hactive⟩ : ∃ s', runEvents fire twoProcs (suspension ++
      [.start 1 none (.kill 3), .step 1, .step 1]) = some s' ∧
      s'.job 0 = .swap 1 .sleeping ∧ (s'.proc 1).Active :=
    exists_of_any (by decide +kernel)
  exact ⟨_, s', hs', fun hex => hex 0 1 .sleeping hjob hactive⟩

end OopsOS.Midsched
