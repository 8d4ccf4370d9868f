import OopsOS.Procs
import OopsOS.Traces
import OopsOS.WaitGraphs

namespace OopsOS.Dmsg
set_option autoImplicit true
open Function

inductive Lock where
  | proc (q : ProcSlot)
  | dmsg
deriving DecidableEq

inductive Task where
  | send
  | rcv
  | close
deriving DecidableEq

/-- Where a CPU is: at the acquisition of a lock, at the code with the locks held that it names, or
at a release. -/
inductive Pc where
  | idle
  | visit (i : ProcSlot)
  | visiting (i : ProcSlot)
  | look (q : ProcSlot) (i : Nat)
  | looking (q i : ProcSlot)
  | found (q : ProcSlot)
  | enter (q : ProcSlot) (t : Task)
  | body (q : ProcSlot) (t : Task)
  | park (q : ProcSlot) (t : Task)
  | wake (q : ProcSlot) (t : Task) (i : Nat)
  | waking (q : ProcSlot) (t : Task) (i : ProcSlot)
  | unlock (q : ProcSlot)
  | resume (q : ProcSlot) (t : Task)
deriving DecidableEq

/-- A process is outside the calls, runs or sleeps in one, or was woken and does not run yet. -/
inductive Status where
  | away
  | inside
  | asleep (t : Task)
  | ready (t : Task)
deriving DecidableEq

/-- What `mark_killed` does to a process that sleeps. -/
def Status.roused : Status → Status
  | asleep t => ready t
  | st => st

structure State where
  target : ProcSlot
  count : Nat
  closed : Bool
  killed : Bool
  status : ProcSlot → Status
  holder : Lock → Option Nat
  pc : Nat → Pc

def State.goto (s : State) (a : Nat) (c : Pc) : State := { s with pc := update s.pc a c }

def State.setStatus (s : State) (q : ProcSlot) (x : Status) : State :=
  { s with status := update s.status q x }

def State.acquire (s : State) (a : Nat) (x : Lock) (c : Pc) : Option State :=
  if s.holder x = none then some ({ s with holder := update s.holder x (some a) }.goto a c)
  else none

def State.release (s : State) (a : Nat) (x : Lock) (c : Pc) : State :=
  { s with holder := update s.holder x none }.goto a c

def State.Sleeps (s : State) : Task → Prop
  | .send => s.closed = false ∧ DMSG_QUEUE_MAX ≤ s.count
  | .rcv => s.count = 0 ∧ s.killed = false ∧ s.closed = false
  | .close => False

instance (s : State) : (t : Task) → Decidable (s.Sleeps t)
  | .send | .rcv => inferInstanceAs (Decidable (_ ∧ _))
  | .close => inferInstanceAs (Decidable False)

def State.work (s : State) (a : Nat) (q : ProcSlot) (ok : Bool) : Task → State
  | .send =>
    if s.closed = false ∧ ok = true then { s with count := s.count + 1 }.goto a (.wake q .send 0)
    else s.goto a (.unlock q)
  | .rcv =>
    if 0 < s.count ∧ ok = true then { s with count := s.count - 1 }.goto a (.wake q .rcv 0)
    else s.goto a (.unlock q)
  | .close => { s with closed := true, count := 0 }.goto a (.wake q .close 0)

def State.visitSleeper (s : State) (a : Nat) (q : ProcSlot) (t : Task) (i : ProcSlot) : State :=
  match s.status i with
  | .asleep u => (s.setStatus i (.ready u)).release a (.proc i)
      (if t = .close then .wake q t (i.val + 1) else .unlock q)
  | _ => s.release a (.proc i) (.wake q t (i.val + 1))

def State.step (s : State) (a : Nat) (ok : Bool) : Option State :=
  match s.pc a with
  | .idle => none
  | .visit i => s.acquire a (.proc i) (.visiting i)
  | .visiting i => some (s.release a (.proc i) .idle)
  | .look q i =>
    if h : i < NPROC then s.acquire a (.proc ⟨i, h⟩) (.looking q ⟨i, h⟩)
    else some ((s.setStatus q .away).goto a .idle)
  | .looking q i =>
    if i = s.target then s.acquire a .dmsg (.found q)
    else some (s.release a (.proc i) (.look q (i.val + 1)))
  | .found q => some (s.release a (.proc s.target) (.body q .send))
  | .enter q t => s.acquire a .dmsg (.body q t)
  | .body q t => if s.Sleeps t then s.acquire a (.proc q) (.park q t) else some (s.work a q ok t)
  | .park q t => some ((s.setStatus q (.asleep t)).release a .dmsg (.visiting q))
  | .wake q t i =>
    if h : i < NPROC then s.acquire a (.proc ⟨i, h⟩) (.waking q t ⟨i, h⟩)
    else some (s.goto a (.unlock q))
  | .waking q t i => some (s.visitSleeper a q t i)
  | .unlock q => some ((s.setStatus q .away).release a .dmsg .idle)
  | .resume q t => some (s.release a (.proc q) (.enter q t))

inductive Event where
  | start (a : Nat) (q : ProcSlot) (t : Task)
  | visit (a : Nat) (i : ProcSlot)
  | pick (a : Nat)
  | step (a : Nat) (ok : Bool)
  | kill
deriving DecidableEq

/-- The start of a call or of another scan of the table, the choice of a process, a step, or `kill`.
-/
def fire (s : State) : Event → Option State
  | .start a q t =>
    if s.pc a = .idle ∧ s.status q = .away ∧ (t = .send ∨ q = s.target) then
      some ((s.setStatus q .inside).goto a (if t = .send then .look q 0 else .enter q t))
    else none
  | .visit a i => if s.pc a = .idle then some (s.goto a (.visit i)) else none
  | .pick a =>
    match s.pc a with
    | .visiting i =>
      match s.status i with
      | .ready t => some ((s.setStatus i .inside).goto a (.resume i t))
      | _ => none
    | _ => none
  | .step a ok => s.step a ok
  | .kill => some { s.setStatus s.target (s.status s.target).roused with killed := true }

structure Started (s : State) : Prop where
  count : s.count = 0
  status : ∀ q, s.status q = .away
  holder : ∀ x, s.holder x = none
  pc : ∀ a, s.pc a = .idle

def Pc.held (target : ProcSlot) : Pc → List Lock
  | visiting i | looking _ i | resume i _ => [.proc i]
  | found _ => [.proc target, .dmsg]
  | body _ _ | wake _ _ _ | unlock _ => [.dmsg]
  | park q _ => [.dmsg, .proc q]
  | waking _ _ i => [.dmsg, .proc i]
  | idle | visit _ | look _ _ | enter _ _ => []

def State.wants (s : State) : Pc → Option Lock
  | .visit i => some (.proc i)
  | .look _ i | .wake _ _ i => if h : i < NPROC then some (.proc ⟨i, h⟩) else none
  | .looking _ i => if i = s.target then some .dmsg else none
  | .enter _ _ => some .dmsg
  | .body q t => if s.Sleeps t then some (.proc q) else none
  | .idle | .visiting _ | .found _ | .park _ _ | .waking _ _ _ | .unlock _ | .resume _ _ => none

def State.Awaits (s : State) (a b : Nat) : Prop :=
  ∃ x, s.wants (s.pc a) = some x ∧ s.holder x = some b

/-- No cycle of CPUs each of which holds a lock for which the one before it spins. -/
def State.Live (s : State) : Prop := Acyclic s.Awaits

variable {s s' : State} {a b n : Nat} {x y : Lock} {c : Pc} {q i : ProcSlot} {t : Task} {ok : Bool}
  {e : Event} {es : List Event}

def State.Locking (s : State) : Prop := ∀ a x, s.holder x = some a ↔ x ∈ (s.pc a).held s.target

theorem State.Locking.setHolder (h : s.Locking) (ho : o = some a ∨ o = none)
    (hx : ∀ b, b ≠ a → s.holder x ≠ some b)
    (hc : ∀ y, y ∈ c.held s.target ↔ if y = x then o = some a else y ∈ (s.pc a).held s.target) :
    State.Locking ({ s with holder := update s.holder x o }.goto a c) := by
  intro b y
  show update s.holder x o y = some b ↔ y ∈ (update s.pc a c b).held s.target
  by_cases hba : b = a
  · rw [hba, update_self, hc]
    split
    · next hyx => rw [hyx, update_self]
    · next hyx => rw [update_of_ne hyx, h]
  · rw [update_of_ne hba]
    by_cases hyx : y = x
    · rw [hyx, update_self, ← h b x]
      refine iff_of_false (fun hb => ?_) (hx b hba)
      obtain rfl | rfl := ho
      · exact hba (Option.some.inj hb).symm
      · cases hb
    · rw [update_of_ne hyx, h]

/-- A CPU gets a lock, gives one up, or does neither; only then may the queue change. -/
inductive Stepped (s : State) (a : Nat) : State → Prop
  | acquired {x : Lock} {c : Pc} (hwants : s.wants (s.pc a) = some x) (hfree : s.holder x = none)
    (hc : c.held s.target = (s.pc a).held s.target ++ [x])
      (hpark : ∀ q t, c = .park q t → s.Sleeps t) :
    Stepped s a ({ s with holder := update s.holder x (some a) }.goto a c)
  | released {x : Lock} {c : Pc} {st : ProcSlot → Status} (hx : x ∈ (s.pc a).held s.target)
    (hc : ∀ y, y ∈ c.held s.target ↔ y ≠ x ∧ y ∈ (s.pc a).held s.target)
      (hpark : ∀ q t, c ≠ .park q t) :
    Stepped s a ({ s with status := st }.release a x c)
  | moved {n : Nat} {cl : Bool} {st : ProcSlot → Status} {c : Pc}
    (hc : c.held s.target = (s.pc a).held s.target) (hpark : ∀ q t, c ≠ .park q t)
    (hqueue : .dmsg ∈ (s.pc a).held s.target ∨ n = s.count ∧ cl = s.closed) :
    Stepped s a ({ s with count := n, closed := cl, status := st }.goto a c)

theorem acquire_cases (hs' : s.acquire a x c = some s') (hpc : s.pc a = c₀)
    (hwants : s.wants c₀ = some x)
    (hc : c.held s.target = c₀.held s.target ++ [x]) (hpark : ∀ q t, c = .park q t → s.Sleeps t) :
    Stepped s a s' := by
  subst hpc
  obtain ⟨hfree, rfl⟩ := of_guarded hs'
  exact .acquired hwants hfree hc hpark

theorem work_cases (hpc : s.pc a = .body q t) : Stepped s a (s.work a q ok t) := by
  have hmem : .dmsg ∈ (s.pc a).held s.target := by
    rw [hpc]
    exact List.mem_cons_self
  unfold State.work
  cases t with
  | send | rcv =>
    dsimp only
    split <;> exact .moved (by rw [hpc]; rfl) nofun (.inl hmem)
  | close => exact .moved (by rw [hpc]; rfl) nofun (.inl hmem)

theorem visitSleeper_cases (hpc : s.pc a = .waking q t i) :
    Stepped s a (s.visitSleeper a q t i) := by
  unfold State.visitSleeper
  split
  · refine .released (by simp [hpc, Pc.held]) (fun y => ?_) fun r k => ?_ <;> split <;>
      simp [hpc, Pc.held] <;> grind
  · exact .released (by simp [hpc, Pc.held]) (fun y => by simp [hpc, Pc.held]; grind) nofun

theorem step_cases (hs' : s.step a ok = some s') : Stepped s a s' := by
  unfold State.step at hs'
  split at hs'
  · cases hs'
  · next hpc => exact acquire_cases hs' hpc rfl rfl nofun
  · next hpc =>
    cases hs'
    exact .released (by simp [hpc, Pc.held]) (fun y => by simp [hpc, Pc.held]) nofun
  · next hpc =>
    split at hs'
    · next hi => exact acquire_cases hs' hpc (dif_pos hi) rfl nofun
    · cases hs'
      exact .moved (by rw [hpc]; rfl) nofun (.inr ⟨rfl, rfl⟩)
  · next hpc =>
    split at hs'
    · next hi => exact acquire_cases hs' hpc (if_pos hi) (by rw [hi]; rfl) nofun
    · cases hs'
      exact .released (by simp [hpc, Pc.held]) (fun y => by simp [hpc, Pc.held]) nofun
  · next hpc =>
    cases hs'
    exact .released (by simp [hpc, Pc.held]) (fun y => by simp [hpc, Pc.held]; grind) nofun
  · next hpc => exact acquire_cases hs' hpc rfl rfl nofun
  · next hpc =>
    split at hs'
    · next hsleep =>
      refine acquire_cases hs' hpc (if_pos hsleep) rfl fun _ _ hc => ?_
      cases hc
      exact hsleep
    · cases hs'
      exact work_cases hpc
  · next hpc =>
    cases hs'
    exact .released (by simp [hpc, Pc.held]) (fun y => by simp [hpc, Pc.held]; grind) nofun
  · next hpc =>
    split at hs'
    · next hi => exact acquire_cases hs' hpc (dif_pos hi) rfl nofun
    · cases hs'
      exact .moved (by rw [hpc]; rfl) nofun (.inr ⟨rfl, rfl⟩)
  · next hpc =>
    cases hs'
    exact visitSleeper_cases hpc
  · next hpc =>
    cases hs'
    exact .released (by simp [hpc, Pc.held]) (fun y => by simp [hpc, Pc.held]) nofun
  · next hpc =>
    cases hs'
    exact .released (by simp [hpc, Pc.held]) (fun y => by simp [hpc, Pc.held]) nofun

theorem fire_cases (hf : fire s e = some s') :
    (∃ a ok, e = .step a ok ∧ s.step a ok = some s') ∨
    (∀ a ok, e ≠ .step a ok) ∧ ((∃ a c st, c.held s.target = (s.pc a).held s.target ∧
      .dmsg ∉ c.held s.target ∧ (∀ q i, c ≠ .looking q i) ∧ s' = { s with status := st }.goto a c) ∨
    ∃ st, s' = { s with killed := true, status := st }) := by
  cases e with
  | start a q t =>
    obtain ⟨⟨hpc, -⟩, rfl⟩ := of_guarded hf
    refine .inr ⟨nofun, .inl ⟨a, _, _, ?_, ?_, ?_, rfl⟩⟩ <;> split <;> simp [hpc, Pc.held]
  | visit a i =>
    obtain ⟨hpc, rfl⟩ := of_guarded hf
    exact .inr ⟨nofun, .inl ⟨a, _, _, by rw [hpc]; rfl, by simp [Pc.held], by simp, rfl⟩⟩
  | pick a =>
    simp only [fire] at hf
    split at hf
    · next hpc =>
      split at hf
      · cases hf
        exact .inr ⟨nofun, .inl ⟨a, _, _, by rw [hpc]; rfl, by simp [Pc.held], by simp, rfl⟩⟩
      · cases hf
    · cases hf
  | step a ok => exact .inl ⟨a, ok, rfl, hf⟩
  | kill =>
    cases hf
    exact .inr ⟨nofun, .inr ⟨_, rfl⟩⟩

theorem State.Locking.stepped (h : s.Locking) (hs : Stepped s a s') : s'.Locking := by
  cases hs with
  | acquired hwants hfree hc =>
    refine h.setHolder (.inl rfl) (fun b _ hb => by simp [hfree] at hb) fun y => ?_
    rw [hc, List.mem_append, List.mem_singleton]
    split <;> simp_all
  | @released x c st hx hc =>
    refine State.Locking.setHolder (s := { s with status := st }) h (.inr rfl) (fun b hba hb => ?_)
      fun y => ?_
    · rw [(h a x).2 hx] at hb
      exact hba (Option.some.inj hb).symm
    · rw [hc]
      split <;> simp_all
  | moved hc =>
    exact (forall_update_iff s.pc fun b d => ∀ y, s.holder y = some b ↔ y ∈ d.held s.target).2
      ⟨fun y => hc ▸ h a y, fun b _ => h b⟩

theorem Pc.ne_park (h : .dmsg ∉ c.held i) (q : ProcSlot) (t : Task) : c ≠ .park q t := by
  rintro rfl
  exact h List.mem_cons_self

theorem fire_stepped (hf : fire s e = some s') :
    (∃ a, Stepped s a s') ∨ ∃ st, s' = { s with killed := true, status := st } := by
  obtain ⟨a, ok, -, hs⟩ | ⟨-, ⟨a, c, st, hc, hdmsg, -, rfl⟩ | hkill⟩ := fire_cases hf
  · exact .inl ⟨a, step_cases hs⟩
  · exact .inl ⟨a, .moved hc (Pc.ne_park hdmsg) (.inr ⟨rfl, rfl⟩)⟩
  · exact .inr hkill

theorem State.Locking.fire (h : s.Locking) (hf : fire s e = some s') : s'.Locking := by
  obtain ⟨a, hs⟩ | ⟨st, rfl⟩ := fire_stepped hf
  · exact h.stepped hs
  · exact h

def State.Looks (s : State) (a : Nat) : Prop := ∃ q, s.pc a = .looking q s.target

/-- A CPU has the message lock and wants the process lock of the target. -/
def State.Returns (s : State) (b : Nat) : Prop :=
  s.holder .dmsg = some b ∧ s.wants (s.pc b) = some (.proc s.target)

theorem State.Locking.busy (h : s.Locking) (hx : s.holder x = some a)
    (hy : s.wants (s.pc a) = some y) :
    (x = .proc s.target ∧ y = .dmsg ∧ s.Looks a) ∨ (x = .dmsg ∧ ∃ q, y = .proc q) := by
  have hmem := (h a x).1 hx
  cases hpc : s.pc a with
  | looking q i =>
    simp only [hpc, State.wants, Pc.held, List.mem_singleton, Option.ite_none_right_eq_some,
      Option.some.injEq] at hy hmem
    obtain ⟨rfl, rfl⟩ := hy
    exact .inl ⟨hmem, rfl, q, hpc⟩
  | body q t | wake q t i =>
    simp only [hpc, State.wants, Pc.held, List.mem_singleton] at hy hmem
    split at hy
    · cases hy
      exact .inr ⟨hmem, _, rfl⟩
    · cases hy
  | idle | visit i | look q i | enter q t => simp [hpc, Pc.held] at hmem
  | visiting | found | park | waking | unlock | resume => simp [hpc, State.wants] at hy

theorem State.Locking.live_iff (h : s.Locking) : s.Live ↔ ¬ ∃ a b, s.Looks a ∧ s.Returns b := by
  constructor
  · intro hlive hex
    obtain ⟨a, b, ⟨q, hq⟩, hb, hwants⟩ := hex
    have hab : s.Awaits a b := ⟨.dmsg, by rw [hq]; exact if_pos rfl, hb⟩
    have hba : s.Awaits b a := ⟨_, hwants, (h a _).2 (by rw [hq]; exact List.mem_cons_self)⟩
    exact hlive a (.tail (.single hab) hba)
  · intro hno a hcycle
    obtain ⟨b, ⟨x, -, hx⟩, hb⟩ := exists_next hcycle
    obtain ⟨c, ⟨y, hby, hy⟩, hc⟩ := exists_next hb
    obtain ⟨d, ⟨z, hcz, hz⟩, hd⟩ := exists_next hc
    obtain ⟨-, ⟨w, hdw, -⟩, -⟩ := exists_next hd
    have hpair {b c q z} (hb : s.holder .dmsg = some b) (hwants : s.wants (s.pc b) = some (.proc q))
        (hc : s.holder (.proc q) = some c) (hz : s.wants (s.pc c) = some z) : False := by
      obtain ⟨hq, -, hlook⟩ | ⟨hq, -⟩ := h.busy hc hz
      · exact hno ⟨c, b, hlook, hb, hq ▸ hwants⟩
      · cases hq
    obtain ⟨-, rfl, -⟩ | ⟨rfl, q, rfl⟩ := h.busy hx hby
    · obtain ⟨h', -⟩ | ⟨-, q, rfl⟩ := h.busy hy hcz
      · cases h'
      · exact hpair hy hcz hz hdw
    · exact hpair hx hby hy hcz

def State.Notifies (s : State) (ok : Bool) : Task → Prop
  | .send => s.closed = false ∧ s.count < DMSG_QUEUE_MAX ∧ ok = true
  | .rcv => 0 < s.count ∧ ok = true
  | .close => True

def State.Turns (s : State) (ok : Bool) : Pc → Prop
  | .enter q t => q = s.target ∧ s.Sleeps t
  | .found q => q = s.target ∧ s.Sleeps .send
  | .body _ t => s.target.val = 0 ∧ s.Notifies ok t
  | .waking _ t i => s.target.val = i.val + 1 ∧ (t = .close ∨ ∀ u, s.status i ≠ .asleep u)
  | _ => False

@[grind =]
theorem State.goto_pc : (s.goto a c).pc a = c := update_self ..

@[grind =]
theorem State.release_pc : (s.release a x c).pc a = c := update_self ..

@[grind =]
theorem State.release_target : (s.release a x c).target = s.target := rfl

@[grind =]
theorem State.release_sleeps : (s.release a x c).Sleeps t ↔ s.Sleeps t := Iff.rfl

@[grind →]
theorem State.acquire_same (hs' : s.acquire a x c = some s') :
    s'.pc a = c ∧ s'.target = s.target ∧ ∀ t, s'.Sleeps t ↔ s.Sleeps t := by
  obtain ⟨-, rfl⟩ := of_guarded hs'
  exact ⟨State.goto_pc, rfl, fun _ => Iff.rfl⟩

@[grind =]
theorem State.work_target : (s.work a q ok t).target = s.target := by
  cases t <;> grind [State.work, State.goto]

theorem State.work_pc (h : ¬ s.Sleeps t) (a q ok) :
    (s.Notifies ok t ∧ (s.work a q ok t).pc a = .wake q t 0) ∨
    (¬ s.Notifies ok t ∧ (s.work a q ok t).pc a = .unlock q) := by
  cases t <;> grind [State.work, State.Notifies, State.Sleeps]

theorem State.Notifies.not_sleeps (h : s.Notifies ok t) : ¬ s.Sleeps t := by
  cases t <;> grind [State.Notifies, State.Sleeps]

theorem step_looks (hs' : s.step a ok = some s') : s'.Looks a ↔
    ∃ q, s.pc a = .look q s.target.val := by
  unfold State.Looks
  unfold State.step at hs'
  split at hs'
  case h_4 q i hpc =>
    split at hs'
    · obtain ⟨hc, htarget, -⟩ := State.acquire_same hs'
      simp [hpc, hc, htarget, Fin.ext_iff]
    · cases hs'
      have := s.target.isLt
      grind
  case h_8 q t hpc =>
    split at hs'
    · simp [hpc, State.acquire_same hs']
    · next hsleep =>
      cases hs'
      obtain ⟨-, hc⟩ | ⟨-, hc⟩ := State.work_pc hsleep a q ok <;> simp [hpc, hc]
  all_goals grind [State.visitSleeper]

theorem State.wants_wake : s.wants (.wake q t n) = some (.proc i) ↔ n = i.val := by
  have := i.isLt
  grind [State.wants]

theorem step_returns (h : s'.Locking) (hs' : s.step a ok = some s') :
    s'.Returns a ↔ s.Turns ok (s.pc a) := by
  rw [State.Returns, h]
  unfold State.step at hs'
  split at hs'
  case h_8 q t hpc =>
    split at hs'
    · next hsleep =>
      have hnot : ¬ s.Notifies ok t := fun h => h.not_sleeps hsleep
      simp [hpc, State.acquire_same hs', State.wants, State.Turns, hnot]
    · next hsleep =>
      cases hs'
      obtain ⟨hn, hc⟩ | ⟨hn, hc⟩ := State.work_pc hsleep a q ok
      · rw [hc, State.wants_wake, State.work_target]
        simp [hpc, hn, State.Turns, Pc.held, eq_comm]
      · simp [hpc, hc, hn, State.wants, State.Turns]
  case h_11 q t i hpc =>
    cases hs'
    unfold State.visitSleeper
    split
    · next hi =>
      by_cases ht : t = .close
      · rw [if_pos ht, State.release_pc, State.wants_wake, State.release_target]
        simp [hpc, ht, State.Turns, State.setStatus, Pc.held, eq_comm]
      · simp [hpc, hi, ht, State.release_pc, State.wants, State.Turns]
    · next hi =>
      rw [State.release_pc, State.wants_wake, State.release_target]
      simpa [hpc, State.Turns, Pc.held, eq_comm] using fun _ => .inr fun u h => hi u h.symm
  all_goals grind [State.Turns, State.wants, Pc.held]

theorem Stepped.other (h : s.Locking) (hs : Stepped s a s') (hba : b ≠ a) :
    (s'.Looks b ↔ s.Looks b) ∧ (s'.Returns b ↔ s.Returns b) := by
  have hpc : s'.pc b = s.pc b := by cases hs <;> exact update_of_ne hba ..
  have htarget : s'.target = s.target := by cases hs <;> rfl
  refine ⟨by simp only [State.Looks, hpc, htarget], ?_⟩
  rw [State.Returns, State.Returns, h.stepped hs b, h b, hpc, htarget]
  refine and_congr_right fun hb => ?_
  cases hs with
  | acquired | released => exact Iff.rfl
  | moved hc hpark hqueue =>
    obtain ha | ⟨rfl, rfl⟩ := hqueue
    · have := ((h b _).2 hb).symm.trans ((h a _).2 ha)
      exact absurd (Option.some.inj this) hba
    · exact Iff.rfl

/-- No sender has the process lock of the target while a CPU with the message lock wants it. -/
def Ordered (s : State) : Event → Prop
  | .step a ok => ((∃ q, s.pc a = .look q s.target.val) → ∀ b, ¬ s.Returns b) ∧
      (s.Turns ok (s.pc a) → ∀ b, ¬ s.Looks b)
  | _ => True

theorem ordered_of_ne_step (h : ∀ a ok, e ≠ .step a ok) : Ordered s e := by
  cases e with
  | step a ok => exact absurd rfl (h a ok)
  | start | visit | pick | kill => trivial

theorem State.Locking.live_stepped (h : s.Locking) (hlive : s.Live) (hs : Stepped s a s')
    (hlook : s'.Looks a → ¬ s.Returns a) (hreturn : s'.Returns a → ¬ s.Looks a) :
    s'.Live ↔ (s'.Looks a → ∀ b, ¬ s.Returns b) ∧ (s'.Returns a → ∀ b, ¬ s.Looks b) := by
  have h' := h.stepped hs
  rw [h'.live_iff]
  constructor
  · refine fun hno => ⟨fun ha b hb => ?_, fun ha b hb => ?_⟩
    · have hba : b ≠ a := fun hba => hlook ha (hba ▸ hb)
      exact hno ⟨a, b, ha, (hs.other h hba).2.2 hb⟩
    · have hba : b ≠ a := fun hba => hreturn ha (hba ▸ hb)
      exact hno ⟨b, a, (hs.other h hba).1.2 hb, ha⟩
  · intro ⟨hL, hR⟩ ⟨c, b, hc, hb⟩
    by_cases hca : c = a <;> by_cases hba : b = a
    · obtain ⟨q, hq⟩ := hc
      have hmem := (h' b _).1 hb.1
      rw [hba, ← hca, hq] at hmem
      simp [Pc.held] at hmem
    · exact hL (hca ▸ hc) b ((hs.other h hba).2.1 hb)
    · exact hR (hba ▸ hb) c ((hs.other h hca).1.1 hc)
    · exact h.live_iff.1 hlive ⟨c, b, (hs.other h hca).1.1 hc, (hs.other h hba).2.1 hb⟩

theorem wants_of_killed {st : ProcSlot → Status}
    (h : State.wants { s with killed := true, status := st } c = some x) : s.wants c = some x := by
  cases c with
  | body q t =>
    simp only [State.wants, Option.ite_none_right_eq_some] at h ⊢
    refine ⟨?_, h.2⟩
    cases t with
    | send => exact h.1
    | rcv => exact absurd h.1.2.1 (by simp)
    | close => exact h.1
  | _ => exact h

theorem State.Locking.live_fire (h : s.Locking) (hlive : s.Live) (hf : Dmsg.fire s e = some s') :
    s'.Live ↔ Ordered s e := by
  have h' := h.fire hf
  obtain ⟨a, ok, rfl, hs⟩ | ⟨he, ⟨a, c, st, hc, hdmsg, hlook, rfl⟩ | ⟨st, rfl⟩⟩ := fire_cases hf
  · have hreturns := step_returns h' hs
    have hlooks := step_looks hs
    rw [h.live_stepped hlive (step_cases hs), hlooks, hreturns, Ordered]
    · intro hl hr
      obtain ⟨q, hq⟩ := hlooks.1 hl
      have hmem := (h a _).1 hr.1
      rw [hq] at hmem
      cases hmem
    · intro hr ⟨q, hq⟩
      have hturns := hreturns.1 hr
      rw [hq] at hturns
      exact hturns
  · have hl : ¬ State.Looks ({ s with status := st }.goto a c) a := fun ⟨q, hq⟩ =>
      hlook q _ (State.goto_pc.symm.trans hq)
    have hr : ¬ State.Returns ({ s with status := st }.goto a c) a := fun hr => by
      have hmem := (h' a _).1 hr.1
      rw [State.goto_pc] at hmem
      exact hdmsg hmem
    have hlive' := h.live_stepped hlive (.moved hc (Pc.ne_park hdmsg) (.inr ⟨rfl, rfl⟩))
      (fun ha => absurd ha hl)
      fun ha => absurd ha hr
    exact iff_of_true (hlive'.2 ⟨fun ha => absurd ha hl, fun ha => absurd ha hr⟩)
      (ordered_of_ne_step he)
  · refine iff_of_true (h'.live_iff.2 fun ⟨a, b, ha, hb, hwants⟩ => ?_) (ordered_of_ne_step he)
    exact h.live_iff.1 hlive ⟨a, b, ha, hb, wants_of_killed hwants⟩

theorem dmsg_live_iff (h : Started s) : Always fire State.Live s es ↔ Along fire Ordered s es := by
  have hlocking : s.Locking := fun a x => by simp [h.holder, h.pc, Pc.held]
  have hlive : s.Live := hlocking.live_iff.2 fun ⟨a, _, ⟨q, hq⟩, _⟩ => by simp [h.pc] at hq
  refine always_iff_along (I := fun s => s.Locking ∧ s.Live) (fun s hs => hs.2) ?_ ?_
    ⟨hlocking, hlive⟩
  · intro s e s' ⟨h, hlive⟩ hP hf
    exact ⟨h.fire hf, (h.live_fire hlive hf).2 hP⟩
  · intro s e s' ⟨h, hlive⟩ hP hf hlive'
    exact hP ((h.live_fire hlive hf).1 hlive')

def boot : State where
  target := 0
  count := 0
  closed := false
  killed := false
  status _ := .away
  holder _ := none
  pc _ := .idle

theorem dmsg_live_boot :
    Started boot ∧ (Always fire State.Live boot [.start 0 0 .rcv, .step 0 true, .start 1 1 .send] ↔
      Along fire Ordered boot [.start 0 0 .rcv, .step 0 true, .start 1 1 .send]) := by
  have h : Started boot := ⟨rfl, fun _ => rfl, fun _ => rfl, fun _ => rfl⟩
  exact ⟨h, dmsg_live_iff h⟩

/-- The target is about to sleep on its empty queue while a sender has found it. -/
theorem receiver_sender_deadlock : Started boot ∧ ∃ s, runEvents fire boot [.start 0 0 .rcv,
    .step 0 true, .start 1 1 .send, .step 1 true] = some s ∧ ¬ s.Live := by
  refine ⟨⟨rfl, fun _ => rfl, fun _ => rfl, fun _ => rfl⟩, _, rfl, fun hlive => hlive 0 ?_⟩
  exact .tail (.single ⟨.proc 0, rfl, rfl⟩) ⟨.dmsg, rfl, rfl⟩

end OopsOS.Dmsg
