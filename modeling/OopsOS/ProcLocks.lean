import OopsOS.Procs
import OopsOS.Spinlocks

namespace OopsOS.Table
set_option autoImplicit true
open Function Relation

inductive Lock where
  | proc (q : ProcSlot)
  | mq
deriving DecidableEq

inductive ProcState where
  | unused
  | alive
  | zombie
deriving DecidableEq

structure Data where
  state : ProcSlot → ProcState
  parent : ProcSlot → Option ProcSlot
  pthread : ProcSlot → Option ProcSlot
  initproc : ProcSlot

inductive Spawn where
  | fork
  | clone
deriving DecidableEq

/-- The loops over the children or threads of a process; `group` is `tgroup_kill_and_reap`. -/
inductive Reap where
  | wait
  | waitpid
  | join
  | group
deriving DecidableEq

/-- Where a CPU is in a call of `q`: at turn `i` of a scan of the process table, or with the lock of
process `i`. -/
inductive Place where
  | idle
  | drop (qs : List ProcSlot)
  | sweep (i : Nat)
  | sweepAt (i : ProcSlot)
  | rt (best : Option ProcSlot) (i : Nat)
  | rtAt (best : Option ProcSlot) (i : ProcSlot)
  | alloc (k : Spawn) (q : ProcSlot) (i : Nat)
  | allocAt (k : Spawn) (q i : ProcSlot)
  | fork (q np : ProcSlot)
  | forkMq (q np : ProcSlot)
  | clone (np leader : ProcSlot)
  | cloneLeader (np leader : ProcSlot)
  | reap (k : Reap) (q : ProcSlot)
  | scan (k : Reap) (q : ProcSlot) (i : Nat)
  | scanAt (k : Reap) (q i : ProcSlot)
  | reapMq (q i : ProcSlot)
  | exit (q : ProcSlot)
  | exitInit (q init : ProcSlot)
  | exitSelf (q : ProcSlot)
  | exitOwn (q : ProcSlot)
  | exitParent (q r : ProcSlot)
  | exitChild (q r : ProcSlot)
  | reparent (q r : ProcSlot) (i : Nat)
  | reparentAt (q r i : ProcSlot)
  | msg (q : ProcSlot)
  | msgMq (q : ProcSlot)
  | msgMore (q : ProcSlot)
  | msgWake (q : ProcSlot) (i : Nat)
  | msgWakeAt (q i : ProcSlot)
  | msgSleep (q : ProcSlot)
deriving DecidableEq

/-- Where a call starts, or goes on when its process is picked again. -/
def Place.starts : Place → Bool
  | sweep i | alloc _ _ i => i = 0
  | rt best i => best = none ∧ i = 0
  | reap _ _ | exit _ | msg _ => true
  | _ => false

def Data.leader (d : Data) (q : ProcSlot) : ProcSlot := (d.pthread q).getD q

/-- Whom the loops look for: `np->parent` or `p->pthread`. -/
def Data.guardian (d : Data) : Reap → ProcSlot → Option ProcSlot
  | .wait, i | .waitpid, i => d.parent i
  | .join, i | .group, i => d.pthread i

def Data.set (d : Data) (i : ProcSlot) (st : ProcState) (parent pthread : Option ProcSlot) : Data :=
  { d with
    state := update d.state i st
    parent := update d.parent i parent
    pthread := update d.pthread i pthread }

def Data.free (d : Data) (i : ProcSlot) : Data := d.set i .unused none none

/-- A turn of a loop over the process table that takes the lock of each process. -/
def visit (i : Nat) (at' : ProcSlot → Place) (done : Act Lock Place Data) : Act Lock Place Data :=
  if h : i < NPROC then .acquire (.proc ⟨i, h⟩) (at' ⟨i, h⟩) else done

/-- The locks in the calls. `ok` stands for what is not modelled, such as whether there is memory.
-/
def act (d : Data) : Place → Bool → Option (Act Lock Place Data)
  | .idle, _ => none
  | .drop [], _ => some (.goto .idle d)
  | .drop (q :: qs), _ => some (.release (.proc q) (.drop qs) d)
  | .sweep i, _ => some (visit i .sweepAt (.goto .idle d))
  | .sweepAt i, ok => some (.release (.proc i) (if ok = true then .idle else .sweep (i + 1)) d)
  | .rt best i, _ => some (visit i (.rtAt best) (.goto (.drop best.toList) d))
  | .rtAt best i, true =>
    match best with
    | none => some (.goto (.rt (some i) (i + 1)) d)
    | some b => some (.release (.proc b) (.rt (some i) (i + 1)) d)
  | .rtAt best i, false => some (.release (.proc i) (.rt best (i + 1)) d)
  | .alloc k q i, _ => some (visit i (.allocAt k q) (.goto .idle d))
  | .allocAt k q i, ok =>
    if d.state i ≠ .unused then some (.release (.proc i) (.alloc k q (i + 1)) d)
    else if ok = false then some (.goto (.drop [i]) d)
    else
      match k with
      | .fork => some (.goto (.fork q i) d)
      | .clone => some (.goto (.clone i (d.leader q)) (d.set i .unused none (some (d.leader q))))
  | .fork q np, _ => some (.acquire .mq (.forkMq q np))
  | .forkMq q np, _ => some (.release .mq (.drop [np]) (d.set np .alive (some q) none))
  | .clone np leader, _ => some (.acquire (.proc leader) (.cloneLeader np leader))
  | .cloneLeader np leader, _ =>
    some (.release (.proc leader) (.drop [np]) (d.set np .alive none (some leader)))
  | .reap k q, _ => some (.acquire (.proc q) (.scan k q 0))
  | .scan k q i, ok =>
    if h : i < NPROC then
      if d.guardian k ⟨i, h⟩ = some q ∧ (k = .waitpid → ok = true) then
        some (.acquire (.proc ⟨i, h⟩) (.scanAt k q ⟨i, h⟩))
      else some (.goto (.scan k q (i + 1)) d)
    else some (.release (.proc q) (if k = .group ∧ ok = true then .exit q else .idle) d)
  | .scanAt k q i, ok =>
    if d.state i ≠ .zombie then some (.release (.proc i) (.scan k q (i + 1)) d)
    else
      match k with
      | .wait | .waitpid => some (.acquire .mq (.reapMq q i))
      | .join => some (.release (.proc i) (.drop [q]) (if ok = true then d.free i else d))
      | .group => some (.release (.proc i) (.scan k q (i + 1)) (d.free i))
  | .reapMq q i, ok => some (.release .mq (.drop [i, q]) (if ok = true then d.free i else d))
  | .exit q, _ => some (.acquire (.proc d.initproc) (.exitInit q d.initproc))
  | .exitInit q init, _ => some (.release (.proc init) (.exitSelf q) d)
  | .exitSelf q, _ => some (.acquire (.proc q) (.exitOwn q))
  | .exitOwn q, _ => ((d.parent q).or (d.pthread q)).map fun r =>
    .release (.proc q) (.exitParent q r) d
  | .exitParent q r, _ => some (.acquire (.proc r) (.exitChild q r))
  | .exitChild q r, _ => some (.acquire (.proc q) (.reparent q r 0))
  | .reparent q r i, _ =>
    if h : i < NPROC then
      if d.parent ⟨i, h⟩ = some q then some (.acquire (.proc ⟨i, h⟩) (.reparentAt q r ⟨i, h⟩))
      else some (.goto (.reparent q r (i + 1)) d)
    else some (.release (.proc r) (.drop [q]) { d with state := update d.state q .zombie })
  | .reparentAt q r i, _ => some (.release (.proc i) (.reparent q r (i + 1))
      { d with parent := update d.parent i (some d.initproc) })
  | .msg q, _ => some (.acquire .mq (.msgMq q))
  | .msgMq q, ok => if ok = true then some (.goto (.msgMore q) d) else some
    (.acquire (.proc q) (.msgSleep q))
  | .msgMore q, ok => if ok = true then some (.goto (.msgWake q 0) d) else some
    (.release .mq .idle d)
  | .msgWake q i, _ => some (visit i (.msgWakeAt q) (.goto (.msgMore q) d))
  | .msgWakeAt q i, _ => some (.release (.proc i) (.msgWake q (i + 1)) d)
  | .msgSleep q, _ => some (.release .mq (.drop [q]) d)

abbrev State := SpinState Lock Place Data

def Entry (c c' : Place) : Prop := c = .idle ∧ c'.starts = true

instance (c c' : Place) : Decidable (Entry c c') := inferInstanceAs (Decidable (_ ∧ _))

def fire : State → SpinEvent Place → Option State := SpinState.fire act Entry

variable {s s' : State} {e : SpinEvent Place} {es : List (SpinEvent Place)} {a i : Nat}
  {c c' : Place} {x y : Lock} {d : Data} {ok : Bool} {A : Act Lock Place Data}

structure Started (s : State) : Prop where
  holder : ∀ x, s.holder x = none
  spins : ∀ a, s.spins a = none
  place : ∀ a, s.place a = .idle

/-- The locks that a CPU has at a place, the last one first. -/
def Place.locks : Place → List Lock
  | idle | sweep _ | alloc _ _ _ | reap _ _ | exit _ | exitSelf _ | exitParent _ _ | msg _ => []
  | drop qs => qs.map .proc
  | rt best _ => best.toList.map .proc
  | rtAt best i => .proc i :: best.toList.map .proc
  | sweepAt q | allocAt _ _ q | fork _ q | clone q _ | scan _ q _ | exitInit _ q | exitOwn q
  | exitChild _ q => [.proc q]
  | forkMq _ np => [.mq, .proc np]
  | cloneLeader np leader => [.proc leader, .proc np]
  | scanAt _ q i => [.proc i, .proc q]
  | reapMq q i => [.mq, .proc i, .proc q]
  | reparent q r _ => [.proc q, .proc r]
  | reparentAt q r i => [.proc i, .proc q, .proc r]
  | msgMq _ | msgMore _ | msgWake _ _ => [.mq]
  | msgWakeAt _ i | msgSleep i => [.proc i, .mq]

inductive Acquires : Place → Lock → Place → Prop
  | sweep {i : Nat} (hi : i < NPROC) : Acquires (.sweep i) (.proc ⟨i, hi⟩) (.sweepAt ⟨i, hi⟩)
  | rt {best : Option ProcSlot} {i : Nat} (hi : i < NPROC) :
    Acquires (.rt best i) (.proc ⟨i, hi⟩) (.rtAt best ⟨i, hi⟩)
  | alloc {k : Spawn} {q : ProcSlot} {i : Nat} (hi : i < NPROC) :
    Acquires (.alloc k q i) (.proc ⟨i, hi⟩) (.allocAt k q ⟨i, hi⟩)
  | fork {q np : ProcSlot} : Acquires (.fork q np) .mq (.forkMq q np)
  | clone {np leader : ProcSlot} : Acquires (.clone np leader) (.proc leader)
    (.cloneLeader np leader)
  | reap {k : Reap} {q : ProcSlot} : Acquires (.reap k q) (.proc q) (.scan k q 0)
  | scan {k : Reap} {q : ProcSlot} {i : Nat} (hi : i < NPROC) :
    Acquires (.scan k q i) (.proc ⟨i, hi⟩) (.scanAt k q ⟨i, hi⟩)
  | scanAt {k : Reap} {q i : ProcSlot} : Acquires (.scanAt k q i) .mq (.reapMq q i)
  | exit {q init : ProcSlot} : Acquires (.exit q) (.proc init) (.exitInit q init)
  | exitSelf {q : ProcSlot} : Acquires (.exitSelf q) (.proc q) (.exitOwn q)
  | exitParent {q r : ProcSlot} : Acquires (.exitParent q r) (.proc r) (.exitChild q r)
  | exitChild {q r : ProcSlot} : Acquires (.exitChild q r) (.proc q) (.reparent q r 0)
  | reparent {q r : ProcSlot} {i : Nat} (hi : i < NPROC) :
    Acquires (.reparent q r i) (.proc ⟨i, hi⟩) (.reparentAt q r ⟨i, hi⟩)
  | msg {q : ProcSlot} : Acquires (.msg q) .mq (.msgMq q)
  | msgMq {q : ProcSlot} : Acquires (.msgMq q) (.proc q) (.msgSleep q)
  | msgWake {q : ProcSlot} {i : Nat} (hi : i < NPROC) :
    Acquires (.msgWake q i) (.proc ⟨i, hi⟩) (.msgWakeAt q ⟨i, hi⟩)

theorem acquire_cases (h : act d c ok = some (.acquire x c')) : Acquires c x c' := by
  cases c
  case drop qs => cases qs <;> cases h
  case rtAt best i => cases ok <;> cases best <;> cases h
  case exitOwn q => simp [act] at h
  all_goals
    simp only [act, visit] at h
    repeat' split at h
    all_goals cases h
    all_goals constructor

theorem follows_locks : SpinState.Follows act Entry Place.locks where
  start c c' h := by
    obtain ⟨rfl, hc⟩ := h
    cases c' <;> simp_all [Place.starts, Place.locks]
  acquire d c ok x c' h := by cases acquire_cases h <;> rfl
  release d c ok x c' d' h := by
    cases c
    case drop qs =>
      cases qs <;> cases h
      simp +contextual [Place.locks]
    case rtAt best i => cases ok <;> cases best <;> cases h <;> simp [Place.locks]
    case exitOwn q =>
      obtain ⟨r, -, hr⟩ := Option.map_eq_some_iff.1 h
      cases hr
      simp [Place.locks]
    all_goals
      simp only [act, visit] at h
      repeat' split at h
      all_goals cases h
      all_goals simp [Place.locks]
  goto d c ok c' d' h := by
    cases c
    case drop qs => cases qs <;> cases h; simp [Place.locks]
    case rtAt best i => cases ok <;> cases best <;> cases h; simp [Place.locks]
    case exitOwn q => simp [act] at h
    all_goals
      simp only [act, visit] at h
      repeat' split at h
      all_goals cases h
      all_goals simp [Place.locks]

/-- The locks in the order of the slots, with the lock of the message queues last. -/
def Lock.rank : Lock → Nat
  | proc i => i
  | mq => NPROC

/-- The acquisition is against the order of the slots, or in `msgsnd` or `msgrcv`. -/
def Place.inverted : Place → Bool
  | cloneLeader np leader => leader ≤ np
  | scanAt _ q i => i ≤ q
  | reparent q r _ => q ≤ r
  | reparentAt q r i => i ≤ q ∨ i ≤ r
  | msgWakeAt _ _ | msgSleep _ => true
  | _ => false

/-- `rt_pick` goes up in the process table. -/
def Place.Sorted : Place → Prop
  | rt best i => ∀ b ∈ best, b.val < i
  | rtAt best i => ∀ b ∈ best, b < i
  | _ => True

theorem Acquires.rank_lt (h : Acquires c x c') (hsort : c'.Sorted) (hup : ¬ c'.inverted)
    (hy : y ∈ c.locks) : y.rank < x.rank := by
  cases h with
  | rt hi =>
    obtain ⟨b, hb, rfl⟩ := List.mem_map.1 hy
    exact hsort b (Option.mem_toList.1 hb)
  | fork | scanAt =>
    simp only [Place.locks, List.mem_cons, List.not_mem_nil, or_false] at hy
    obtain rfl | rfl := hy <;> exact Fin.isLt _
  | scan hi =>
    obtain rfl := List.mem_singleton.1 hy
    exact lt_of_not_ge fun hle => hup (decide_eq_true hle)
  | reparent hi =>
    obtain ⟨hq, hr⟩ := not_or.1 fun hle => hup (decide_eq_true hle)
    simp only [Place.locks, List.mem_cons, List.not_mem_nil, or_false] at hy
    obtain rfl | rfl := hy
    · exact lt_of_not_ge hq
    · exact lt_of_not_ge hr
  | _ => simp_all [Place.locks, Place.inverted, Lock.rank]

def Inv (s : State) : Prop := SpinState.Holds act Place.locks s ∧ ∀ a, (s.place a).Sorted

theorem Place.Sorted.act (hc : c.Sorted) (h : act d c ok = some A) : A.next.Sorted := by
  cases c
  case drop qs => cases qs <;> cases h <;> trivial
  case rt best i =>
    simp only [Table.act, visit] at h
    split at h <;> cases h
    · exact hc
    · trivial
  case rtAt best i =>
    cases ok
    · cases h
      exact fun b hb => Nat.lt_succ_of_lt (hc b hb)
    · cases best <;> cases h
      all_goals
        rintro b ⟨⟩
        exact Nat.lt_succ_self _
  case exitOwn q =>
    obtain ⟨r, -, rfl⟩ := Option.map_eq_some_iff.1 h
    trivial
  all_goals
    simp only [Table.act, visit] at h
    repeat' split at h
    all_goals cases h
    all_goals trivial

theorem Place.sorted_of_starts (h : c.starts = true) : c.Sorted := by
  cases c with
  | rt best i =>
    obtain ⟨rfl, -⟩ := of_decide_eq_true h
    nofun
  | rtAt => cases h
  | _ => trivial

theorem sorted_fire (h : ∀ a, (s.place a).Sorted) (hf : fire s e = some s') :
    ∀ a, (s'.place a).Sorted := by
  have hput {a : Nat} {c : Place} (hc : c.Sorted) : ∀ b, (update s.place a c b).Sorted :=
    (forall_update_iff s.place fun _ c => c.Sorted).2 ⟨hc, fun b _ => h b⟩
  exact SpinState.fire_invariant (I := fun place _ => ∀ a, (place a).Sorted)
    (fun a c hc => hput (Place.sorted_of_starts hc.2)) (fun a ok x c hact => hput ((h a).act hact))
    (fun a ok x c d hact => hput ((h a).act hact)) (fun a ok c d hact => hput ((h a).act hact)) h hf

/-- A CPU spins against the order of the locks. -/
def State.Inverted (s : State) : Prop := ∃ a, (s.spins a).isSome ∧ (s.place a).inverted

/-- The next acquisition, if there is one, goes up in the order of the locks. -/
def Upward : Option (Act Lock Place Data) → Prop
  | some (.acquire _ c) => ¬ c.inverted
  | _ => True

def State.Upward (s : State) : SpinEvent Place → Prop
  | .start _ _ => True
  | .step a ok => Table.Upward (act s.data (s.place a) ok)

theorem State.Upward.fired (h : s.Upward e) (hup : ¬ s.Inverted) (hf : fire s e = some s') :
    ¬ s'.Inverted := by
  intro ⟨b, hb, hinv⟩
  obtain ⟨x, hx⟩ := Option.isSome_iff_exists.1 hb
  obtain ⟨hs, hsame⟩ | ⟨-, ok, rfl, hact⟩ := SpinState.spins_cases hf hx
  · exact hup ⟨b, by simp [hs], hsame ▸ hinv⟩
  · rw [State.Upward, hact] at h
    exact h hinv

/-- A nested acquisition closes no cycle; asked only if it or a spinning CPU is out of order. -/
def State.Guarded (s : State) : SpinEvent Place → Prop
  | .start _ _ => True
  | .step a ok => ∀ x c, s.spins a = none → act s.data (s.place a) ok = some (.acquire x c) →
      (s.place a).locks ≠ [] → c.inverted ∨ s.Inverted →
      ∀ b, s.holder x = some b → ¬ ReflTransGen s.Awaits b a

theorem State.Upward.guarded (h : s.Upward e) (hup : ¬ s.Inverted) : s.Guarded e := by
  cases e with
  | start a c => trivial
  | step a ok =>
    intro x c _ hact _ hinv
    rw [State.Upward, hact] at h
    exact absurd hinv (not_or.2 ⟨h, hup⟩)

theorem Inv.live_of_not_inverted (h : Inv s) (hup : ¬ s.Inverted) : s.Live := by
  rw [SpinState.live_iff_needs]
  refine acyclic_of_rank (f := Lock.rank) fun y x ⟨a, hy, hx⟩ => ?_
  obtain ⟨d, c, ok, c', hc, hact, hmem⟩ := h.1.before follows_locks hy hx
  refine (acquire_cases hact).rank_lt (hc ▸ h.2 a) (fun hinv => hup ⟨a, by simp [hx], hc ▸ hinv⟩)
    hmem

theorem Inv.fired (h : Inv s) (hf : fire s e = some s') : Inv s' :=
  ⟨h.1.fire follows_locks hf, sorted_fire h.2 hf⟩

theorem Inv.guarded_iff (h : Inv s) (hlive : s.Live) (hf : fire s e = some s') :
    s'.Live ↔ s.Guarded e := by
  rw [hlive.fire_iff hf]
  cases e with
  | start a c => exact Iff.rfl
  | step a ok =>
    constructor
    · exact fun hord x c ha hact _ _ => hord x c ha hact
    · intro hguard x c ha hact b hb
      by_cases hnest : (s.place a).locks = []
      · intro hpath
        obtain rfl | ⟨d, -, y, -, hy⟩ := hpath.cases_tail
        · exact h.1.holder_ne ha hnest hb
        · exact h.1.holder_ne ha hnest hy
      by_cases hinv : c.inverted ∨ s.Inverted
      · exact hguard x c ha hact hnest hinv b hb
      obtain ⟨hc, hs⟩ := not_or.1 hinv
      have hup : s.Upward (.step a ok) := by rwa [State.Upward, hact]
      exact (hlive.fire_iff hf).1 ((h.fired hf).live_of_not_inverted (hup.fired hs hf)) x c ha hact
        b hb

/-- A run has no deadlock exactly if no nested acquisition closes a cycle while a CPU waits out of
order, and none if all acquisitions are in order. -/
theorem table_live_iff (h : Started s) :
    (Always fire SpinState.Live s es ↔ Along fire State.Guarded s es) ∧
      (Along fire State.Upward s es → Always fire SpinState.Live s es) := by
  have hiff : Always fire SpinState.Live s es ↔ Along fire State.Guarded s es :=
    always_iff_along (I := fun s => s.Live ∧ Inv s) (fun _ hs => hs.1)
      (fun _ _ _ hs hP hf => ⟨(hs.2.guarded_iff hs.1 hf).2 hP, hs.2.fired hf⟩)
      (fun _ _ _ hs hP hf hlive => hP ((hs.2.guarded_iff hs.1 hf).1 hlive))
      ⟨SpinState.live_of_spins h.spins, .of_idle h.spins h.holder, fun a => by
        rw [h.place a]; trivial⟩
  refine ⟨hiff, fun hup => hiff.2 (hup.steps (I := fun s => ¬ s.Inverted)
    (fun _ _ _ hs h _ => h.guarded hs) (fun _ _ _ hs h hf => h.fired hs hf) ?_)⟩
  rintro ⟨a, ha, -⟩
  rw [h.spins a] at ha
  cases ha

def boot : State where
  holder _ := none
  spins _ := none
  place _ := .idle
  data :=
    { state := fun i => if i = 0 ∨ i = 2 then .alive else .unused
      parent := fun i => if i = 2 then some 0 else none
      pthread := fun _ => none
      initproc := 0 }

theorem boot_started : Started boot := ⟨fun _ => rfl, fun _ => rfl, fun _ => rfl⟩

instance : (o : Option (Act Lock Place Data)) → Decidable (Upward o)
  | some (.acquire _ _) => inferInstanceAs (Decidable (¬ _))
  | none | some (.release _ _ _) | some (.goto _ _) => inferInstanceAs (Decidable True)

instance (s : State) : (e : SpinEvent Place) → Decidable (s.Upward e)
  | .start _ _ => inferInstanceAs (Decidable True)
  | .step _ _ => inferInstanceAs (Decidable (Table.Upward _))

/-- `rt_pick` keeps the lock of slot 2, for which `wait` of the process in slot 0 waits. -/
def picking : List (SpinEvent Place) :=
  .start 0 (.rt none 0) :: SpinEvent.steps 0 3 ++ [.start 1 (.reap .wait 0), .step 1 true] ++
    SpinEvent.steps 0 6 ++ SpinEvent.steps 1 4 ++ SpinEvent.steps 0 2

theorem table_live_boot : Started boot ∧ (runEvents fire boot picking).isSome ∧
    Along fire State.Guarded boot picking ∧ Always fire SpinState.Live boot picking := by
  have hup : Along fire State.Upward boot picking := by decide +kernel
  have hlive := (table_live_iff boot_started).2 hup
  exact ⟨boot_started, by decide +kernel, (table_live_iff boot_started).1.1 hlive, hlive⟩

/-- `fork` has the new process and wants the queues; `msgsnd` has them and wants the process. -/
theorem fork_msgsnd_deadlock : Started boot ∧ ∃ es s, runEvents fire boot es = some s ∧
    ¬ s.Live := by
  obtain ⟨s, hs, h0, hmq, h1, hproc⟩ :
    ∃ s, runEvents fire boot (.start 0 (.alloc .fork 0 0) :: SpinEvent.steps 0 6 ++
      .start 1 (.msg 2) :: SpinEvent.steps 1 8 ++ [.step 0 true]) = some s ∧
      s.spins 0 = some .mq ∧ s.holder .mq = some 1 ∧ s.spins 1 = some (.proc 1) ∧ s.holder
        (.proc 1) = some 0 :=
    exists_of_any (by decide +kernel)
  exact ⟨boot_started, _, s, hs, fun h => h 0 (.tail (.single ⟨_, h0, hmq⟩) ⟨_, h1, hproc⟩)⟩

end OopsOS.Table
