import OopsOS.Family
import OopsOS.Procs
import OopsOS.Traces

namespace OopsOS.Mq
set_option autoImplicit true
open Function

abbrev MQMAX : Nat := 8

/-- A message queue without its messages; `page`: the page for them is allocated. -/
structure Queue where
  key : BitVec 32
  status : Bool
  refcount : Int
  page : Bool

structure State extends Procs where
  mqs : Fin MQMAX → Queue
  mqmask : ProcSlot → BitVec 32

/-- The calls, with what they meet. -/
inductive Event where
  | mqget (p : ProcSlot) (key : BitVec 32) (ok : Bool)
  | fork (p np : ProcSlot)
  | exec (p : ProcSlot)
  | exit (p : ProcSlot)
  | wait (p : ProcSlot) (ok : Bool)
  | waitpid (p np : ProcSlot) (ok : Bool)

variable {s s' : State} {e : Event} {es : List Event} {p q np : ProcSlot} {i j : Fin MQMAX}
  {key mask : BitVec 32} {ok : Bool} {m : Queue} {n : Nat}

def State.findkey (s : State) (key : BitVec 32) : Option (Fin MQMAX) :=
  (List.finRange MQMAX).find? fun i => (s.mqs i).status ∧ (s.mqs i).key = key

def State.setBit (s : State) (p : ProcSlot) (i : Fin MQMAX) : State :=
  { s with mqmask := update s.mqmask p (s.mqmask p ||| BitVec.twoPow 32 i) }

def State.newmq (s : State) (p : ProcSlot) (key : BitVec 32) (ok : Bool) : State :=
  match (List.finRange MQMAX).find? fun i => !(s.mqs i).status with
  | none => s
  | some i => if ok then { s with mqs := update s.mqs i ⟨key, true, 1, true⟩ }.setBit p i else s

def Queue.add (m : Queue) : Queue := { m with refcount := m.refcount + 1 }

def State.addmqcount (s : State) (mask : BitVec 32) : State :=
  { s with mqs := fun i => if mask.getLsbD i then (s.mqs i).add else s.mqs i }

def State.sysMqget (s : State) (p : ProcSlot) (key : BitVec 32) (ok : Bool) : State :=
  match s.findkey key with
  | some i =>
    if (s.mqmask p).getLsbD i then s
    else { s with mqs := update s.mqs i (s.mqs i).add }.setBit p i
  | none => s.newmq p key ok

def Queue.rmmq (m : Queue) : Queue := { m with page := false, status := false }

def Queue.drop (m : Queue) : Queue :=
  let m := { m with refcount := m.refcount - 1 }
  if m.refcount = 0 then m.rmmq else m

def State.releasemq (s : State) (key : BitVec 32) : State :=
  match s.findkey key with
  | some i => { s with mqs := update s.mqs i (s.mqs i).drop }
  | none => s

def State.releasemq2 (s : State) (mask : BitVec 32) : State :=
  { s with mqs := fun i => if mask.getLsbD i then (s.mqs i).drop else s.mqs i }

def State.fork (s : State) (p np : ProcSlot) : State :=
  let s := s.addmqcount (s.mqmask p)
  { s with
    toProcs := s.start np (some p) none
    mqmask := update s.mqmask np (s.mqmask p) }

def State.exec (s : State) (p : ProcSlot) : State :=
  let s := s.releasemq (s.mqmask p)
  { s with mqmask := update s.mqmask p 0 }

def State.release (s : State) (p : ProcSlot) : State :=
  { s.releasemq2 (s.mqmask p) with mqmask := update s.mqmask p 0 }

def State.reap (s : State) (p np : ProcSlot) (ok : Bool) : State :=
  let s := s.release p
  if ok then { s with toProcs := s.vacate np } else s

def fire (s : State) : Event → Option State
  | .mqget p key ok => if s.state p = .live then some (s.sysMqget p key ok) else none
  | .fork p np => if s.state p = .live ∧ s.state np = .unused then some (s.fork p np) else none
  | .exec p => if s.state p = .live then some (s.exec p) else none
  | .exit p => if s.state p = .live then some { s with toProcs := s.toProcs.exit p } else none
  | .wait p ok =>
    match s.deadChild p with
    | some np => if s.state p = .live then some (s.reap p np ok) else none
    | none => none
  | .waitpid p np ok =>
    if s.state p = .live ∧ s.parent np = some p ∧ s.state np = .zombie then some (s.reap p np ok)
    else none

def boot : State := ⟨Procs.boot, fun _ => ⟨0, false, 0, false⟩, fun _ => 0⟩

def State.holds (s : State) (i : Fin MQMAX) (p : ProcSlot) : Nat :=
  if s.state p ≠ .unused ∧ (s.mqmask p).getLsbD i then 1 else 0

def State.number (s : State) (i : Fin MQMAX) : Nat := ∑ p, s.holds i p

/-- A queue is in use, with a page, exactly if it has processes, and counts them. -/
def Queue.Counts (m : Queue) (n : Nat) : Prop :=
  m.page = m.status ∧ if m.status then m.refcount = n ∧ 0 < n else n = 0

def State.Sound (s : State) : Prop := ∀ i, (s.mqs i).Counts (s.number i)

/-- `exec` finds exactly the queue of its mask, and a reaped child has no queue. -/
def Fits (s : State) : Event → Prop
  | .exec p => ∀ i, s.findkey (s.mqmask p) = some i ↔ (s.mqmask p).getLsbD i
  | .wait p ok => ok → ∀ np, s.deadChild p = some np → ∀ i : Fin MQMAX, ¬ (s.mqmask np).getLsbD i
  | .waitpid _ np ok => ok → ∀ i : Fin MQMAX, ¬ (s.mqmask np).getLsbD i
  | _ => True

attribute [local grind =] update_apply State.holds

theorem number_change {t : State} (h : ∀ q, q ≠ p → t.holds i q = s.holds i q) :
    t.number i + s.holds i p = s.number i + t.holds i p := by
  have hsum := sum_update_add (Finset.mem_univ p) (s.holds i) (t.holds i p)
  have heq : update (s.holds i) p (t.holds i p) = t.holds i := by
    funext q
    grind
  rwa [heq] at hsum

theorem holds_le_number (s : State) (i : Fin MQMAX) (p : ProcSlot) : s.holds i p ≤ s.number i :=
  Finset.single_le_sum (f := s.holds i) (fun _ _ => Nat.zero_le _) (Finset.mem_univ p)

theorem Queue.Counts.add (h : m.Counts n) (hs : m.status = true) : m.add.Counts (n + 1) := by
  grind [Queue.Counts, Queue.add]

theorem Queue.Counts.drop (h : m.Counts (n + 1)) : m.drop.Counts n := by
  grind [Queue.Counts, Queue.drop, Queue.rmmq]

theorem Queue.Counts.not_drop (h : m.Counts n) (hs : m.status = true) : ¬ m.drop.Counts n := by
  grind [Queue.Counts, Queue.drop, Queue.rmmq]

theorem Queue.Counts.not_succ (h : m.Counts (n + 1)) : ¬ m.Counts n := by
  grind [Queue.Counts]

theorem getLsbD_setBit (mask : BitVec 32) (i j : Fin MQMAX) :
    (mask ||| BitVec.twoPow 32 i).getLsbD j = (mask.getLsbD j || decide (j = i)) := by
  have hi := i.isLt
  simp [BitVec.getLsbD_or, BitVec.getLsbD_twoPow]
  grind

theorem number_setBit (hlive : s.state p ≠ .unused) (hi : ¬ (s.mqmask p).getLsbD i) :
    (s.setBit p i).number j = s.number j + if j = i then 1 else 0 := by
  have h := number_change (s := s) (t := s.setBit p i) (i := j) (p := p)
    fun q hq => by simp [State.holds, State.setBit, hq]
  have hbit : (s.setBit p i).holds j p = s.holds j p + if j = i then 1 else 0 := by
    simp only [State.holds, State.setBit, update_self, getLsbD_setBit]
    by_cases hj : j = i
    · subst hj
      simp [hlive, hi]
    · simp [hj]
  omega

theorem number_clear (s : State) (p : ProcSlot) (i : Fin MQMAX) (m : Fin MQMAX → Queue) :
    (⟨s.toProcs, m, update s.mqmask p 0⟩ : State).number i + s.holds i p = s.number i := by
  have h := number_change (s := s) (t := ⟨s.toProcs, m, update s.mqmask p 0⟩) (i := i) (p := p)
    (by grind)
  simpa [State.holds] using h

theorem findkey_status (h : s.findkey key = some i) : (s.mqs i).status = true := by
  have hfound := List.find?_some h
  exact (of_decide_eq_true hfound).1

theorem releasemq_eq (s : State) (key : BitVec 32) : s.releasemq key =
    { s with mqs := fun i => if s.findkey key = some i then (s.mqs i).drop else s.mqs i } := by
  unfold State.releasemq
  cases hkey : s.findkey key with
  | none => simp
  | some j =>
    simp only [Option.some.injEq]
    congr 1
    funext i
    grind

theorem number_vacate (s : State) (np : ProcSlot) (i : Fin MQMAX) :
    ({ s with toProcs := s.vacate np } : State).number i + s.holds i np = s.number i := by
  have h := number_change (s := s) (t := { s with toProcs := s.vacate np }) (i := i) (p := np)
    fun q hq => by simp [State.holds, Procs.vacate, hq]
  simpa [State.holds, Procs.vacate] using h

theorem holds_release (hne : np ≠ p) (hnp : s.state np = .zombie) (i : Fin MQMAX) :
    (s.release p).holds i np = if (s.mqmask np).getLsbD i then 1 else 0 := by
  simp [State.holds, State.release, State.releasemq2, hne, hnp]

section
variable (h : s.Sound)
include h

theorem Sound.status_of_holds (hp : s.state p ≠ .unused)
    (hi : (s.mqmask p).getLsbD i = true) : (s.mqs i).status = true := by
  have hle := holds_le_number s i p
  grind [h i, Queue.Counts]

section
variable (hlive : s.state p = .live)
include hlive

theorem Sound.mqget : (s.sysMqget p key ok).Sound := by
  have hused : s.state p ≠ .unused := by simp [hlive]
  unfold State.sysMqget
  split
  · next i hi =>
    have hstatus := findkey_status hi
    split
    · exact h
    · next hbit =>
      intro j
      have hn := number_setBit (j := j) hused hbit
      change (update s.mqs i (s.mqs i).add j).Counts ((s.setBit p i).number j)
      grind [h j, (h i).add hstatus]
  · unfold State.newmq
    split
    · exact h
    · next i hi =>
      have hfree : (s.mqs i).status = false := by simpa using List.find?_some hi
      split
      · have hbit : ¬ (s.mqmask p).getLsbD i := fun hb => by
          grind [Sound.status_of_holds h hused hb]
        intro j
        have hn := number_setBit (j := j) hused hbit
        change (update s.mqs i ⟨key, true, 1, true⟩ j).Counts ((s.setBit p i).number j)
        grind [h j, h i, Queue.Counts]
      · exact h

theorem Sound.fork (hnp : s.state np = .unused) : (s.fork p np).Sound := by
  intro i
  have hn := number_change (s := s) (t := s.fork p np) (i := i) (p := np)
    fun q hq => by simp [State.holds, State.fork, State.addmqcount, Procs.start, hq]
  have hstatus := Sound.status_of_holds (p := p) (i := i) h (by simp [hlive])
  have hadd := (h i).add
  have hbefore : s.holds i np = 0 := by simp [State.holds, hnp]
  have hafter : (s.fork p np).holds i np = if (s.mqmask p).getLsbD i then 1 else 0 := by
    simp [State.holds, State.fork, State.addmqcount, Procs.start]
  change (if (s.mqmask p).getLsbD i then (s.mqs i).add else s.mqs i).Counts _
  grind [h i]

theorem Sound.release : (s.release p).Sound := by
  intro i
  have hn := number_clear s p i (s.release p).mqs
  have hi := h i
  rw [← hn] at hi
  have hdrop := fun hbit : s.holds i p = 1 => Queue.Counts.drop (hbit ▸ hi)
  change (if (s.mqmask p).getLsbD i then (s.mqs i).drop else s.mqs i).Counts
    ((s.release p).number i)
  change _ → (s.mqs i).drop.Counts ((s.release p).number i) at hdrop
  change (s.mqs i).Counts ((s.release p).number i + s.holds i p) at hi
  grind

theorem Sound.exec (hfits : Fits s (.exec p)) : (s.exec p).Sound := by
  have hrel := Sound.release h hlive
  simpa only [State.exec, releasemq_eq, hfits _, State.release, State.releasemq2] using hrel

theorem Sound.reap (hnp : s.state np = .zombie)
    (hfits : ok → ∀ i : Fin MQMAX, ¬ (s.mqmask np).getLsbD i) : (s.reap p np ok).Sound := by
  have hrel := Sound.release h hlive
  unfold State.reap
  cases ok with
  | false => exact hrel
  | true =>
    intro i
    have hn := number_vacate (s.release p) np i
    rw [holds_release (by grind) hnp, if_neg (hfits rfl i), Nat.add_zero] at hn
    have hi := hrel i
    rw [← hn] at hi
    exact hi

theorem Sound.not_exec (hfits : ¬ Fits s (.exec p)) : ¬ (s.exec p).Sound := by
  intro hsound
  simp only [Fits, not_forall] at hfits
  obtain ⟨i, hi⟩ := hfits
  have hn := number_clear s p i fun i =>
    if s.findkey (s.mqmask p) = some i then (s.mqs i).drop else s.mqs i
  have hs := h i
  have hs' := hsound i
  simp only [State.exec, releasemq_eq] at hs'
  have hholds : s.holds i p = if (s.mqmask p).getLsbD i then 1 else 0 := by
    simp [State.holds, hlive]
  by_cases hbit : (s.mqmask p).getLsbD i
  · have hkey : s.findkey (s.mqmask p) ≠ some i := by tauto
    rw [hholds, if_pos hbit] at hn
    rw [if_neg hkey] at hs'
    rw [← hn] at hs
    exact hs.not_succ hs'
  · have hkey : s.findkey (s.mqmask p) = some i := by tauto
    rw [hholds, if_neg hbit, Nat.add_zero] at hn
    rw [if_pos hkey] at hs'
    rw [← hn] at hs
    exact hs.not_drop (findkey_status hkey) hs'

theorem Sound.not_reap (hnp : s.state np = .zombie)
    (hi : (s.mqmask np).getLsbD i) : ¬ (s.reap p np true).Sound := by
  intro hsound
  have hn := number_vacate (s.release p) np i
  rw [holds_release (by grind) hnp, if_pos hi] at hn
  have hs := Sound.release h hlive i
  rw [← hn] at hs
  exact hs.not_succ (hsound i)

end

theorem Sound.fire (hfits : Fits s e) (hf : fire s e = some s') : s'.Sound := by
  cases e with
  | wait p ok =>
    simp only [Mq.fire] at hf
    split at hf
    · next np hfound =>
      obtain ⟨hlive, rfl⟩ := of_guarded hf
      exact Sound.reap h hlive (Procs.zombie_of_deadChild hfound) fun hok => hfits hok np hfound
    · cases hf
  | exit p =>
    obtain ⟨hlive, rfl⟩ := of_guarded hf
    intro i
    have hn := number_change (s := s) (t := { s with toProcs := s.toProcs.exit p }) (i := i)
      (p := p)
      fun q hq => by simp [State.holds, Procs.exit, hq]
    have hp : ({ s with toProcs := s.toProcs.exit p } : State).holds i p = s.holds i p := by
      simp [State.holds, Procs.exit, hlive]
    have hi := h i
    rw [hp, Nat.add_right_cancel_iff] at hn
    rwa [← hn] at hi
  | _ =>
    obtain ⟨hlive, rfl⟩ := of_guarded hf
    first
    | exact Sound.mqget h hlive
    | exact Sound.fork h hlive.1 hlive.2
    | exact Sound.exec h hlive hfits
    | exact Sound.reap h hlive.1 hlive.2.2 hfits

theorem Sound.not_fire (hfits : ¬ Fits s e) (hf : Mq.fire s e = some s') : ¬ s'.Sound := by
  cases e with
  | exec p =>
    obtain ⟨hlive, rfl⟩ := of_guarded hf
    exact Sound.not_exec h hlive hfits
  | wait p ok =>
    simp only [Fits, not_forall, not_not] at hfits
    obtain ⟨rfl, np, hfound, i, hi⟩ := hfits
    simp only [Mq.fire, hfound, Option.ite_none_right_eq_some, Option.some.injEq] at hf
    obtain ⟨hlive, rfl⟩ := hf
    exact Sound.not_reap h hlive (Procs.zombie_of_deadChild hfound) hi
  | waitpid p np ok =>
    simp only [Fits, not_forall, not_not] at hfits
    obtain ⟨rfl, i, hi⟩ := hfits
    obtain ⟨hlive, rfl⟩ := of_guarded hf
    exact Sound.not_reap h hlive.1 hlive.2.2 hi
  | _ => exact absurd trivial hfits

end

theorem boot_sound : boot.Sound := by
  intro i
  have hzero : boot.number i = 0 := Finset.sum_eq_zero fun p _ => by simp [State.holds, boot]
  rw [hzero]
  exact ⟨rfl, rfl⟩

/-- The counts of the queues are right exactly if each `exec` finds the queues of its mask and
reaped children have none. -/
theorem mq_counts_iff (es : List Event) :
    Always fire State.Sound boot es ↔ Along fire Fits boot es :=
  always_iff_along (fun _ h => h) (fun _ _ _ h hfits hf => Sound.fire h hfits hf)
    (fun _ _ _ h hfits hf => Sound.not_fire h hfits hf) boot_sound

/-- A child is reaped: the parent has lost its queue and the count of the child stays. -/
theorem wait_leaks_queue : ∃ s,
    runEvents fire boot [.mqget 0 7 true, .fork 0 1, .exit 1, .wait 0 true] = some s ∧
    (s.mqs 0).status = true ∧ (s.mqs 0).refcount = 1 ∧ s.mqmask 0 = 0 ∧
    ∀ p, p ≠ 0 → s.state p = .unused := by
  exact exists_of_any (by decide +kernel)

end OopsOS.Mq
