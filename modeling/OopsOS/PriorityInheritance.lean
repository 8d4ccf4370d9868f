import OopsOS.Monitors

namespace OopsOS.Pi
set_option autoImplicit true
open Function

open Mon (MonId CondId)

abbrev MAX_SLEEPLOCKS : Nat := NINODE + NBUF

inductive Lock where
  | sleep (i : Fin MAX_SLEEPLOCKS)
  | mon (m : MonId)
deriving DecidableEq

inductive Chan where
  | lock (l : Lock)
  | cond (m : MonId) (c : CondId)
deriving DecidableEq

/-- Where a process is: outside the calls, asleep for a lock or in `cond_wait`, woken, or in
`pi_recalc`. -/
inductive Pc where
  | idle
  | asleep (ch : Chan) (wait : Bool)
  | woken (ch : Chan) (wait : Bool)
  | recalc (todo : List Lock) (max : Nat)
deriving DecidableEq

/-- The locks and processes. `effective` is not of the kernel: the boosted priority on going to
sleep. -/
structure State where
  locked : Lock → Bool
  owner : Lock → Option ProcSlot
  waiterMax : Lock → Nat
  priority : ProcSlot → Nat
  boost : ProcSlot → Nat
  pc : ProcSlot → Pc
  effective : ProcSlot → Nat

def State.setPc (s : State) (p : ProcSlot) (c : Pc) : State := { s with pc := update s.pc p c }

def State.setLock (s : State) (l : Lock) (b : Bool) (o : Option ProcSlot) (n : Nat) : State :=
  { s with
    locked := update s.locked l b
    owner := update s.owner l o
    waiterMax := update s.waiterMax l n }

def State.setBoost (s : State) (p : ProcSlot) (n : Nat) : State :=
  { s with boost := update s.boost p n }

def State.piDonate (s : State) (donated : Nat) : Option ProcSlot → State
  | none => s
  | some q => s.setBoost q (max (s.boost q) (min donated 20))

def State.donor (s : State) (p : ProcSlot) : Nat := max (s.priority p) (s.boost p)

def State.sleepFor (s : State) (p : ProcSlot) (l : Lock) (wait : Bool) : State :=
  { s with effective := update s.effective p (s.donor p) }.setPc p (.asleep (.lock l) wait)

def State.await (s : State) (p : ProcSlot) (l : Lock) : State :=
  ((s.sleepFor p l false).setLock l (s.locked l) (s.owner l)
    (max (s.waiterMax l) (s.donor p))).piDonate (s.donor p) (s.owner l)

def State.take (s : State) (p : ProcSlot) (l : Lock) (n : Nat) : State :=
  (s.setLock l true (some p) n).setPc p .idle

def State.acquireLoop (s : State) (p : ProcSlot) (l : Lock) : State :=
  if s.locked l = true then s.await p l else s.take p l 0

def State.waitLoop (s : State) (p : ProcSlot) (l : Lock) : State :=
  if s.locked l = true then s.sleepFor p l true else s.take p l (s.waiterMax l)

def Pc.chan : Pc → Option Chan
  | asleep ch _ => some ch
  | _ => none

def Pc.wake : Pc → Pc
  | asleep ch wait => woken ch wait
  | c => c

def Chan.goal : Chan → Lock
  | lock l => l
  | cond m _ => .mon m

def State.wakeupOneProc (s : State) (ch : Chan) : State :=
  match (List.finRange NPROC).find? fun q => (s.pc q).chan = some ch with
  | none => s
  | some q => s.setPc q (s.pc q).wake

def State.wakeup (s : State) (ch : Chan) : State :=
  { s with pc := fun q => if (s.pc q).chan = some ch then (s.pc q).wake else s.pc q }

def locks : List Lock :=
  (List.finRange Mon.MONITOR_MAX_NUM).map .mon ++ (List.finRange MAX_SLEEPLOCKS).map .sleep

def State.releasesleep (s : State) (p : ProcSlot) (i : Fin MAX_SLEEPLOCKS) : State :=
  ((s.setLock (.sleep i) false none 0).wakeup (.lock (.sleep i))).setPc p (.recalc locks 0)

def State.monExit (s : State) (p : ProcSlot) (m : MonId) : State :=
  ((s.setLock (.mon m) false none 0).wakeupOneProc (.lock (.mon m))).setPc p (.recalc locks 0)

def State.condWait (s : State) (p : ProcSlot) (m : MonId) (c : CondId) : State :=
  ((s.setLock (.mon m) false none (s.waiterMax (.mon m))).wakeupOneProc (.lock (.mon m))).setPc p
    (.asleep (.cond m c) true)

def State.resume (s : State) (p : ProcSlot) (ch : Chan) (wait : Bool) : State :=
  if wait = true then s.waitLoop p ch.goal else s.acquireLoop p ch.goal

def State.recalc (s : State) (p : ProcSlot) (max : Nat) : List Lock → State
  | [] => (s.setBoost p max).setPc p .idle
  | l :: todo => s.setPc p (.recalc todo
      (if s.locked l = true ∧ s.owner l = some p ∧ max < s.waiterMax l then s.waiterMax l else max))

inductive Event where
  | acquiresleep (p : ProcSlot) (i : Fin MAX_SLEEPLOCKS)
  | releasesleep (p : ProcSlot) (i : Fin MAX_SLEEPLOCKS)
  | monEnter (p : ProcSlot) (m : MonId)
  | monExit (p : ProcSlot) (m : MonId)
  | condWait (p : ProcSlot) (m : MonId) (c : CondId)
  | condSignal (p : ProcSlot) (m : MonId) (c : CondId)
  | condBroadcast (p : ProcSlot) (m : MonId) (c : CondId)
  | resume (p : ProcSlot)
  | giveUp (p : ProcSlot)
  | recalc (p : ProcSlot)
deriving DecidableEq

/-- The calls up to their `sleep` or `pi_recalc`, the way on from there, and its turns. -/
def fire (s : State) : Event → Option State
  | .acquiresleep p i => if s.pc p = .idle then some (s.acquireLoop p (.sleep i)) else none
  | .releasesleep p i =>
    if s.pc p = .idle ∧ s.owner (.sleep i) = some p then some (s.releasesleep p i) else none
  | .monEnter p m =>
    if s.pc p = .idle ∧ s.owner (.mon m) ≠ some p then some (s.acquireLoop p (.mon m)) else none
  | .monExit p m => if s.pc p = .idle ∧ s.owner (.mon m) = some p then some (s.monExit p m)
    else none
  | .condWait p m c => if s.pc p = .idle ∧ s.owner (.mon m) = some p then some (s.condWait p m c)
    else none
  | .condSignal p m c =>
    if s.pc p = .idle ∧ s.owner (.mon m) = some p then some (s.wakeupOneProc (.cond m c)) else none
  | .condBroadcast p m c =>
    if s.pc p = .idle ∧ s.owner (.mon m) = some p then some (s.wakeup (.cond m c)) else none
  | .resume p =>
    match s.pc p with
    | .woken ch wait => some (s.resume p ch wait)
    | _ => none
  | .giveUp p =>
    match s.pc p with
    | .woken (.lock (.mon _)) _ | .woken (.cond _ _) _ => some (s.setPc p .idle)
    | _ => none
  | .recalc p =>
    match s.pc p with
    | .recalc todo max => some (s.recalc p max todo)
    | _ => none

def State.Recalculates (s : State) (p : ProcSlot) : Prop := ∃ todo max, s.pc p = .recalc todo max

def State.SleepsFor (s : State) (q : ProcSlot) (l : Lock) : Prop :=
  ∃ wait, s.pc q = .asleep (.lock l) wait

/-- The boost of a process covers those that sleep for its locks, and is 0 if it has none. -/
structure State.Inherits (s : State) (p : ProcSlot) : Prop where
  sleepers : ∀ l q, s.owner l = some p → s.SleepsFor q l → s.effective q ≤ s.boost p
  none : (∀ l, s.owner l ≠ some p) → s.boost p = 0

/-- Priority inheritance holds for the processes that are not in `pi_recalc`. -/
def State.Inherited (s : State) : Prop := ∀ p, ¬ s.Recalculates p → s.Inherits p

def State.CoversTake (s : State) (p : ProcSlot) (l : Lock) : Prop :=
  s.locked l = false → ∀ q, s.SleepsFor q l → s.effective q ≤ s.boost p

def State.CoversWait (s : State) (p : ProcSlot) (l : Lock) : Prop :=
  s.locked l = true → ∀ o, s.owner l = some o → ¬ s.Recalculates o → s.donor p ≤ s.boost o

/-- What the calls do not see to: sleepers at a monitor that changes hands, the boost of its owner
in `cond_wait`, and sleepers `pi_recalc` missed. -/
def Covered (s : State) : Event → Prop
  | .acquiresleep p i => s.CoversTake p (.sleep i)
  | .monEnter p m => s.CoversTake p (.mon m)
  | .condWait p m _ => (∀ l, l ≠ .mon m → s.owner l ≠ some p) → s.boost p = 0
  | .resume p => ∀ ch wait, s.pc p = .woken ch wait →
      s.CoversTake p ch.goal ∧ (wait = true → s.CoversWait p ch.goal)
  | .recalc p => ∀ max, s.pc p = .recalc [] max →
      ∀ l q, s.owner l = some p → s.SleepsFor q l → s.effective q ≤ max
  | _ => True

variable {s s' : State} {p q o : ProcSlot} {l : Lock} {e : Event} {es : List Event} {c : Pc}
  {n : Nat} {ch : Chan} {wait : Bool}

structure State.Inv (s : State) : Prop where
  priority : ∀ p, s.priority p ≤ 20
  boost : ∀ p, s.boost p ≤ 20
  waiterMax : ∀ l, s.waiterMax l ≤ 20
  free : ∀ l, s.locked l = false → s.owner l = none
  recalc : ∀ p todo max, s.pc p = .recalc todo max → max ≤ 20 ∧ (max ≠ 0 → ∃ l, s.owner l = some p)

theorem State.Inherits.mono (h : s.Inherits p)
    (howner : ∀ l, s'.owner l = some p ↔ s.owner l = some p)
    (hle : s.boost p ≤ s'.boost p) (hnone : (∀ l, s.owner l ≠ some p) → s'.boost p = s.boost p)
    (hsleep : ∀ l q, s.owner l = some p → s'.SleepsFor q l →
      (s.SleepsFor q l ∧ s'.effective q = s.effective q) ∨
        s'.effective q ≤ s'.boost p) : s'.Inherits p where
  sleepers l q hl hq := by
    obtain ⟨hq, heff⟩ | hq := hsleep l q ((howner l).1 hl) hq
    · rw [heff]
      exact (h.sleepers l q ((howner l).1 hl) hq).trans hle
    · exact hq
  none hno := by
    have hno' : ∀ l, s.owner l ≠ some p := fun l hl => hno l ((howner l).2 hl)
    rw [hnone hno', h.none hno']

theorem piDonate_eq (d : Nat) (o : Option ProcSlot) : s.piDonate d o =
    { s with boost := fun q => if o = some q then max (s.boost q) (min d 20) else s.boost q } := by
  cases o with
  | none => simp [State.piDonate]
  | some r =>
    simp only [State.piDonate, State.setBoost]
    congr 1
    funext q
    by_cases hq : q = r
    · simp [hq]
    · simp [hq, Ne.symm hq]

section
variable (h : s.Inherited)
include h

theorem State.Inherited.shrink (howner : s'.owner = s.owner) (hboost : s'.boost = s.boost)
    (heff : s'.effective = s.effective) (hsleep : ∀ q l, s'.SleepsFor q l → s.SleepsFor q l)
    (hrec : ∀ p, s.Recalculates p → s'.Recalculates p) : s'.Inherited := fun p hp =>
  (h p fun hr => hp (hrec p hr)).mono (fun l => by rw [howner]) (by rw [hboost])
    (fun _ => by rw [hboost]) fun l q _ hq => .inl ⟨hsleep q l hq, by rw [heff]⟩

theorem State.Inherited.sleepFor_iff (hp : ¬ s.Recalculates p) (howner : s'.owner = s.owner)
    (hpc : s'.pc = update s.pc p (.asleep (.lock l) wait))
    (heff : s'.effective = update s.effective p n) (hle : ∀ o, s.boost o ≤ s'.boost o)
    (hboost : ∀ o, s.owner l ≠ some o → s'.boost o = s.boost o) :
    s'.Inherited ↔ ∀ o, s.owner l = some o → ¬ s.Recalculates o → n ≤ s'.boost o := by
  have hrec (o) : s'.Recalculates o ↔ s.Recalculates o := by
    unfold State.Recalculates
    rw [hpc]
    by_cases hop : o = p
    · subst hop
      exact iff_of_false (by simp) hp
    · rw [update_of_ne hop]
  constructor
  · intro h' o ho hr
    have hle := (h' o fun hr' => hr ((hrec o).1 hr')).sleepers l p (by rwa [howner])
      ⟨wait, by simp [hpc]⟩
    rwa [heff, update_self] at hle
  · intro hcovers o hr
    rw [hrec] at hr
    refine (h o hr).mono (fun l' => by rw [howner]) (hle o) (fun hno => hboost o (hno l))
      fun l' q hl' hq => ?_
    obtain ⟨w, hq⟩ := hq
    rw [hpc] at hq
    by_cases hqp : q = p
    · simp only [hqp, update_self, Pc.asleep.injEq, Chan.lock.injEq] at hq
      right
      rw [heff, hqp, update_self]
      exact hcovers o (hq.1 ▸ hl') hr
    · rw [update_of_ne hqp] at hq
      exact .inl ⟨⟨w, hq⟩, by rw [heff, update_of_ne hqp]⟩

theorem State.Inherited.drop_iff (hl : s.owner l = some p)
    (howner : s'.owner = update s.owner l none) (hboost : s'.boost = s.boost)
    (heff : s'.effective = s.effective) (hsleep : ∀ q l, s'.SleepsFor q l → s.SleepsFor q l)
    (hrec : ∀ o, o ≠ p → s.Recalculates o → s'.Recalculates o) :
    s'.Inherited ↔ (¬ s'.Recalculates p → s'.Inherits p) := by
  refine ⟨fun h' => h' p, fun hp o ho => ?_⟩
  by_cases hop : o = p
  · exact hop ▸ hp (hop ▸ ho)
  · refine (h o fun hr => ho (hrec o hop hr)).mono (fun l' => ?_) (by rw [hboost])
      (fun _ => by rw [hboost]) fun l' q _ hq => .inl ⟨hsleep q l' hq, by rw [heff]⟩
    rw [howner]
    by_cases hl' : l' = l
    · subst hl'
      exact iff_of_false (by simp) fun ho' => hop (Option.some.inj (ho'.symm.trans hl))
    · rw [update_of_ne hl']

theorem State.Inherited.take_iff (hp : ¬ s.Recalculates p) (hpc : (s.pc p).chan = none)
    (hl : s.owner l = none) : (s.take p l n).Inherited ↔ ∀ q, s.SleepsFor q l →
    s.effective q ≤ s.boost p := by
  have hsleep {q l'} : (s.take p l n).SleepsFor q l' ↔ s.SleepsFor q l' := by
    by_cases hqp : q = p
    · subst hqp
      refine iff_of_false (fun ⟨w, hw⟩ => by simp [State.take, State.setPc] at hw) fun ⟨w, hw⟩ => ?_
      simp [hw, Pc.chan] at hpc
    · simp [State.SleepsFor, State.take, State.setPc, State.setLock, hqp]
  constructor
  · intro h' q hq
    exact (h' p fun ⟨_, _, hr⟩ => by simp [State.take, State.setPc] at hr).sleepers l q
      (by simp [State.take, State.setPc, State.setLock]) (hsleep.2 hq)
  · intro hcovers o ho
    by_cases hop : o = p
    · subst hop
      refine ⟨fun l' q hl' hq => ?_, fun hno => absurd
        (by simp [State.take, State.setPc, State.setLock]) (hno l)⟩
      rw [hsleep] at hq
      by_cases hl'' : l' = l
      · exact hcovers q (hl'' ▸ hq)
      · exact (h o hp).sleepers l' q
          (by simpa [State.take, State.setPc, State.setLock, hl''] using hl') hq
    · have ho' : ¬ s.Recalculates o := fun ⟨todo, max, hr⟩ =>
        ho ⟨todo, max, by simpa [State.take, State.setPc, State.setLock, hop] using hr⟩
      refine (h o ho').mono (fun l' => ?_) (Nat.le_refl _) (fun _ => rfl) fun l' q _ hq =>
        .inl ⟨hsleep.1 hq, rfl⟩
      by_cases hl' : l' = l
      · subst hl'
        simp [State.take, State.setPc, State.setLock, hl, Ne.symm hop]
      · simp [State.take, State.setPc, State.setLock, hl']

theorem State.Inherited.recalc_iff (hs : s.Inv) (hp : s.pc p = .recalc [] n) :
    (s.recalc p n []).Inherited ↔ ∀ l q, s.owner l = some p → s.SleepsFor q l →
    s.effective q ≤ n := by
  have hsleep {q l'} : (s.recalc p n []).SleepsFor q l' ↔ s.SleepsFor q l' := by
    by_cases hqp : q = p
    · subst hqp
      simp [State.SleepsFor, State.recalc, State.setPc, hp]
    · simp [State.SleepsFor, State.recalc, State.setPc, State.setBoost, hqp]
  constructor
  · intro h' l q hl hq
    have hle := (h' p fun ⟨_, _, hr⟩ => by simp [State.recalc, State.setPc] at hr).sleepers l q hl
      (hsleep.2 hq)
    simpa [State.recalc, State.setPc, State.setBoost] using hle
  · intro hcovers o ho
    by_cases hop : o = p
    · subst hop
      refine ⟨fun l q hl hq => ?_, fun hno => ?_⟩
      · simpa [State.recalc, State.setPc, State.setBoost] using hcovers l q hl (hsleep.1 hq)
      · have hn : n = 0 := by
          by_contra hn
          obtain ⟨l, hl⟩ := (hs.recalc o [] n hp).2 hn
          exact hno l hl
        simp [State.recalc, State.setPc, State.setBoost, hn]
    · have ho' : ¬ s.Recalculates o := fun ⟨todo, max, hr⟩ =>
        ho ⟨todo, max, by simpa [State.recalc, State.setPc, State.setBoost, hop] using hr⟩
      have hboost : (s.recalc p n []).boost o = s.boost o := by
        simp [State.recalc, State.setPc, State.setBoost, hop]
      exact (h o ho').mono (fun l => Iff.rfl) hboost.ge (fun _ => hboost) fun l q _ hq =>
        .inl ⟨hsleep.1 hq, rfl⟩

theorem State.Inherited.waitLoop_iff (hs : s.Inv) (hp : ¬ s.Recalculates p)
    (hpc : (s.pc p).chan = none) : (s.waitLoop p l).Inherited ↔
    s.CoversTake p l ∧ s.CoversWait p l := by
  unfold State.waitLoop State.CoversTake State.CoversWait
  cases hl : s.locked l with
  | true =>
    simp only [if_true, Bool.true_eq_false, false_implies, true_and, forall_const]
    exact h.sleepFor_iff hp rfl rfl rfl (fun _ => Nat.le_refl _) fun _ _ => rfl
  | false => simpa using h.take_iff hp hpc (hs.free l hl)

end

structure Woken (s s' : State) : Prop where
  asleep : ∀ q ch wait, s'.pc q = .asleep ch wait → s.pc q = .asleep ch wait
  recalc : ∀ q todo max, s'.pc q = .recalc todo max ↔ s.pc q = .recalc todo max
  rest : s' = { s with pc := s'.pc }

theorem Woken.wakeup : Woken s (s.wakeup ch) where
  asleep q ch' wait hq := by
    simp only [State.wakeup] at hq
    split at hq
    · next h => cases hpc : s.pc q <;> simp_all [Pc.wake, Pc.chan]
    · exact hq
  recalc q todo max := by
    simp only [State.wakeup]
    split
    · next h => cases hpc : s.pc q <;> simp_all [Pc.wake, Pc.chan]
    · rfl
  rest := rfl

theorem Woken.sleepsFor (h : Woken s s') (hq : s'.SleepsFor q l) : s.SleepsFor q l := by
  obtain ⟨wait, hq⟩ := hq
  exact ⟨wait, h.asleep q _ wait hq⟩

theorem Woken.recalculates (h : Woken s s') (hq : s.Recalculates q) : s'.Recalculates q := by
  obtain ⟨todo, max, hq⟩ := hq
  exact ⟨todo, max, (h.recalc q todo max).2 hq⟩

theorem Woken.inv (h : Woken s s') (hs : s.Inv) : s'.Inv := by
  rw [h.rest]
  exact { hs with recalc := fun q todo max hq => hs.recalc q todo max ((h.recalc q todo max).1 hq) }

section
variable (h : s.Inv)
include h

theorem State.Inv.donor_le (p : ProcSlot) : s.donor p ≤ 20 := Nat.max_le.2 ⟨h.priority p, h.boost p⟩

theorem State.Inv.setPc
    (hc : ∀ todo max, c = .recalc todo max → max ≤ 20 ∧ (max ≠ 0 → ∃ l, s.owner l = some p)) :
    (s.setPc p c).Inv where
  __ := h
  recalc q todo max hq := by
    by_cases hqp : q = p
    · subst hqp
      exact hc todo max (by simpa [State.setPc] using hq)
    · exact h.recalc q todo max (by simpa [State.setPc, hqp] using hq)

theorem State.Inv.setLock (hn : n ≤ 20) (hx : b = false → x = none)
    (hkeep : ∀ q, s.Recalculates q → s.owner l = some q → x = some q) :
    (s.setLock l b x n).Inv where
  priority := h.priority
  boost := h.boost
  waiterMax := (forall_update_iff s.waiterMax fun _ k => k ≤ 20).2 ⟨hn, fun l' _ => h.waiterMax l'⟩
  free l' hl' := by
    by_cases hll : l' = l
    · subst hll
      simp only [State.setLock, update_self] at hl' ⊢
      exact hx hl'
    · simp only [State.setLock, update_of_ne hll] at hl' ⊢
      exact h.free l' hl'
  recalc q todo max hq := by
    obtain ⟨hmax, hown⟩ := h.recalc q todo max hq
    refine ⟨hmax, fun hne => ?_⟩
    obtain ⟨l', hl'⟩ := hown hne
    refine ⟨l', ?_⟩
    by_cases hll : l' = l
    · subst hll
      simpa [State.setLock] using hkeep q ⟨todo, max, hq⟩ hl'
    · simpa [State.setLock, hll] using hl'

theorem State.Inv.setBoost (hn : n ≤ 20) : (s.setBoost p n).Inv where
  __ := h
  boost := (forall_update_iff s.boost fun _ k => k ≤ 20).2 ⟨hn, fun q _ => h.boost q⟩

theorem State.Inv.sleepFor : (s.sleepFor p l wait).Inv :=
  State.Inv.setPc ⟨h.priority, h.boost, h.waiterMax, h.free, h.recalc⟩ nofun

theorem State.Inv.piDonate (d : Nat) (x : Option ProcSlot) : (s.piDonate d x).Inv := by
  cases x with
  | none => exact h
  | some q => exact h.setBoost (Nat.max_le.2 ⟨h.boost q, Nat.min_le_right _ _⟩)

theorem State.Inv.await (hl : s.locked l = true) : (s.await p l).Inv :=
  (h.sleepFor.setLock (Nat.max_le.2 ⟨h.waiterMax l, h.donor_le p⟩) (by simp [hl]) fun _ _ hq =>
    hq).piDonate _ _

theorem State.Inv.take (hl : s.locked l = false) (hn : n ≤ 20) : (s.take p l n).Inv := by
  have h' : (s.setLock l true (some p) n).Inv := h.setLock hn nofun fun q _ hq => by
    simp [h.free l hl] at hq
  exact h'.setPc nofun

theorem State.Inv.acquireLoop : (s.acquireLoop p l).Inv := by
  unfold State.acquireLoop
  cases hl : s.locked l with
  | true => exact h.await hl
  | false => exact h.take hl (Nat.zero_le _)

theorem State.Inv.waitLoop : (s.waitLoop p l).Inv := by
  unfold State.waitLoop
  cases hl : s.locked l with
  | true => exact h.sleepFor
  | false => exact h.take hl (h.waiterMax l)

theorem State.Inv.drop (hp : s.pc p = .idle) (hl : s.owner l = some p) (hn : n ≤ 20) :
    (s.setLock l false none n).Inv := by
  refine h.setLock hn (fun _ => rfl) fun q hq hq' => ?_
  obtain ⟨todo, max, hq⟩ := hq
  obtain rfl := Option.some.inj (hl.symm.trans hq')
  simp [hp] at hq

theorem State.Inv.recalc' (hp : s.pc p = .recalc todo n) : (s.recalc p n todo).Inv := by
  obtain ⟨hmax, hown⟩ := h.recalc p todo n hp
  cases todo with
  | nil => exact (h.setBoost hmax).setPc nofun
  | cons l todo =>
    refine h.setPc fun todo' max heq => ?_
    cases heq
    split
    · next hl => exact ⟨h.waiterMax l, fun _ => ⟨l, hl.2.1⟩⟩
    · exact ⟨hmax, hown⟩

end

theorem Woken.wakeupOneProc : Woken s (s.wakeupOneProc ch) := by
  unfold State.wakeupOneProc
  split
  · exact ⟨fun _ _ _ h => h, fun _ _ _ => Iff.rfl, rfl⟩
  · next q hq =>
    have hch := List.find?_some hq
    rw [decide_eq_true_eq] at hch
    refine ⟨fun r ch' wait hr => ?_, fun r todo max => ?_, rfl⟩
    · by_cases hrq : r = q
      · cases hpc : s.pc q <;> simp_all [State.setPc, Pc.wake, Pc.chan]
      · simpa [State.setPc, hrq] using hr
    · by_cases hrq : r = q
      · cases hpc : s.pc q <;> simp_all [State.setPc, Pc.wake, Pc.chan]
      · simp [State.setPc, hrq]

theorem State.Inv.fire (h : s.Inv) (hf : fire s e = some s') : s'.Inv := by
  cases e with
  | acquiresleep p i | monEnter p m =>
    obtain ⟨-, rfl⟩ := of_guarded hf
    exact h.acquireLoop
  | releasesleep p i =>
    obtain ⟨⟨hp, hl⟩, rfl⟩ := of_guarded hf
    exact (Woken.wakeup.inv (h.drop hp hl (Nat.zero_le _))).setPc fun _ _ hc => by cases hc; simp
  | monExit p m =>
    obtain ⟨⟨hp, hl⟩, rfl⟩ := of_guarded hf
    exact (Woken.wakeupOneProc.inv (h.drop hp hl (Nat.zero_le _))).setPc fun _ _ hc => by
      cases hc; simp
  | condWait p m c =>
    obtain ⟨⟨hp, hl⟩, rfl⟩ := of_guarded hf
    exact (Woken.wakeupOneProc.inv (h.drop hp hl (h.waiterMax _))).setPc nofun
  | condSignal | condBroadcast =>
    obtain ⟨-, rfl⟩ := of_guarded hf
    first | exact Woken.wakeupOneProc.inv h | exact Woken.wakeup.inv h
  | resume p =>
    simp only [Pi.fire] at hf
    split at hf
    · cases hf
      unfold State.resume
      split
      · exact h.waitLoop
      · exact h.acquireLoop
    · cases hf
  | giveUp p =>
    simp only [Pi.fire] at hf
    split at hf
    · cases hf
      exact h.setPc nofun
    · cases hf
      exact h.setPc nofun
    · cases hf
  | recalc p =>
    simp only [Pi.fire] at hf
    split at hf
    · next hp =>
      cases hf
      exact h.recalc' hp
    · cases hf

theorem sleepsFor_setPc (hq : (s.setPc p c).SleepsFor q l)
    (hc : ∀ l wait, c ≠ .asleep (.lock l) wait) :
    s.SleepsFor q l := by
  obtain ⟨wait, hq⟩ := hq
  by_cases hqp : q = p
  · exact absurd (by simpa [State.setPc, hqp] using hq) (hc l wait)
  · exact ⟨wait, by simpa [State.setPc, hqp] using hq⟩

theorem recalculates_setPc (hop : o ≠ p) : (s.setPc p c).Recalculates o ↔ s.Recalculates o := by
  simp [State.Recalculates, State.setPc, hop]

section
variable (h : s.Inherited)
include h

theorem State.Inherited.await (hs : s.Inv) (hp : ¬ s.Recalculates p) : (s.await p l).Inherited := by
  have hd := hs.donor_le p
  unfold State.await
  rw [piDonate_eq]
  refine (h.sleepFor_iff (n := s.donor p) hp (update_eq_self ..) rfl rfl (fun o => ?_) fun o ho =>
    if_neg ho).2
    fun o ho _ => ?_
  · dsimp only
    split
    · exact Nat.le_max_left _ _
    · exact Nat.le_refl _
  · dsimp only
    rw [if_pos ho, Nat.min_eq_left hd]
    exact Nat.le_max_right _ _

theorem State.Inherited.acquireLoop_iff (hs : s.Inv) (hp : ¬ s.Recalculates p)
    (hpc : (s.pc p).chan = none) : (s.acquireLoop p l).Inherited ↔ s.CoversTake p l := by
  unfold State.acquireLoop State.CoversTake
  cases hl : s.locked l with
  | true => simpa using h.await hs hp
  | false => simpa using h.take_iff hp hpc (hs.free l hl)

theorem State.Inherited.setPc (hc : ∀ l wait, c ≠ .asleep (.lock l) wait)
    (hr : s.Recalculates p → (s.setPc p c).Recalculates p) : (s.setPc p c).Inherited := by
  refine h.shrink rfl rfl rfl (fun q l hq => sleepsFor_setPc hq hc) fun q hq => ?_
  by_cases hqp : q = p
  · exact hqp ▸ hr (hqp ▸ hq)
  · exact (recalculates_setPc hqp).2 hq

theorem State.Inherited.leave_iff (hl : s.owner l = some p)
    (hw : Woken (s.setLock l false none n) s₁) (hc : ∀ l wait, c ≠ .asleep (.lock l) wait) :
    (s₁.setPc p c).Inherited ↔ (¬ (s₁.setPc p c).Recalculates p → (s₁.setPc p c).Inherits p) := by
  have hrest := hw.rest
  refine h.drop_iff hl (by rw [hrest]; rfl) (by rw [hrest]; rfl) (by rw [hrest]; rfl)
    (fun q l' hq => ?_) fun o hop ho => ?_
  · exact hw.sleepsFor (sleepsFor_setPc hq hc)
  · exact (recalculates_setPc hop).2 (hw.recalculates ho)

theorem State.Inherited.release (hl : s.owner l = some p)
    (hw : Woken (s.setLock l false none n) s₁) : (s₁.setPc p (.recalc locks 0)).Inherited :=
  (h.leave_iff hl hw (by simp)).2 fun hr => absurd ⟨locks, 0, by simp [State.setPc]⟩ hr

theorem State.Inherited.wait_iff (hp : s.pc p = .idle) (hl : s.owner l = some p)
    (hw : Woken (s.setLock l false none n) s₁) :
    (s₁.setPc p (.asleep (.cond m cd) true)).Inherited ↔
      ((∀ l', l' ≠ l → s.owner l' ≠ some p) → s.boost p = 0) := by
  have howner (l') : s₁.owner l' = some p ↔ l' ≠ l ∧ s.owner l' = some p := by
    rw [hw.rest]
    by_cases hl' : l' = l <;> simp [State.setLock, hl']
  have hboost : s₁.boost = s.boost := by
    rw [hw.rest]
    rfl
  have heff : s₁.effective = s.effective := by
    rw [hw.rest]
    rfl
  rw [h.leave_iff hl hw (by simp)]
  constructor
  · intro h' hno
    rw [← hboost]
    refine (h' fun ⟨_, _, hr⟩ => by simp [State.setPc] at hr).none fun l' hl' => ?_
    exact hno l' ((howner l').1 hl').1 ((howner l').1 hl').2
  · intro h' _
    refine ⟨fun l' q hl' hq => ?_, fun hno => ?_⟩
    · have hq' := hw.sleepsFor (sleepsFor_setPc hq (by simp))
      show s₁.effective q ≤ s₁.boost p
      rw [hboost, heff]
      exact (h p fun ⟨_, _, hr⟩ => by simp [hp] at hr).sleepers l' q ((howner l').1 hl').2 hq'
    · show s₁.boost p = 0
      rw [hboost]
      exact h' fun l' hne hl' => hno l' ((howner l').2 ⟨hne, hl'⟩)

theorem State.Inherited.fire_iff (hs : s.Inv) (hf : fire s e = some s') : s'.Inherited ↔
    Covered s e := by
  have hnot {p} (hp : ∀ todo max, s.pc p ≠ .recalc todo max) : ¬ s.Recalculates p :=
    fun ⟨todo, max, h⟩ => hp todo max h
  have hwoken (hw : Woken s s') : s'.Inherited := by
    have hrest := hw.rest
    exact h.shrink (by rw [hrest]) (by rw [hrest]) (by rw [hrest]) (fun _ _ => hw.sleepsFor)
      fun _ => hw.recalculates
  cases e with
  | acquiresleep p i =>
    obtain ⟨hp, rfl⟩ := of_guarded hf
    exact h.acquireLoop_iff hs (hnot (by simp [hp])) (by rw [hp]; rfl)
  | monEnter p m =>
    obtain ⟨⟨hp, -⟩, rfl⟩ := of_guarded hf
    exact h.acquireLoop_iff hs (hnot (by simp [hp])) (by rw [hp]; rfl)
  | releasesleep p i =>
    obtain ⟨⟨hp, hl⟩, rfl⟩ := of_guarded hf
    exact iff_of_true (h.release hl .wakeup) trivial
  | monExit p m =>
    obtain ⟨⟨hp, hl⟩, rfl⟩ := of_guarded hf
    exact iff_of_true (h.release hl .wakeupOneProc) trivial
  | condWait p m c =>
    obtain ⟨⟨hp, hl⟩, rfl⟩ := of_guarded hf
    exact h.wait_iff hp hl .wakeupOneProc
  | condSignal | condBroadcast =>
    obtain ⟨-, rfl⟩ := of_guarded hf
    refine iff_of_true (hwoken ?_) trivial
    first | exact .wakeupOneProc | exact .wakeup
  | resume p =>
    simp only [fire] at hf
    split at hf
    · next ch wait hp =>
      cases hf
      have hr : ¬ s.Recalculates p := hnot (by simp [hp])
      simp only [Covered, hp, Pc.woken.injEq, and_imp]
      cases wait with
      | true => simpa [State.resume] using h.waitLoop_iff hs hr (by rw [hp]; rfl)
      | false => simpa [State.resume] using h.acquireLoop_iff hs hr (by rw [hp]; rfl)
    · cases hf
  | giveUp p =>
    have hgive {ch wait} (hp : s.pc p = .woken ch wait) : (s.setPc p .idle).Inherited :=
      h.setPc nofun fun hr => absurd hr (hnot (by simp [hp]))
    simp only [fire] at hf
    split at hf
    · next hp =>
      cases hf
      exact iff_of_true (hgive hp) trivial
    · next hp =>
      cases hf
      exact iff_of_true (hgive hp) trivial
    · cases hf
  | recalc p =>
    simp only [fire] at hf
    split at hf
    · next todo max hp =>
      cases hf
      simp only [Covered, hp, Pc.recalc.injEq, and_imp]
      cases todo with
      | nil => simpa using h.recalc_iff hs hp
      | cons l todo => exact iff_of_true (h.setPc nofun fun _ => ⟨todo, _, update_self ..⟩) nofun
    · cases hf

end

structure Started (s : State) : Prop where
  priority : ∀ p, s.priority p ≤ 20
  boost : ∀ p, s.boost p = 0
  waiterMax : ∀ l, s.waiterMax l = 0
  owner : ∀ l, s.owner l = none
  pc : ∀ p, s.pc p = .idle

theorem Started.inv (h : Started s) : s.Inv where
  priority := h.priority
  boost p := by simp [h.boost]
  waiterMax l := by simp [h.waiterMax]
  free l _ := h.owner l
  recalc p todo max hp := by simp [h.pc] at hp

theorem Started.inherited (h : Started s) : s.Inherited :=
  fun p _ => ⟨fun l q hl => by simp [h.owner] at hl, fun _ => h.boost p⟩

theorem priority_inheritance_iff (h : Started s) :
    Always fire State.Inherited s es ↔ Along fire Covered s es := by
  refine always_iff_along (I := fun s => s.Inv ∧ s.Inherited) (fun s hs => hs.2) ?_ ?_
    ⟨h.inv, h.inherited⟩
  · intro s e s' ⟨hs, h⟩ hP hf
    exact ⟨hs.fire hf, (h.fire_iff hs hf).2 hP⟩
  · intro s e s' ⟨hs, h⟩ hP hf h'
    exact hP ((h.fire_iff hs hf).1 h')

def boot : State where
  locked _ := false
  owner _ := none
  waiterMax _ := 0
  priority _ := 10
  boost _ := 0
  pc _ := .idle
  effective _ := 0

theorem priority_inheritance_boot :
    Started boot ∧ (Always fire State.Inherited boot [.monEnter 0 0, .monEnter 1 0] ↔
      Along fire Covered boot [.monEnter 0 0, .monEnter 1 0]) := by
  have h : Started boot := ⟨by simp [boot], fun _ => rfl, fun _ => rfl, fun _ => rfl, fun _ => rfl⟩
  exact ⟨h, priority_inheritance_iff h⟩

/-- A process keeps its boost when it waits for a condition, the only call left in progress. -/
theorem boost_kept : ∃ es s, runEvents fire boot es = some s ∧
    (∀ p, s.pc p = .idle ∨ ∃ ch wait, s.pc p = .asleep ch wait) ∧ ¬ s.Inherited := by
  obtain ⟨s, hs, hpc, hidle, hboost, -, howner⟩ :
    ∃ s, runEvents fire boot [.monEnter 0 0, .monEnter 1 0, .condWait 0 0 0, .resume 1] = some s ∧
      s.pc 0 = .asleep (.cond 0 0) true ∧ (∀ p, p ≠ 0 → s.pc p = .idle) ∧ s.boost 0 = 10 ∧
        s.owner (.mon 0) = some 1 ∧ ∀ l ∈ locks, s.owner l ≠ some 0 :=
    exists_of_any (by decide +kernel)
  refine ⟨_, s, hs, fun p => ?_, fun h => ?_⟩
  · by_cases hp : p = 0
    · exact .inr ⟨_, _, hp ▸ hpc⟩
    · exact .inl (hidle p hp)
  · have hnone := (h 0 fun ⟨_, _, hr⟩ => by simp [hpc] at hr).none fun l =>
      howner l (by cases l <;> simp [locks])
    rw [hboost] at hnone
    cases hnone

end OopsOS.Pi
