import OopsOS.Family
import OopsOS.SemLocks

namespace OopsOS.Sem
set_option autoImplicit true
open Function

variable {s s' : SemState} {p q : ProcSlot} {i id : Nat} {ids todo held : List Nat} {c : Pc}
  {sec : Section} {next : Next} {w : Waiter} {e : Exit} {ev : Event}

theorem update_add {M : Type} [AddZeroClass M] (f : Nat → M) (d : M) (id i : Nat) :
    update f id (f id + d) i = f i + if id = i then d else 0 := by
  by_cases hi : i = id
  · rw [hi, update_self, if_pos rfl]
  · rw [update_of_ne hi, if_neg (Ne.symm hi), add_zero]

def Waiter.claim (i : Nat) : Waiter → Nat
  | .p id => if id = i then 1 else 0
  | .multi _ _ => 0

def Pc.claim (i : Nat) : Pc → Nat
  | asleep w | releasing _ (.sleep w) => w.claim i
  | _ => 0

def Pc.transit (i : Nat) : Pc → Nat
  | acquiring (.pBack id) _ _ => if id = i then 1 else 0
  | releasing _ (.took ids) => ids.count i
  | _ => 0

def Pc.took (i : Nat) (c : Pc) : Nat := c.claim i + c.transit i

def Waiter.waits (i : Nat) : Waiter → Nat
  | .p id => if id = i then 1 else 0
  | .multi ids _ => ids.count i

def Pc.waits (i : Nat) : Pc → Nat
  | asleep w | releasing _ (.sleep w) => w.waits i
  | acquiring (.pBack id) _ _ => if id = i then 1 else 0
  | acquiring (.multiBack ids _) _ _ | acquiring (.multiRetry ids) _ _ | releasing _ (.back ids) =>
    ids.count i
  | _ => 0

theorem took_woken (i : Nat) (w : Waiter) : w.woken.took i = (Pc.asleep w).took i := by
  cases w with
  | p id => exact Nat.zero_add _
  | multi ids wait => rfl

theorem waits_woken (i : Nat) (w : Waiter) : w.woken.waits i = (Pc.asleep w).waits i := by
  cases w <;> rfl

theorem Section.Starts.took (h : sec.Starts) (i : Nat) :
    (Pc.acquiring sec held todo).took i = 0 := by
  cases sec <;> first | rfl | cases h

theorem Section.Starts.waits (h : sec.Starts) (i : Nat) :
    (Pc.acquiring sec held todo).waits i = 0 := by
  cases sec <;> first | rfl | cases h

def SemState.total (s : SemState) (f : Pc → Nat) : Nat := ∑ q, f (s.pc q)

theorem total_move (hpc : s'.pc = update s.pc p c) (f : Pc → Nat) :
    s'.total f + f (s.pc p) = s.total f + f c := by
  unfold SemState.total
  rw [hpc]
  exact sum_apply_update_add f s.pc p c

/-- Every unit is in the count, returned or taken, and every waiting call is counted. -/
structure Ledger (s : SemState) : Prop where
  taken : ∀ p i, s.taken p i = (s.pc p).took i
  count : ∀ i, s.count i =
    int32 (s.initial i + s.completed i - s.returned i - s.total (Pc.took i))
  waiters : ∀ i, s.waiters i = s.total (Pc.waits i)

theorem singleton_count (id i : Nat) : [id].count i = if id = i then 1 else 0 := by
  rw [List.count_singleton]
  simp only [beq_iff_eq]

section
variable (h : Ledger s)
include h

theorem Ledger.inRange : s.InRange := by
  intro i
  rw [h.count]
  exact int32_idem _

theorem Ledger.move (hpc : s'.pc = update s.pc p c)
    (hinitial : s'.initial = s.initial) (htaken : ∀ i, s'.taken p i = c.took i)
    (hothers : ∀ q, q ≠ p → s'.taken q = s.taken q)
    (hcount : ∀ i, s'.count i = int32 (s.count i + (s'.completed i - s.completed i) -
      (s'.returned i - s.returned i) - (c.took i - (s.pc p).took i)))
    (hwaiters : ∀ i, s'.waiters i = s.waiters i + c.waits i - (s.pc p).waits i) : Ledger s' where
  taken q i := by
    rw [hpc]
    by_cases hq : q = p
    · subst hq
      rw [update_self]
      exact htaken i
    · rw [update_of_ne hq, hothers q hq]
      exact h.taken q i
  count i := by
    have htotal := total_move hpc (Pc.took i)
    rw [hcount, h.count, hinitial, sub_eq_add_neg, sub_eq_add_neg, add_assoc, add_assoc, int32_add]
    congr 1
    omega
  waiters i := by
    have htotal := total_move hpc (Pc.waits i)
    rw [hwaiters, h.waiters]
    omega

theorem Ledger.wait (hpc : s'.pc = update s.pc p c)
    (hframe : s' = { s with pc := s'.pc, waiters := s'.waiters, owner := s'.owner })
    (htook : ∀ i, c.took i = (s.pc p).took i)
    (hwaiters : ∀ i, s'.waiters i = s.waiters i + c.waits i - (s.pc p).waits i) : Ledger s' := by
  refine h.move hpc ?_ (fun i => ?_) (fun q _ => ?_) (fun i => ?_) hwaiters
  · rw [hframe]
  · rw [hframe, htook]
    exact h.taken p i
  · rw [hframe]
  · rw [hframe, htook]
    simp only [sub_self, add_zero, sub_zero]
    exact (h.inRange i).symm

theorem Ledger.setPc (hpc : s.pc p = c₀) (htook : ∀ i, c.took i = c₀.took i)
    (hwaits : ∀ i, c.waits i = c₀.waits i) : Ledger (s.setPc p c) := by
  subst hpc
  refine h.wait rfl rfl htook fun i => ?_
  rw [hwaits]
  exact (add_sub_cancel_right _ _).symm

theorem Ledger.setLock (x : Nat) (o : Option ProcSlot) : Ledger (s.setLock x o) :=
  ⟨h.taken, h.count, h.waiters⟩

theorem Ledger.grant (id : Nat) : Ledger (s.grant id) := ⟨h.taken, h.count, h.waiters⟩

theorem Ledger.grantTo (q : ProcSlot) : Ledger (s.grantTo q) := by
  unfold SemState.grantTo
  split
  · exact h.grant _
  · exact h

theorem Ledger.wake (q : ProcSlot) : Ledger (s.wake q) := by
  unfold SemState.wake
  split
  · next w hpc => exact h.setPc hpc (took_woken · w) (waits_woken · w)
  · exact h

theorem Ledger.returnWith (hpc : s.pc p = c₀) (hnext : ∀ i, c₀.took i = ids.count i)
    (hwaits : ∀ i, c₀.waits i = 0) : Ledger ((s.returnWith p ids).setPc p .idle) := by
  subst hpc
  refine h.move rfl rfl (fun i => ?_) (fun q hq => ?_) (fun i => ?_) fun i => ?_
  · show update s.taken p (fun _ => 0) p i = 0
    rw [update_self]
  · exact update_of_ne hq _ _
  · rw [hnext]
    show s.count i = int32 (s.count i + (s.completed i - s.completed i) -
      ((s.returned i + ids.count i : Nat) - s.returned i) - ((0 : Nat) - ids.count i))
    rw [show s.count i + (s.completed i - s.completed i : Int) -
      ((s.returned i + ids.count i : Nat) - s.returned i) - ((0 : Nat) - ids.count i) = s.count i by
        omega,
      h.inRange i]
  · rw [hwaits]
    exact (add_sub_cancel_right _ _).symm

theorem Ledger.goto (hpc : s.pc p = .releasing todo next) : Ledger (s.goto p next) := by
  cases next with
  | done => exact h.returnWith hpc (fun _ => List.count_nil.symm) fun _ => rfl
  | took ids => exact h.returnWith hpc (fun _ => Nat.zero_add _) fun _ => rfl
  | sleep w => exact h.setPc hpc (fun _ => rfl) fun _ => rfl
  | back ids => exact h.setPc hpc (fun _ => rfl) fun _ => rfl
  | again ids => exact h.setPc hpc (fun _ => rfl) fun _ => rfl

theorem Ledger.drop (hpc : s.pc p = .releasing todo next) : Ledger (s.drop p todo next) := by
  match todo with
  | [] => exact h.goto hpc
  | [x] => exact (h.setLock x none).goto hpc
  | x :: y :: rest =>
    refine (h.setLock x none).setPc hpc (fun i => ?_) fun i => ?_ <;> cases next <;> rfl

theorem Ledger.post (id : Nat) : Ledger (s.post id) := by
  refine ⟨h.taken, fun i => ?_, h.waiters⟩
  show update s.count id (int32 (s.count id + 1)) i = int32 (s.initial i +
    (update s.completed id (s.completed id + 1) i : Nat) - s.returned i - s.total (Pc.took i))
  by_cases hi : i = id
  · subst hi
    rw [update_self, update_self, h.count, int32_add]
    congr 1
    omega
  · rw [update_of_ne hi, update_of_ne hi]
    exact h.count i

theorem Ledger.took (htaken : Taken s s' p ids) (hids : ids.Nodup)
    (hpc : s.pc p = c₀) (htook : ∀ i, c₀.took i = 0) (hwaits : ∀ i, c₀.waits i = 0) :
    Ledger (s'.setPc p (.releasing todo (.took ids))) := by
  subst hpc
  have hframe := htaken.frame
  have hnow (i : Nat) : (Pc.releasing todo (.took ids)).took i = ids.count i := Nat.zero_add _
  refine h.move (p := p) (c := .releasing todo (.took ids)) ?_ ?_ (fun i => ?_) (fun q hq => ?_)
    (fun i => ?_) fun i => ?_
  · show update s'.pc p _ = _
    rw [hframe]
  · show s'.initial = _
    rw [hframe]
  · show s'.taken p i = _
    rw [htaken.taken, h.taken, htook, hnow]
    exact Int.zero_add _
  · exact htaken.others q hq
  · have hcompleted : s'.completed = s.completed := by rw [hframe]
    have hreturned : s'.returned = s.returned := by rw [hframe]
    show s'.count i = int32 (s.count i + (s'.completed i - s.completed i) -
      (s'.returned i - s.returned i) - _)
    rw [hcompleted, hreturned, hnow, htook, htaken.count, sub_self, sub_self, add_zero, sub_zero]
    split
    · next hi =>
      rw [List.count_eq_one_of_mem hids hi]
      rfl
    · next hi =>
      rw [List.count_eq_zero_of_not_mem hi]
      simp only [Nat.cast_zero, sub_self, sub_zero]
      exact (h.inRange i).symm
  · show s'.waiters i = s.waiters i + (0 : Nat) - _
    rw [hframe, hwaits]
    simp only [Nat.cast_zero, add_zero, sub_zero]

theorem Ledger.sleepP (hpc : s.pc p = .acquiring (.p id) held []) :
    Ledger (((s.take p id).addWaiters id 1).setPc p (.releasing todo (.sleep (.p id)))) := by
  refine h.move rfl rfl (fun i => ?_) (fun q hq => ?_) (fun i => ?_) fun i => ?_
  · have htaken := h.taken p i
    rw [hpc] at htaken
    show update s.taken p (update (s.taken p) id (s.taken p id + 1)) p i =
      (if id = i then 1 else 0 : Nat)
    rw [update_self]
    by_cases hi : i = id
    · subst hi
      rw [update_self, htaken, if_pos rfl]
      rfl
    · rw [update_of_ne hi, htaken, if_neg (Ne.symm hi)]
      rfl
  · exact update_of_ne hq _ _
  · rw [hpc]
    show update s.count id (int32 (s.count id - 1)) i = int32 (s.count i +
      (s.completed i - s.completed i) - (s.returned i - s.returned i) -
      ((if id = i then 1 else 0 : Nat) - (0 : Nat)))
    rw [sub_self, sub_self, add_zero, sub_zero]
    by_cases hi : i = id
    · subst hi
      rw [update_self, if_pos rfl]
      rfl
    · rw [update_of_ne hi, if_neg (Ne.symm hi), sub_self, sub_zero]
      exact (h.inRange i).symm
  · rw [hpc]
    show update s.waiters id (s.waiters id + 1) i =
      s.waiters i + (if id = i then 1 else 0 : Nat) - (0 : Nat)
    rw [update_add]
    split <;> omega

theorem Ledger.backP (hpc : s.pc p = .acquiring (.pBack id) held []) :
    Ledger (((s.addWaiters id (-1)).own p id).setPc p (.releasing todo (.took [id]))) := by
  rw [own_eq]
  refine h.wait rfl rfl (fun i => ?_) fun i => ?_
  · rw [hpc]
    exact congrArg (0 + ·) (singleton_count id i)
  · rw [hpc]
    show update s.waiters id (s.waiters id + -1) i =
      s.waiters i + (0 : Nat) - (if id = i then 1 else 0 : Nat)
    rw [update_add]
    split <;> omega

theorem Ledger.run (hpc : s.pc p = .acquiring sec held []) (hids : sec.locks.Nodup)
    (hran : Ran s p sec e) : Ledger (e.hold p) := by
  cases hran with
  | unallocated hsec hid halloc =>
    exact h.setPc hpc (fun i => (hsec.took i).symm) fun i => (hsec.waits i).symm
  | deadlockP hneg => exact h.setPc hpc (fun _ => rfl) fun _ => rfl
  | sleepP halloc hneg => exact h.sleepP hpc
  | tookP hpos => exact h.took takeOne_taken (List.nodup_singleton _) hpc (fun _ => rfl) fun _ =>
    rfl
  | backP => exact h.backP hpc
  | quiet hquiet => exact (h.post _).setPc hpc (fun _ => rfl) fun _ => rfl
  | @woke q w id hq hid =>
    have hne : q ≠ p := by
      rintro rfl
      rw [hpc] at hq
      cases hq
    exact (((h.post id).grantTo q).wake q).setPc ((wake_grantTo_pc_of_ne hne.symm).trans hpc)
      (fun _ => rfl) fun _ => rfl
  | deadlockMulti hwait hcycle => exact h.setPc hpc (fun _ => rfl) fun _ => rfl
  | tookMulti hpos => exact h.took (foldl_takeOne hids) hids hpc (fun _ => rfl) fun _ => rfl
  | sleepMulti halloc hmem hwait hacyclic =>
    refine h.wait rfl rfl (fun i => ?_) fun i => ?_ <;> rw [hpc]
    · rfl
    · exact (sub_zero _).symm
  | backMulti => exact h.setPc hpc (fun _ => rfl) fun _ => rfl
  | retry =>
    refine h.wait rfl rfl (fun i => ?_) fun i => ?_ <;> rw [hpc]
    · rfl
    · exact congrArg (· - _) (add_zero _).symm

theorem Ledger.fired (hsorted : s.Calls Acq.Sorted) (hfired : Fired s ev s') : Ledger s' := by
  cases hfired with
  | refused => exact h
  | @called p c sec hpc hsec =>
    have hstarts := Call.section_starts hsec
    exact h.setPc hpc hstarts.took hstarts.waits
  | @acquired p sec held todo x hpc hlock =>
    refine (h.setLock x (some p)).setPc hpc (fun i => ?_) fun i => ?_ <;> cases sec <;> rfl
  | @ran p sec held e hpc hran =>
    have hlocks := Section.locks_sorted fun a ha => hsorted p a (by rw [hpc]; exact ha)
    exact (h.run hpc (hlocks.imp Nat.ne_of_lt) hran).drop (update_self ..)
  | released hpc => exact h.drop hpc
  | @killed p =>
    have hkill : Ledger { s with killed := update s.killed p true } :=
      ⟨h.taken, h.count, h.waiters⟩
    exact hkill.wake p

end

variable {es : List Event}

structure Orderly (s : SemState) : Prop where
  ledger : Ledger s
  locking : Locking s
  sorted : s.Calls Acq.Sorted

theorem Started.orderly (h : Started s) : Orderly s := by
  have hzero {f : Pc → Nat} (hf : f .idle = 0) : s.total f = 0 := by
    refine Finset.sum_eq_zero fun q _ => ?_
    rw [h.pc q]
    exact hf
  refine ⟨⟨fun p i => ?_, fun i => ?_, fun i => ?_⟩, ⟨fun x q hx => ?_, fun p => ?_⟩,
    fun p a ha => ?_⟩
  · rw [h.taken, h.pc]
    rfl
  · have hrange := h.range i
    rw [h.count, h.completed, h.returned, hzero rfl]
    simp only [Nat.cast_zero, add_zero, sub_zero]
    exact (int32_of_range (by omega) hrange.2).symm
  · rw [h.waiters, hzero rfl]
    rfl
  · rw [h.lock] at hx
    cases hx
  · rw [h.pc]
    trivial
  · rw [h.pc] at ha
    cases ha

theorem Orderly.fired_of_fire (h : Orderly s) (hfire : fire s ev = some s') : Fired s ev s' :=
  Sem.fired_of_fire h.ledger.inRange hfire

theorem Orderly.step (h : Orderly s) (hfire : fire s ev = some s') : Orderly s' :=
  have hfired := h.fired_of_fire hfire
  ⟨h.ledger.fired h.sorted hfired, h.locking.fired hfired, h.sorted.sorted_fired hfired⟩

def Pc.sleepsInP : Pc → Bool
  | asleep (.p _) => true
  | _ => false

/-- The step does not kill a process that sleeps in `sem_p`. -/
def Spares (s : SemState) : Event → Prop
  | .kill q => (s.pc q).sleepsInP = false
  | _ => True

instance : Decidable (Spares s ev) :=
  match ev with
  | .kill q => inferInstanceAs (Decidable ((s.pc q).sleepsInP = false))
  | .call _ _ | .acquire _ | .run _ | .release _ => isTrue trivial

/-- The units granted are those of calls that return or have returned, and not too many. -/
structure Granting (s : SemState) : Prop where
  exact : ∀ i, s.granted i = s.returned i + s.total (Pc.transit i)
  bounded : ∀ i, (s.granted i : Int) ≤ s.initial i + s.completed i

theorem claim_le_one (i : Nat) (c : Pc) : c.claim i ≤ 1 := by
  unfold Pc.claim Waiter.claim
  split
  · split
    · split <;> omega
    · omega
  · split
    · split <;> omega
    · omega
  · omega

theorem total_claim_le (s : SemState) (i : Nat) : s.total (Pc.claim i) ≤ 64 := by
  have hsum := Finset.sum_le_card_nsmul Finset.univ (fun q => (s.pc q).claim i) 1
    fun q _ => claim_le_one i (s.pc q)
  rwa [Finset.card_univ, Fintype.card_fin, smul_eq_mul, mul_one] at hsum

def SemState.Conserves (s : SemState) : Prop :=
  ∀ i, s.count i = int32 (s.initial i + s.completed i - s.granted i - s.total (Pc.claim i))

theorem total_took (s : SemState) (i : Nat) :
    s.total (Pc.took i) = s.total (Pc.claim i) + s.total (Pc.transit i) :=
  Finset.sum_add_distrib

theorem Orderly.nodup (h : Orderly s) (hpc : s.pc p = .acquiring sec held []) : sec.locks.Nodup :=
  (Section.locks_sorted fun a ha => h.sorted p a (by rw [hpc]; exact ha)).imp Nat.ne_of_lt

theorem le_completed_post (s : SemState) (id i : Nat) :
    s.completed i ≤ (s.post id).completed i := by
  show s.completed i ≤ update s.completed id (s.completed id + 1) i
  by_cases hi : i = id
  · rw [hi, update_self]
    omega
  · rw [update_of_ne hi]

section
variable (h : Granting s)
include h

theorem Granting.move (hpc : s'.pc = update s.pc p c)
    (hinitial : s'.initial = s.initial) (hcompleted : ∀ i, s.completed i ≤ s'.completed i)
    (hgranted : ∀ i, s'.granted i + s.returned i + (s.pc p).transit i =
      s.granted i + s'.returned i + c.transit i)
    (hnew : ∀ i, s.granted i < s'.granted i → (s'.granted i : Int) ≤ s.initial i + s'.completed i) :
    Granting s' := by
  refine ⟨fun i => ?_, fun i => ?_⟩
  · have htotal := total_move hpc (Pc.transit i)
    have hbefore := h.exact i
    have hafter := hgranted i
    omega
  · have hbefore := h.bounded i
    have hmono := hcompleted i
    rw [hinitial]
    by_cases hlt : s.granted i < s'.granted i
    · exact hnew i hlt
    · omega

theorem Granting.setPc (hpc : s.pc p = c₀) (htransit : ∀ i, c.transit i = c₀.transit i) :
    Granting (s.setPc p c) :=
  h.move rfl rfl (fun _ => le_rfl) (fun i => by rw [htransit, hpc]; rfl) fun _ hlt =>
    absurd hlt (lt_irrefl _)

theorem Granting.conserves (hledger : Ledger s) : s.Conserves := by
  intro i
  have hexact := h.exact i
  rw [hledger.count, total_took]
  congr 1
  omega

theorem Granting.unit (hledger : Ledger s) (hpos : 0 ≤ int32 (s.count i - 1)) :
    (s.granted i + 1 : Int) ≤ s.initial i + s.completed i := by
  have hbounded := h.bounded i
  have hclaims := total_claim_le s i
  by_contra hnot
  have hall : (s.granted i : Int) = s.initial i + s.completed i := by omega
  rw [h.conserves hledger i, sub_eq_add_neg, int32_add, int32_of_range] at hpos <;> omega

theorem Granting.took (hledger : Ledger s) (htaken : Taken s s' p ids)
    (hids : ids.Nodup) (hp : s.pc p = c₀) (htransit : ∀ i, c₀.transit i = 0)
    (hpos : ∀ i ∈ ids, 0 ≤ int32 (s.count i - 1)) :
    Granting (s'.setPc p (.releasing todo (.took ids))) := by
  subst hp
  have hframe := htaken.frame
  have hpc : s'.pc = s.pc := by rw [hframe]
  have hinitial : s'.initial = s.initial := by rw [hframe]
  have hcompleted : s'.completed = s.completed := by rw [hframe]
  have hreturned : s'.returned = s.returned := by rw [hframe]
  refine h.move (p := p) (c := .releasing todo (.took ids)) (congrArg (update · p _) hpc)
    hinitial (fun i => (congrFun hcompleted i).ge) (fun i => ?_) fun i hlt => ?_
  · show s'.granted i + s.returned i + _ = s.granted i + s'.returned i + ids.count i
    rw [htaken.granted, htransit, hreturned]
    omega
  · have hgranted := htaken.granted i
    have hlt : s.granted i < s'.granted i := hlt
    have hmem : i ∈ ids := List.count_pos_iff.1 (by omega)
    have hunit := h.unit hledger (hpos i hmem)
    rw [List.count_eq_one_of_mem hids hmem] at hgranted
    show (s'.granted i : Int) ≤ s.initial i + s'.completed i
    rw [hgranted, hcompleted]
    exact hunit

theorem Granting.goto (hpc : s.pc p = .releasing todo next) : Granting (s.goto p next) := by
  cases next with
  | done =>
    show Granting ((s.returnWith p []).setPc p .idle)
    refine h.move rfl rfl (fun _ => le_rfl) (fun i => ?_) fun _ hlt => absurd hlt (lt_irrefl _)
    rw [hpc]
    rfl
  | took ids =>
    show Granting ((s.returnWith p ids).setPc p .idle)
    refine h.move rfl rfl (fun _ => le_rfl) (fun i => ?_) fun _ hlt => absurd hlt (lt_irrefl _)
    rw [hpc]
    exact (Nat.add_assoc ..)
  | sleep w | back ids | again ids => exact h.setPc hpc fun _ => rfl

theorem Granting.drop (hpc : s.pc p = .releasing todo next) : Granting (s.drop p todo next) := by
  have hunlock (x : Nat) : Granting (s.setLock x none) := ⟨h.exact, h.bounded⟩
  match todo with
  | [] => exact h.goto hpc
  | [x] => exact (hunlock x).goto hpc
  | x :: y :: rest =>
    refine (hunlock x).setPc hpc fun i => ?_
    cases next <;> rfl

theorem Granting.post (id : Nat) : Granting (s.post id) := by
  refine ⟨h.exact, fun i => (h.bounded i).trans ?_⟩
  have hle := le_completed_post s id i
  show s.initial i + (s.completed i : Int) ≤ s.initial i + ((s.post id).completed i : Int)
  omega

theorem Granting.wake (hq : s.pc q = .asleep w) (hid : w.chan = id) :
    Granting (((s.post id).grantTo q).wake q) := by
  subst hid
  cases w with
  | p id =>
    show Granting (((s.post id).grantTo q).wake q)
    rw [grantTo_wake_p (s := s.post id) hq]
    refine h.move rfl rfl (le_completed_post s id) (fun i => ?_) fun i hlt => ?_
    · rw [hq]
      show update s.granted id (s.granted id + 1) i + s.returned i + 0 =
        s.granted i + s.returned i + if id = i then 1 else 0
      rw [update_add]
      omega
    · have hlt : s.granted i < update s.granted id (s.granted id + 1) i := hlt
      have hbounded := h.bounded i
      show ((update s.granted id (s.granted id + 1) i : Nat) : Int) ≤ s.initial i +
        (update s.completed id (s.completed id + 1) i : Nat)
      by_cases hi : i = id
      · subst hi
        rw [update_self, update_self]
        omega
      · rw [update_of_ne hi] at hlt
        exact absurd hlt (lt_irrefl _)
  | multi ids wait =>
    show Granting (((s.post wait).grantTo q).wake q)
    rw [grantTo_wake_multi (s := s.post wait) hq]
    exact (h.post wait).setPc hq fun _ => rfl

theorem Granting.run (ho : Orderly s) (hpc : s.pc p = .acquiring sec held [])
    (hran : Ran s p sec e) : Granting (e.hold p) := by
  have hids := ho.nodup hpc
  cases hran with
  | unallocated hsec hid halloc =>
    refine h.setPc hpc fun i => ?_
    have htook : (Pc.acquiring sec held []).took i = 0 := hsec.took i
    exact (Nat.eq_zero_of_add_eq_zero_left htook).symm
  | deadlockP | deadlockMulti | backMulti => exact h.setPc hpc fun _ => rfl
  | sleepP | sleepMulti | retry => exact Granting.setPc ⟨h.exact, h.bounded⟩ hpc fun _ => rfl
  | @tookP id hpos =>
    refine h.took ho.ledger takeOne_taken (List.nodup_singleton id) hpc (fun _ => rfl) fun i hi =>
      ?_
    rwa [List.mem_singleton.1 hi]
  | @backP id =>
    rw [own_eq]
    exact Granting.setPc ⟨h.exact, h.bounded⟩ hpc (singleton_count id)
  | quiet hquiet => exact (h.post _).setPc hpc fun _ => rfl
  | @woke q w id hq hid =>
    have hne : p ≠ q := by
      intro he
      rw [← he, hpc] at hq
      cases hq
    exact (h.wake hq hid).setPc ((wake_grantTo_pc_of_ne (s := s.post id) hne).trans hpc) fun _ =>
      rfl
  | tookMulti hpos =>
    refine h.took ho.ledger (foldl_takeOne hids) hids hpc (fun _ => rfl) fun i hi => ?_
    have hcount := hpos i hi
    have hrange := int32_range (s.count i)
    rw [ho.ledger.inRange i] at hrange
    rw [int32_of_range] <;> omega

theorem Granting.fired (ho : Orderly s) (hfired : Fired s ev s') (hspares : Spares s ev) :
    Granting s' := by
  cases hfired with
  | refused => exact h
  | @called p c sec hpc hsec =>
    refine h.setPc hpc fun i => ?_
    have htook : (Pc.acquiring sec [] sec.locks).took i = 0 := (Call.section_starts hsec).took i
    exact Nat.eq_zero_of_add_eq_zero_left htook
  | @acquired p sec held todo x hpc hlock =>
    refine Granting.setPc (s := s.setLock x (some p)) ⟨h.exact, h.bounded⟩ hpc fun i => ?_
    cases sec <;> rfl
  | ran hpc hran => exact (h.run ho hpc hran).drop (update_self ..)
  | released hpc => exact h.drop hpc
  | @killed q =>
    have hkill : Granting { s with killed := update s.killed q true } := ⟨h.exact, h.bounded⟩
    unfold SemState.wake
    split
    · next w hpc =>
      refine hkill.setPc hpc fun i => ?_
      have hpc : s.pc q = .asleep w := hpc
      cases w with
      | p id =>
        have hspares : (s.pc q).sleepsInP = false := hspares
        rw [hpc] at hspares
        cases hspares
      | multi ids wait => rfl
    · exact hkill

end

theorem Started.granting (h : Started s) : Granting s := by
  refine ⟨fun i => ?_, fun i => ?_⟩
  · rw [h.granted, h.returned]
    symm
    rw [Nat.zero_add]
    refine Finset.sum_eq_zero fun q _ => ?_
    rw [h.pc q]
    rfl
  · have hrange := h.range i
    rw [h.granted]
    omega

def Event.isKill : Event → Bool
  | kill _ => true
  | _ => false

theorem Orderly.initial_step (h : Orderly s) (hfire : fire s ev = some s') :
    s'.initial = s.initial := by
  have hdrop (s : SemState) (p : ProcSlot) (todo : List Nat) (next : Next) :
      (s.drop p todo next).initial = s.initial := by
    match todo with
    | [] | [_] | _ :: _ :: _ => cases next <;> rfl
  cases h.fired_of_fire hfire with
  | refused | called | acquired => rfl
  | @ran p sec held e hpc hran => exact (hdrop _ p _ _).trans hran.near.initial
  | released => exact hdrop _ _ _ _
  | killed => exact (kill_near s _).initial

theorem Ledger.multi_taken (h : Ledger s) (hp : (s.pc p).acq = some (.multi ids)) (i : Nat) :
    s.taken p i = 0 := by
  rw [h.taken]
  generalize s.pc p = c at hp
  cases c with
  | idle => cases hp
  | acquiring sec held todo => cases sec <;> first | rfl | cases hp
  | releasing todo next =>
    cases next with
    | sleep w => cases w <;> first | rfl | cases hp
    | done | took ids => cases hp
    | back ids | again ids => rfl
  | asleep w => cases w <;> first | rfl | cases hp

/-- What holds throughout a run from the counts `init` that spares the processes asleep in `sem_p`.
-/
structure Fair (init : Nat → Int) (s : SemState) : Prop where
  orderly : Orderly s
  granting : Granting s
  initial : s.initial = init

theorem Started.fair (h : Started s) : Fair s.count s := ⟨h.orderly, h.granting, h.count.symm⟩

theorem Fair.step (h : Fair init s) (hspares : Spares s ev)
    (hfire : fire s ev = some s') : Fair init s' :=
  ⟨h.orderly.step hfire, h.granting.fired h.orderly (h.orderly.fired_of_fire hfire) hspares,
    (h.orderly.initial_step hfire).trans h.initial⟩

theorem Fair.along (h : Fair init s) (hes : Along fire Spares s es)
    (hrun : runEvents fire s es = some s') : Fair init s' :=
  (Reaches.run hes hrun).invariant (fun _ _ _ ht hP hfire => ht.step hP hfire) h

theorem spares_of_not_kill (h : ev.isKill = false) (s : SemState) : Spares s ev := by
  cases ev with
  | kill => cases h
  | call | acquire | run | release => trivial

/-- Without kills, acquisitions do not exceed the units, a failed `sem_p_multi` has taken nothing,
and none deadlock. -/
theorem semaphores_exclusive (hs : Started s) (hes : ∀ ev ∈ es, ev.isKill = false)
    (hrun : runEvents fire s es = some s') :
    (∀ i, (s'.returned i : Int) ≤ s.count i + s'.completed i) ∧
      (∀ p ids, (s'.pc p).acq = some (.multi ids) → ∀ i, s'.taken p i = 0) ∧
      ∀ p, ¬ Relation.TransGen s'.Awaits p p := by
  have hfair := hs.fair.along (Along.of_mem (fun ev hev => spares_of_not_kill (hes ev hev)) s) hrun
  refine ⟨fun i => ?_, fun p ids hp i => hfair.orderly.ledger.multi_taken hp i, fun p => ?_⟩
  · have hexact := hfair.granting.exact i
    have hbounded := hfair.granting.bounded i
    rw [hfair.initial] at hbounded
    omega
  · exact hfair.orderly.locking.acyclic hfair.orderly.sorted p

def freshSems (size : Nat) (n : Int) : SemState where
  size := size
  allocated i := decide (i < size)
  count _ := n
  waiters _ := 0
  owner _ := 0
  lock _ := none
  pc _ := .idle
  killed _ := false
  initial _ := n
  completed _ := 0
  granted _ := 0
  returned _ := 0
  taken _ _ := 0

theorem freshSems_started (h : 0 ≤ n ∧ n < 2 ^ 31) : Started (freshSems size n) :=
  ⟨rfl, fun _ => h, fun _ => rfl, fun _ => rfl, fun _ => rfl, fun _ => rfl, fun _ => rfl, fun _ =>
    rfl, fun _ => rfl, fun _ _ => rfl⟩

def multiRun : List Event :=
  [.call 0 (.multi [1, 0]), .acquire 0, .acquire 0, .run 0, .release 0, .call 1 (.v 0), .acquire 1,
    .run 1, .acquire 0, .run 0]

theorem semaphores_exclusive_multiRun : ∃ s', runEvents fire (freshSems 128 0) multiRun = some s' ∧
    (∀ i, (s'.returned i : Int) ≤ (freshSems 128 0).count i + s'.completed i) ∧
      (∀ p ids, (s'.pc p).acq = some (.multi ids) → ∀ i, s'.taken p i = 0) ∧
      ∀ p, ¬ Relation.TransGen s'.Awaits p p := by
  obtain ⟨s', hrun⟩ : ∃ s', runEvents fire (freshSems 128 0) multiRun = some s' :=
    Option.isSome_iff_exists.1 (by decide +kernel)
  exact ⟨s', hrun, semaphores_exclusive (freshSems_started (by decide)) (by decide) hrun⟩

theorem int32_succ_ne (x : Int) : int32 (x + 1) ≠ int32 x := by
  intro h
  have hrange := int32_range x
  rw [← int32_add] at h
  by_cases hlast : int32 x = 2 ^ 31 - 1
  · rw [hlast] at h
    exact absurd h (by decide)
  · rw [int32_of_range (by omega) (by omega)] at h
    omega

theorem Fair.lost (h : Fair init s) (hkill : ¬ Spares s ev)
    (hfire : fire s ev = some s') : ¬ s'.Conserves := by
  intro hafter
  cases ev with
  | call | acquire | run | release => exact hkill trivial
  | kill q =>
    cases hpc : s.pc q with
    | asleep w =>
      cases w with
      | p id =>
        have hbefore := h.granting.conserves h.orderly.ledger id
        have hwake : s' = ({ s with killed := update s.killed q true } : SemState).setPc q
            (Waiter.p id).woken :=
          (Option.some.inj hfire).symm.trans
            (wake_eq (s := { s with killed := update s.killed q true }) hpc)
        have hpc' : s'.pc = update s.pc q (Waiter.p id).woken := by rw [hwake]; rfl
        have htotal := total_move hpc' (Pc.claim id)
        rw [hpc, show (Pc.asleep (.p id)).claim id = 1 from if_pos rfl,
          show (Waiter.p id).woken.claim id = 0 from rfl] at htotal
        have hnow := hafter id
        rw [hwake] at hnow htotal
        have hcount : s.count id = int32 (s.initial id + s.completed id - s.granted id -
            (SemState.setPc _ q (Waiter.p id).woken).total (Pc.claim id)) := hnow
        rw [hbefore] at hcount
        refine int32_succ_ne (s.initial id + s.completed id - s.granted id - s.total (Pc.claim id))
          ?_
        rw [hcount]
        congr 1
        omega
      | multi ids wait => exact hkill (show (s.pc q).sleepsInP = false by rw [hpc]; rfl)
    | idle | acquiring | releasing => exact hkill (show (s.pc q).sleepsInP = false by rw [hpc]; rfl)

/-- The counts agree with the granted units throughout a run exactly if no process asleep in `sem_p`
is killed. -/
theorem kill_conserves_units_iff (hs : Started s) (es : List Event) :
    Always fire SemState.Conserves s es ↔ Along fire Spares s es :=
  always_iff_along (fun _ h => h.granting.conserves h.orderly.ledger)
    (fun _ _ _ h hP hfire => h.step hP hfire) (fun _ _ _ h hP hfire => h.lost hP hfire) hs.fair

theorem kill_conserves_units_multiRun : Always fire SemState.Conserves (freshSems 128 0) multiRun :=
  (kill_conserves_units_iff (freshSems_started (by decide)) multiRun).2 (by decide +kernel)

def killRun : List Event :=
  [.call 0 (.p 0), .acquire 0, .run 0, .kill 0, .acquire 0, .run 0]

/-- The killed process returns as an owner without a unit, and the count stays negative. -/
theorem kill_grants_semaphore : ∃ s', runEvents fire (freshSems 128 0) killRun = some s' ∧
    s'.returned 0 = 1 ∧ s'.completed 0 = 0 ∧ s'.granted 0 = 0 ∧ s'.count 0 = -1 ∧
    ¬ s'.Conserves := by
  obtain ⟨s', hs', hreturned, hcompleted, hgranted, hcount, hne⟩ :
    ∃ s', runEvents fire (freshSems 128 0) killRun = some s' ∧
      s'.returned 0 = 1 ∧ s'.completed 0 = 0 ∧ s'.granted 0 = 0 ∧ s'.count 0 = -1 ∧
        s'.count 0 ≠ int32 (s'.initial 0 + s'.completed 0 - s'.granted 0 - s'.total (Pc.claim 0)) :=
    exists_of_any (by decide +kernel)
  exact ⟨s', hs', hreturned, hcompleted, hgranted, hcount, fun hall => hne (hall 0)⟩

end OopsOS.Sem
