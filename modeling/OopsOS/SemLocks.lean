import OopsOS.Semaphores

namespace OopsOS.Sem
set_option autoImplicit true
open Function

inductive Acq where
  | p (id : Nat)
  | multi (ids : List Nat)
deriving DecidableEq

def Acq.locks : Acq → List Nat
  | p id => [id]
  | multi ids => ids

def Section.acq : Section → Option Acq
  | p id | pBack id => some (.p id)
  | v _ => none
  | multi ids _ | multiBack ids _ | multiRetry ids => some (.multi ids)

def Waiter.acq : Waiter → Acq
  | p id => .p id
  | multi ids _ => .multi ids

def Next.acq : Next → Option Acq
  | done | took _ => none
  | sleep w => some w.acq
  | back ids | again ids => some (.multi ids)

def Pc.acq : Pc → Option Acq
  | idle => none
  | acquiring sec _ _ => sec.acq
  | releasing _ next => next.acq
  | asleep w => some w.acq

variable {s s' : SemState} {p q : ProcSlot} {id : Nat} {todo got : List Nat} {sec : Section}
  {next : Next} {e : Exit} {ev : Event} {c : Pc} {a : Acq} {P : Acq → Prop}

def SemState.Calls (s : SemState) (P : Acq → Prop) : Prop := ∀ p a, (s.pc p).acq = some a → P a

def Event.acq (size : Nat) : Event → Option Acq
  | call _ c => (c.section size).bind Section.acq
  | _ => none

theorem SemState.Calls.setPc (h : s.Calls P) (hc : ∀ a, c.acq = some a → P a) :
    (s.setPc p c).Calls P := by
  intro q a ha
  by_cases hq : q = p
  · subst hq
    rw [show (s.setPc q c).pc q = c from update_self ..] at ha
    exact hc a ha
  · rw [show (s.setPc p c).pc q = s.pc q from update_of_ne hq _ _] at ha
    exact h q a ha

theorem Waiter.woken_acq (w : Waiter) : w.woken.acq = some w.acq := by
  cases w <;> rfl

theorem SemState.Calls.near (h : s.Calls P) (hnear : Near s s') : s'.Calls P := by
  intro q a ha
  obtain hpc | ⟨w, hw, hpc⟩ := hnear.pc q
  · rw [hpc] at ha
    exact h q a ha
  · rw [hpc, w.woken_acq] at ha
    exact h q a (by rw [hw]; exact ha)

theorem SemState.Calls.drop (h : s.Calls P) (hpc : s.pc p = .releasing todo next) :
    (s.drop p todo next).Calls P := by
  have hnext (a : Acq) (ha : next.acq = some a) : P a := h p a (by rw [hpc]; exact ha)
  have hgoto {t : SemState} (ht : t.Calls P) : (t.goto p next).Calls P := by
    cases next with
    | done => exact SemState.Calls.setPc (s := t.returnWith p []) ht nofun
    | took ids => exact SemState.Calls.setPc (s := t.returnWith p ids) ht nofun
    | sleep w => exact ht.setPc hnext
    | back ids => exact ht.setPc hnext
    | again ids => exact ht.setPc hnext
  match todo with
  | [] => exact hgoto h
  | [x] => exact hgoto (t := s.setLock x none) h
  | x :: y :: rest => exact SemState.Calls.setPc (s := s.setLock x none) h hnext

theorem Ran.acq (h : Ran s p sec e) (ha : e.next.acq = some a) : sec.acq = some a := by
  cases h with
  | sleepP | sleepMulti | backMulti | retry => exact ha
  | _ => cases ha

theorem SemState.Calls.fired (h : s.Calls P) (hfired : Fired s ev s')
    (hev : ∀ a, ev.acq s.size = some a → P a) : s'.Calls P := by
  cases hfired with
  | refused => exact h
  | called hpc hsec =>
    refine h.setPc fun a ha => hev a ?_
    rw [Event.acq, hsec]
    exact ha
  | @acquired p sec held todo x hpc hlock =>
    refine SemState.Calls.setPc (s := s.setLock x (some p)) h fun a ha => h p a ?_
    rw [hpc]
    exact ha
  | @ran p sec held e hpc hran =>
    refine SemState.Calls.drop ((h.near hran.near).setPc fun a ha => h p a ?_)
      (update_self ..)
    rw [hpc]
    exact hran.acq ha
  | released hpc => exact h.drop hpc
  | killed => exact h.near (kill_near s _)

def Pc.held : Pc → List Nat
  | acquiring _ held _ => held
  | releasing todo _ => todo
  | _ => []

def Pc.Partial : Pc → Prop
  | acquiring sec held todo => held ++ todo = sec.locks
  | _ => True

structure Locking (s : SemState) : Prop where
  held : ∀ x q, s.lock x = some q → x ∈ (s.pc q).held
  begun : ∀ p, (s.pc p).Partial

theorem Ran.locks (h : Ran s p sec e) (hx : x ∈ sec.locks) : x ∈ e.locks := by
  cases h with
  | @sleepMulti ids wait again halloc hmem =>
    by_cases hw : x = wait
    · rw [hw]
      exact List.mem_append_right _ List.mem_cons_self
    · exact List.mem_append_left _ (List.mem_filter.2 ⟨hx, decide_eq_true hw⟩)
  | _ => exact hx

theorem unlock_some (h : (s.setLock x none).lock y = some q) : y ≠ x ∧ s.lock y = some q := by
  by_cases hy : y = x
  · rw [hy, show (s.setLock x none).lock x = none from update_self ..] at h
    cases h
  · rw [show (s.setLock x none).lock y = s.lock y from update_of_ne hy _ _] at h
    exact ⟨hy, h⟩

def Pc.wanted : Pc → Option Nat
  | acquiring _ _ (x :: _) => some x
  | _ => none

def SemState.Awaits (s : SemState) (p q : ProcSlot) : Prop :=
  ∃ x, (s.pc p).wanted = some x ∧ s.lock x = some q

def Acq.Sorted (a : Acq) : Prop := a.locks.Pairwise (· < ·)

theorem Section.locks_sorted (hcalls : ∀ a, sec.acq = some a → a.Sorted) :
    sec.locks.Pairwise (· < ·) := by
  cases sec with
  | p id | pBack id | v id | multiBack ids wait => exact List.pairwise_singleton _ _
  | multi ids again => exact hcalls _ rfl
  | multiRetry ids => exact hcalls _ rfl

section
variable (h : Locking s)
include h

theorem Locking.setPc (hheld : ∀ x ∈ (s.pc p).held, s.lock x = some p → x ∈ c.held)
    (hbegun : c.Partial) : Locking (s.setPc p c) where
  held x := (forall_update_iff s.pc fun q c => s.lock x = some q → x ∈ c.held).2
    ⟨fun hlock => hheld x (h.held x p hlock) hlock, fun q _ => h.held x q⟩
  begun := (forall_update_iff s.pc fun _ c => c.Partial).2 ⟨hbegun, fun q _ => h.begun q⟩

theorem Locking.near (hnear : Near s s') : Locking s' := by
  refine ⟨fun x q hlock => ?_, fun q => ?_⟩
  · rw [hnear.lock] at hlock
    have hx := h.held x q hlock
    obtain hpc | ⟨w, hw, -⟩ := hnear.pc q
    · rw [hpc]
      exact hx
    · rw [hw] at hx
      cases hx
  · obtain hpc | ⟨w, -, hpc⟩ := hnear.pc q
    · rw [hpc]
      exact h.begun q
    · rw [hpc]
      cases w <;> rfl

theorem Locking.setLock {o : Option ProcSlot} (hx : ∀ q, o = some q → x ∈ (s.pc q).held) :
    Locking (s.setLock x o) where
  held := (forall_update_iff s.lock fun y o => ∀ q, o = some q → y ∈ (s.pc q).held).2
    ⟨hx, fun y _ => h.held y⟩
  begun := h.begun

theorem Locking.goto (hfree : ∀ x, s.lock x ≠ some p) : Locking (s.goto p next) := by
  have hnone (c : Pc) : ∀ x ∈ (s.pc p).held, s.lock x = some p → x ∈ c.held :=
    fun x _ hlock => absurd hlock (hfree x)
  cases next with
  | done => exact Locking.setPc (s := s.returnWith p []) ⟨h.held, h.begun⟩ (hnone _) trivial
  | took ids => exact Locking.setPc (s := s.returnWith p ids) ⟨h.held, h.begun⟩ (hnone _) trivial
  | sleep w => exact h.setPc (hnone _) trivial
  | back ids => exact h.setPc (hnone _) rfl
  | again ids => exact h.setPc (hnone _) rfl

theorem Locking.drop (hpc : s.pc p = .releasing todo next) : Locking (s.drop p todo next) := by
  have hmem {x : Nat} (hx : s.lock x = some p) : x ∈ todo := by
    have := h.held x p hx
    rw [hpc] at this
    exact this
  have hnone {x : Nat} (q : ProcSlot) (hq : none = some q) : x ∈ (s.pc q).held := nomatch hq
  match todo with
  | [] => exact h.goto fun x hx => List.not_mem_nil (hmem hx)
  | [x] =>
    refine (h.setLock (x := x) hnone).goto fun y hy => ?_
    obtain ⟨hyx, hlock⟩ := unlock_some hy
    exact hyx (List.mem_singleton.1 (hmem hlock))
  | x :: y :: rest =>
    refine (h.setLock (x := x) hnone).setPc (fun z _ hz => ?_) trivial
    obtain ⟨hzx, hlock⟩ := unlock_some hz
    exact (List.mem_cons.1 (hmem hlock)).resolve_left hzx

theorem Locking.fired (hfired : Fired s ev s') : Locking s' := by
  cases hfired with
  | refused => exact h
  | called hpc hsec =>
    refine h.setPc (fun x hx _ => ?_) rfl
    rw [hpc] at hx
    cases hx
  | @acquired p sec held todo x hpc hlock =>
    have hbegun := h.begun p
    rw [hpc] at hbegun
    refine Locking.setLock (s := s.setPc p (.acquiring sec (held ++ [x]) todo))
      (h.setPc (fun y hy _ => ?_) ?_) ?_
    · rw [hpc] at hy
      exact List.mem_append_left _ hy
    · exact (List.append_assoc held [x] todo).trans hbegun
    · rintro q ⟨⟩
      rw [show (s.setPc p _).pc p = _ from update_self ..]
      exact List.mem_append_right _ List.mem_cons_self
  | @ran p sec held e hpc hran =>
    have hbegun := h.begun p
    rw [hpc] at hbegun
    have hall : held = sec.locks := (List.append_nil held).symm.trans hbegun
    refine Locking.drop ((h.near hran.near).setPc (fun x _ hx => ?_) trivial) (update_self ..)
    rw [hran.near.lock] at hx
    have hin := h.held x p hx
    rw [hpc] at hin
    exact hran.locks (hall ▸ hin)
  | released hpc => exact h.drop hpc
  | killed => exact h.near (kill_near s _)

theorem Locking.held_lt_wanted (hsorted : s.Calls Acq.Sorted)
    (hx : s.lock x = some q) (hy : (s.pc q).wanted = some y) : x < y := by
  have hbegun := h.begun q
  have hin := h.held x q hx
  unfold Pc.wanted at hy
  split at hy
  · next sec held z todo hq =>
    cases hy
    have hlocks := Section.locks_sorted fun a ha => hsorted q a (by rw [hq]; exact ha)
    rw [hq] at hbegun hin
    rw [← show held ++ y :: todo = sec.locks from hbegun] at hlocks
    exact (List.pairwise_append.1 hlocks).2.2 x hin y List.mem_cons_self
  · cases hy

theorem Locking.wanted_lt_wanted (hsorted : s.Calls Acq.Sorted)
    (hpq : Relation.TransGen s.Awaits p q) :
    ∃ x, (s.pc p).wanted = some x ∧ ∀ y, (s.pc q).wanted = some y → x < y := by
  induction hpq with
  | single hone =>
    obtain ⟨x, hx, hlock⟩ := hone
    exact ⟨x, hx, fun y hy => h.held_lt_wanted hsorted hlock hy⟩
  | tail _ hlast ih =>
    obtain ⟨x, hx, hlt⟩ := ih
    obtain ⟨z, hz, hlock⟩ := hlast
    exact ⟨x, hx, fun y hy => (hlt z hz).trans (h.held_lt_wanted hsorted hlock hy)⟩

theorem Locking.acyclic (hsorted : s.Calls Acq.Sorted) (p : ProcSlot) :
    ¬ Relation.TransGen s.Awaits p p := by
  intro hcycle
  obtain ⟨x, hx, hlt⟩ := h.wanted_lt_wanted hsorted hcycle
  exact lt_irrefl x (hlt x hx)

end

theorem sortedIds_sorted (h : sortedIds size ids = some l) :
    l.Pairwise (· < ·) := by
  simp only [sortedIds] at h
  split at h
  · cases h
  · obtain ⟨hvalid, rfl⟩ := of_guarded h
    obtain ⟨hrange, hne⟩ := hvalid
    have hle : (ids.insertionSort (· ≤ ·)).Pairwise (· ≤ ·) := List.pairwise_insertionSort _ ids
    refine List.pairwise_map.2 ((hle.and hne).imp_of_mem fun {x y} hx hy hxy => ?_)
    have hx := hrange x hx
    have hy := hrange y hy
    omega

theorem Event.acq_sorted (h : ev.acq size = some a) : a.Sorted := by
  cases ev with
  | call p c =>
    cases c with
    | p id =>
      simp only [Event.acq, Call.section] at h
      split at h
      · cases h
        exact List.pairwise_singleton _ _
      · cases h
    | v id =>
      simp only [Event.acq, Call.section] at h
      split at h <;> cases h
    | multi ids =>
      simp only [Event.acq, Call.section, Option.bind_map, Option.bind_eq_some_iff] at h
      obtain ⟨l, hl, hsec⟩ := h
      cases hsec
      exact sortedIds_sorted hl
  | acquire p | run p | release p | kill p => cases h

theorem SemState.Calls.sorted_fired (h : s.Calls Acq.Sorted) (hfired : Fired s ev s') :
    s'.Calls Acq.Sorted :=
  h.fired hfired fun _ => Event.acq_sorted

end OopsOS.Sem
