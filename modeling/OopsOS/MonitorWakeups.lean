import OopsOS.MonitorExclusion

namespace OopsOS.Mon
set_option autoImplicit true
open Function

variable {s s' : State} {p q : ProcSlot} {m : MonId} {c : Pc} {ch : Chan} {i : Nat}
  {wait cycle : Bool} {e : Event} {es : List Event} {k : CondId}

def Pc.Returns (c : Pc) (m : MonId) : Prop := ∃ ch wait, c = .woken ch wait ∧ ch.mon = m

/-- If a process sleeps at the entry of a free monitor, a woken one is on its way. -/
def State.Prompt (s : State) : Prop :=
  ∀ m, s.locked m = false → (∃ p, (s.pc p).chan = some (.entry m)) → ∃ q, (s.pc q).Returns m

/-- If a killed process gives up in `cond_wait`, no sleeper at the entry depends on it. -/
def State.Passes (s : State) : Event → Prop
  | .resume p _ => ∀ ch, s.pc p = .woken ch true → s.killed p = true → s.locked ch.mon = false →
      (∃ q, (s.pc q).chan = some (.entry ch.mon)) → ∃ q, q ≠ p ∧ (s.pc q).Returns ch.mon
  | _ => True

def State.firstAsleep (s : State) (ch : Chan) : Option ProcSlot :=
  (List.finRange NPROC).find? fun q => (s.pc q).chan = some ch

theorem firstAsleep_chan (h : s.firstAsleep ch = some q) : (s.pc q).chan = some ch := by
  have := List.find?_some h
  exact of_decide_eq_true this

theorem firstAsleep_none (h : s.firstAsleep ch = none) : (s.pc q).chan ≠ some ch := by
  have := List.find?_eq_none.1 h q (List.mem_finRange q)
  simpa using this

theorem Pc.asleep_of_chan (h : c.chan = some ch) : ∃ wait, c = .asleep ch wait := by
  cases c <;> cases h
  exact ⟨_, rfl⟩

theorem Pc.Returns.wake (h : c.chan = some ch) : c.wake.Returns ch.mon := by
  obtain ⟨wait, rfl⟩ := asleep_of_chan h
  exact ⟨ch, wait, rfl, rfl⟩

theorem Pc.wake_chan (c : Pc) : c.wake.chan = none := by
  cases c <;> rfl

theorem Pc.Returns.kept (h : c.Returns m) (hd : d = c ∨ d = c.wake) : d.Returns m := by
  obtain ⟨ch, wait, rfl, hm⟩ := h
  obtain rfl | rfl := hd <;> exact ⟨ch, wait, rfl, hm⟩

theorem chan_of_wakes {f : ProcSlot → Pc} (hf : f q = s.pc q ∨ f q = (s.pc q).wake)
    (h : (f q).chan = some ch) : (s.pc q).chan = some ch := by
  obtain he | he := hf
  · exact he ▸ h
  · rw [he, Pc.wake_chan] at h
    cases h

theorem wakeupOneProc_of_none (h : s.firstAsleep ch = none) : s.wakeupOneProc ch = s := by
  unfold State.firstAsleep at h
  rw [State.wakeupOneProc, h]

theorem wakeupOneProc_of_some (h : s.firstAsleep ch = some q) :
    s.wakeupOneProc ch = s.setPc q (s.pc q).wake := by
  unfold State.firstAsleep at h
  rw [State.wakeupOneProc, h]

theorem Pc.idle_returns : ¬ Pc.idle.Returns m := nofun

theorem Pc.exiting_returns : ¬ (Pc.exiting i).Returns m := nofun

section
variable (h : s.Prompt)
include h

theorem State.Prompt.wakes {f : ProcSlot → Pc}
    (hf : ∀ q, f q = s.pc q ∨ f q = (s.pc q).wake) : State.Prompt { s with pc := f } := by
  intro m hm hsleep
  obtain ⟨p, hp⟩ := hsleep
  obtain ⟨q, hq⟩ := h m hm ⟨p, chan_of_wakes (hf p) hp⟩
  exact ⟨q, hq.kept (hf q)⟩

theorem State.Prompt.move (hpc : s'.pc = update s.pc p c)
    (hlocked : ∀ k, s'.locked k = false → s.locked k = false)
    (hc : ∀ k, c.chan = some (.entry k) → s'.locked k = true)
    (hret : ∀ k, (s.pc p).Returns k → s'.locked k = false → (∃ q, (s.pc q).chan = some (.entry k)) →
      ∃ q, q ≠ p ∧ (s.pc q).Returns k) : s'.Prompt := by
  intro k hk hsleep
  obtain ⟨q, hq⟩ := hsleep
  rw [hpc] at hq ⊢
  have hqp : q ≠ p := by
    intro he
    rw [he, update_self] at hq
    simp [hc k hq] at hk
  rw [update_of_ne hqp] at hq
  obtain ⟨r, hrp, hr⟩ : ∃ r, r ≠ p ∧ (s.pc r).Returns k := by
    obtain ⟨r, hr⟩ := h k (hlocked k hk) ⟨q, hq⟩
    by_cases hrp : r = p
    · exact hret k (hrp ▸ hr) hk ⟨q, hq⟩
    · exact ⟨r, hrp, hr⟩
  exact ⟨r, by rwa [update_of_ne hrp]⟩

theorem State.Prompt.setPc (hpc : ∀ k, ¬ (s.pc p).Returns k)
    (hc : ∀ k, c.chan = some (.entry k) → s.locked k = true) : (s.setPc p c).Prompt :=
  h.move rfl (fun _ => id) hc fun k hk => absurd hk (hpc k)

theorem State.Prompt.wakeupOneProc : (s.wakeupOneProc ch).Prompt := by
  obtain ⟨f, hf, hwake⟩ := wakeupOneProc_eq s ch
  rw [hf]
  exact h.wakes hwake

theorem State.Prompt.leave : (s.leave p m).Prompt := by
  intro k hk hsleep
  obtain ⟨q, hq⟩ := hsleep
  obtain ⟨f, hf, hwake⟩ := leave_eq s p m
  by_cases hkm : k = m
  · subst hkm
    unfold State.leave at hq ⊢
    cases hfirst : State.firstAsleep _ (.entry k) with
    | none =>
      rw [wakeupOneProc_of_none hfirst] at hq
      exact absurd hq (firstAsleep_none hfirst)
    | some r =>
      rw [wakeupOneProc_of_some hfirst]
      refine ⟨r, ?_⟩
      simp only [State.setPc, update_self]
      exact Pc.Returns.wake (firstAsleep_chan hfirst)
  · rw [hf] at hk hq ⊢
    obtain ⟨r, hr⟩ := h k (by simpa [hkm] using hk) ⟨q, chan_of_wakes (hwake q) hq⟩
    exact ⟨r, hr.kept (hwake r)⟩

theorem State.Prompt.enterLoop (hpc : s.pc p = .idle) : (s.enterLoop p m cycle).1.Prompt := by
  unfold State.enterLoop
  split
  · next hlocked =>
    split
    · exact h
    · refine State.Prompt.setPc (s := s.setWaiters _ _) h (fun k => ?_) fun k hk => ?_
      · show ¬ (s.pc p).Returns k
        rw [hpc]
        exact Pc.idle_returns
      · cases hk
        exact hlocked
  · refine h.move (p := p) (update_eq_self p s.pc).symm (fun k hk => ?_) (fun k hk => ?_)
      fun k hk => ?_
    · have hkm : k ≠ m := fun he => by simp [State.take, he] at hk
      simpa [State.take, hkm] using hk
    · rw [hpc] at hk
      cases hk
    · rw [hpc] at hk
      exact absurd hk Pc.idle_returns

theorem State.Prompt.resume (hpc : s.pc p = .woken ch wait)
    (hpass : s.Passes (.resume p cycle)) : (s.resume p ch wait cycle).1.Prompt := by
  have hret {k : MonId} (hk : (s.pc p).Returns k) : k = ch.mon := by
    obtain ⟨ch', w, he, rfl⟩ := hk
    rw [hpc] at he
    cases he
    rfl
  have hmove {s' : State} {c : Pc} (hs' : s'.pc = update s.pc p c)
      (hsub : ∀ k, s'.locked k = false → s.locked k = false)
      (hc : ∀ k, c.chan = some (.entry k) → s'.locked k = true) (hm : s'.locked ch.mon = true) :
      s'.Prompt :=
    h.move hs' hsub hc fun k hk hfree => by simp [hret hk, hm] at hfree
  have hslept (w : Bool) (hm : s.locked ch.mon = true) : State.Prompt
      (State.sleep ((s.setWaiters ch (s.waiters ch - 1)).setPc p .idle) p (.entry ch.mon) w) := by
    refine hmove (c := .asleep (.entry ch.mon) w) (update_idem ..) (fun _ => id) (fun k hk => ?_) hm
    cases hk
    exact hm
  have htook : State.Prompt
      (State.take ((s.setWaiters ch (s.waiters ch - 1)).setPc p .idle) p ch.mon) := by
    refine hmove (c := .idle) rfl (fun k hk => ?_) nofun (update_self ..)
    have hkm : k ≠ ch.mon := fun he => by simp [State.take, he] at hk
    simpa [State.take, State.setPc, State.setWaiters, hkm] using hk
  unfold State.resume State.enterLoop
  dsimp only
  split_ifs with hwait hlocked hstop hkilled hlocked
  · exact hmove (c := .idle) rfl (fun _ => id) nofun hlocked
  · exact hslept false hlocked
  · exact htook
  · refine h.move (c := .idle) rfl (fun _ => id) nofun fun k hk hfree hsleep => ?_
    rw [hret hk] at hfree hsleep ⊢
    exact hpass ch (by simpa [hwait] using hpc) hkilled hfree hsleep
  · exact hslept true hlocked
  · exact htook

theorem State.Prompt.call (hinv : Inv s) (hpc : s.pc p = .idle) (c : Call) :
    (s.call p cycle c).1.Prompt := by
  cases c with
  | create =>
    show s.monCreate.1.Prompt
    unfold State.monCreate
    split
    · exact h
    · next m hm =>
      have halloc : s.allocated m = false := by simpa using List.find?_some hm
      have hlocked : update s.locked m false = s.locked := by
        rw [← hinv.free_of_unallocated halloc, update_eq_self]
      rw [hlocked]
      exact h
  | free mid =>
    refine onMon_ind h fun m => ?_
    unfold State.monFree
    split <;> exact h
  | enter mid =>
    refine onMon_ind h fun m => ?_
    unfold State.monEnter
    split
    · exact h
    · exact h.enterLoop hpc
  | exit mid =>
    refine onMon_ind h fun m => ?_
    unfold State.monExit
    split
    · exact h
    · exact h.leave
  | condCreate mid =>
    refine onMon_ind h fun m => ?_
    unfold State.condCreate
    split
    · exact h
    · split <;> exact h
  | condFree mid cid =>
    refine onCond_ind h fun m c => ?_
    unfold State.condFree
    split <;> exact h
  | wait mid cid =>
    refine onCond_ind h fun m c => ?_
    unfold State.condWait
    split
    · exact h
    · refine State.Prompt.setPc (s := (s.leave p m).setWaiters _ _) h.leave (fun k hk => ?_) nofun
      obtain ⟨f, hf, hwake⟩ := leave_eq s p m
      have hidle : (s.leave p m).pc p = .idle := by
        rw [hf]
        obtain hq | hq := hwake p <;> simp [hq, hpc, Pc.wake]
      exact Pc.idle_returns (hidle ▸ hk)
  | signal mid cid | broadcast mid cid =>
    refine onCond_ind h fun m c => ?_
    simp only [State.condSignal, State.condBroadcast]
    split
    · exact h
    · split
      · first | exact h.wakeupOneProc | exact h.wakes wakeup_wakes
      · exact h

theorem State.Prompt.fire (hinv : Inv s) (hpass : s.Passes e) (hf : fire s e = some s') :
    s'.Prompt := by
  cases e with
  | call p c cycle =>
    obtain ⟨⟨-, hpc⟩, rfl⟩ := of_guarded hf
    exact h.call hinv hpc c
  | resume p cycle =>
    simp only [Mon.fire] at hf
    split at hf
    · next hpc =>
      cases hf
      exact h.resume hpc hpass
    · cases hf
  | kill p =>
    obtain ⟨-, rfl⟩ := of_guarded hf
    refine h.wakes fun q => ?_
    by_cases hq : q = p
    · exact .inr (by simp [hq, State.setPc])
    · exact .inl (update_of_ne hq _ _)
  | exit p =>
    obtain ⟨⟨-, hpc⟩, rfl⟩ := of_guarded hf
    exact h.setPc (fun k hk => Pc.idle_returns (hpc ▸ hk)) fun k hk => by cases hk
  | exitStep p =>
    simp only [Mon.fire] at hf
    split at hf
    · next i hpc =>
      cases hf
      have hexit (k : MonId) : ¬ (s.pc p).Returns k := by
        rw [hpc]
        exact Pc.exiting_returns
      unfold State.exitStep
      split
      · next hi =>
        split
        · refine h.leave.setPc (fun k hk => ?_) fun k hk => by cases hk
          obtain ⟨f, hf, hwake⟩ := leave_eq s p ⟨i, hi⟩
          have hpc' : (s.leave p ⟨i, hi⟩).pc p = .exiting i := by
            rw [hf]
            obtain hq | hq := hwake p <;> simp [hq, hpc, Pc.wake]
          rw [hpc'] at hk
          exact Pc.exiting_returns hk
        · exact h.setPc hexit fun k hk => by cases hk
      · exact h.setPc hexit fun k hk => by cases hk
    · cases hf
  | fork p =>
    obtain ⟨-, rfl⟩ := of_guarded hf
    exact h

end

theorem not_prompt (hpass : ¬ s.Passes e) (hf : fire s e = some s') : ¬ s'.Prompt := by
  cases e with
  | resume p cycle =>
    simp only [State.Passes, Classical.not_forall, not_exists, not_and] at hpass
    obtain ⟨ch, hpc, hkilled, hfree, ⟨q, hq⟩, hnone⟩ := hpass
    have hs' : s' = (s.setWaiters ch (s.waiters ch - 1)).setPc p .idle := by
      simp only [fire, hpc, Option.some.injEq] at hf
      rw [← hf]
      simp [State.resume, State.setPc, State.setWaiters, hkilled]
    subst hs'
    have hqp : q ≠ p := fun he => by simp [he, hpc, Pc.chan] at hq
    intro h'
    obtain ⟨r, hr⟩ := h' ch.mon hfree ⟨q, by simpa [State.setPc, hqp, State.setWaiters] using hq⟩
    by_cases hrp : r = p
    · simp only [hrp, State.setPc, update_self] at hr
      exact Pc.idle_returns hr
    · simp only [State.setPc, update_of_ne hrp] at hr
      exact hnone r hrp hr
  | _ => exact absurd trivial hpass

def State.Waits (s : State) (m : MonId) (c : CondId) (q : ProcSlot) : Prop :=
  (s.pc q).chan = some (.cond m c) ∧ s.killed q = false

/-- A signal to processes of which one was not killed wakes such a process. -/
def State.Signals (s : State) : Event → Prop
  | .call p (.signal mid cid) _ => ∀ m c, checked MONITOR_MAX_NUM mid = some m →
      checked MONITOR_COND_MAX cid = some c → ¬ s.Denied p m c → (∃ q, s.Waits m c q) →
        ∃ q, s.Waits m c q ∧ ¬ (s.condSignal p m c).1.Waits m c q
  | _ => True

/-- The first of the processes that wait for a signal was not killed, or all were. -/
def State.FirstUnkilled (s : State) : Event → Prop
  | .call p (.signal mid cid) _ => ∀ m c, checked MONITOR_MAX_NUM mid = some m →
      checked MONITOR_COND_MAX cid = some c → ¬ s.Denied p m c → (∃ q, s.Waits m c q) →
        ∃ q, s.firstAsleep (.cond m c) = some q ∧ s.killed q = false
  | _ => True

theorem Inv.signals_iff (h : Inv s) : s.Signals e ↔ s.FirstUnkilled e := by
  unfold State.Signals State.FirstUnkilled
  split
  · next p mid cid cycle =>
    refine forall₅_congr fun m c _ _ hok => forall_congr' fun hwaits => ?_
    obtain ⟨q, hq, -⟩ := hwaits
    have hpos : 0 < s.waiters (.cond m c) := by
      obtain ⟨w, hw⟩ := Pc.asleep_of_chan hq
      exact h.counted (p := q) (by rw [hw, Pc.asleep_at])
    cases hfirst : s.firstAsleep (.cond m c) with
    | none => exact absurd hq (firstAsleep_none hfirst)
    | some r =>
      have hr := firstAsleep_chan hfirst
      simp only [State.condSignal, if_neg hok, if_pos hpos, wakeupOneProc_of_some hfirst]
      constructor
      · intro hwoken
        obtain ⟨q, hq, hq'⟩ := hwoken
        have hqr : q = r := by
          by_contra hne
          exact hq' (by simpa [State.Waits, State.setPc, hne] using hq)
        exact ⟨r, rfl, hqr ▸ hq.2⟩
      · intro hkilled
        obtain ⟨r', he, hr'⟩ := hkilled
        cases he
        exact ⟨r, ⟨hr, hr'⟩, by simp [State.Waits, State.setPc, Pc.wake_chan]⟩
  · exact Iff.rfl

/-- No wakeup is lost exactly if no killed process gives up with the last one or is the first
signalled. -/
theorem monitor_wakeups_iff (hs : Started s) :
    Always fire State.Prompt s es ∧ Along fire State.Signals s es ↔
      Along fire State.Passes s es ∧ Along fire State.FirstUnkilled s es := by
  refine and_congr ?_ ?_
  · refine always_iff_along (I := fun s => Inv s ∧ s.Prompt) (fun _ hI => hI.2) ?_ ?_ ⟨hs.inv, ?_⟩
    · exact fun _ _ _ hI hpass hf => ⟨hI.1.fire hf, hI.2.fire hI.1 hpass hf⟩
    · exact fun _ _ _ _ hpass hf => not_prompt hpass hf
    · intro m _ hsleep
      obtain ⟨p, hp⟩ := hsleep
      rw [hs.pc p] at hp
      cases hp
  · exact Along.congr (I := Inv) (fun _ _ _ h _ => h.signals_iff)
      (fun _ _ _ h hf => h.fire hf) hs.inv

theorem monitor_wakeups_signalRun : (runEvents fire (boot 2) signalRun).isSome = true ∧
    Always fire State.Prompt (boot 2) signalRun ∧ Along fire State.Signals (boot 2) signalRun := by
  have hkill : Along fire (fun s _ => ∀ p, s.killed p = false) (boot 2) signalRun := by
    decide +kernel
  refine ⟨by decide +kernel, (monitor_wakeups_iff (boot_started 2)).2 ⟨?_, ?_⟩⟩
  · refine hkill.steps (I := fun _ => True) (fun s e _ _ hk _ => ?_) (fun _ _ _ _ _ _ => trivial)
      trivial
    cases e with
    | resume p _ => exact fun _ _ hp => absurd (hk p) (by simp [hp])
    | _ => trivial
  · refine hkill.steps (I := fun _ => True) (fun s e _ _ hk _ => ?_) (fun _ _ _ _ _ _ => trivial)
      trivial
    unfold State.FirstUnkilled
    split
    · intro m c _ _ _ ⟨q, hq, _⟩
      cases hfirst : s.firstAsleep (.cond m c) with
      | none => exact absurd hq (firstAsleep_none hfirst)
      | some q' => exact ⟨q', rfl, hk q'⟩
    · trivial

/-- A process woken at the entry of a monitor is killed, and leaves another asleep there. -/
theorem entry_wakeup_lost : ∃ es s', runEvents fire (boot 3) es = some s' ∧ ¬ s'.Prompt := by
  obtain ⟨s', hs', hfree, hsleep, hall⟩ :
    ∃ s', runEvents fire (boot 3) [.call 0 .create false, .call 0 (.condCreate 0) false,
      .call 0 (.enter 0) false, .call 0 (.wait 0 0) false, .call 1 (.enter 0) false,
      .call 1 (.signal 0 0) false, .resume 0 false, .call 2 (.enter 0) false,
        .call 1 (.exit 0) false,
      .kill 0, .resume 0 false] = some s' ∧
      s'.locked 0 = false ∧
        (s'.pc 2).chan = some (.entry 0) ∧ ∀ q, (s'.pc q).wake = s'.pc q → s'.pc q = .idle :=
    exists_of_any (by decide +kernel)
  refine ⟨_, s', hs', fun hprompt => ?_⟩
  obtain ⟨q, ch, wait, hq, -⟩ := hprompt 0 hfree ⟨2, hsleep⟩
  have hidle := hall q (by rw [hq]; rfl)
  rw [hq] at hidle
  cases hidle

end OopsOS.Mon
