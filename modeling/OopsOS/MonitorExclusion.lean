import OopsOS.Monitors

namespace OopsOS.Mon
set_option autoImplicit true
open Function

def Pc.at : Pc → Option Chan
  | asleep ch _ | woken ch _ => some ch
  | _ => none

def Pc.on (ch : Chan) (c : Pc) : Nat := if c.at = some ch then 1 else 0

def State.Used (s : State) : Chan → Prop
  | .entry m => s.allocated m = true
  | .cond m c => s.allocated m = true ∧ s.condAllocated m c = true

structure Inv (s : State) : Prop where
  inside : ∀ p m, (p, m) ∈ s.inside ↔ s.locked m = true ∧ s.owner m = s.pid p ∧ s.pid p ≠ 0
  held : ∀ m, s.locked m = true → s.allocated m = true ∧ ∃ p, (p, m) ∈ s.inside
  free : ∀ m, s.locked m = false → s.owner m = 0
  pids : ∀ p q, s.pid p = s.pid q → s.pid p ≠ 0 → p = q
  fresh : ∀ p, s.pid p < s.nextpid
  live : ∀ p, s.pc p ≠ .idle → s.pid p ≠ 0
  used : ∀ p ch, (s.pc p).at = some ch → s.Used ch
  counts : ∀ ch, s.waiters ch = ∑ p, Pc.on ch (s.pc p)
  exiting : ∀ p i m, s.pc p = .exiting i → m.val < i → (p, m) ∉ s.inside

variable {s s' : State} {p q : ProcSlot} {m : MonId} {c : Pc} {ch : Chan} {i n : Nat}
  {wait cycle : Bool} {e : Event} {es : List Event} {k : CondId}

theorem Started.inv (h : Started s) : Inv s where
  inside p m := by simp [h.inside, h.locked]
  held m hm := by simp [h.locked] at hm
  free m _ := h.owner m
  pids := h.pids
  fresh := h.fresh
  live p hp := absurd (h.pc p) hp
  used p ch hp := by simp [h.pc, Pc.at] at hp
  counts ch := by simp [h.waiters, h.pc, Pc.on, Pc.at]
  exiting p i m hp := by simp [h.pc] at hp

@[simp] theorem Pc.idle_at : Pc.idle.at = none := rfl

@[simp] theorem Pc.asleep_at : (Pc.asleep ch wait).at = some ch := rfl

@[simp] theorem Pc.woken_at : (Pc.woken ch wait).at = some ch := rfl

theorem Pc.wake_at (c : Pc) : c.wake.at = c.at := by
  cases c <;> rfl

theorem Pc.wake_eq_exiting (c : Pc) : c.wake = .exiting i ↔ c = .exiting i := by
  cases c <;> simp [Pc.wake]

theorem Inv.wakes (h : Inv s) (hf : ∀ q, f q = s.pc q ∨ f q = (s.pc q).wake) :
    Inv { s with pc := f } := by
  have hat (q : ProcSlot) : (f q).at = (s.pc q).at := by
    obtain hq | hq := hf q <;> rw [hq]
    exact (s.pc q).wake_at
  refine { h with
    live := fun p hp => h.live p fun hidle => hp ?_
    used := fun p ch hp => h.used p ch (hat p ▸ hp)
    counts := fun ch => ?_
    exiting := fun p i m hp => h.exiting p i m ?_ }
  · obtain hq | hq := hf p <;> simp [hq, hidle, Pc.wake]
  · simp only [Pc.on, hat]
    exact h.counts ch
  · obtain hq | hq := hf p
    · exact hq ▸ hp
    · exact (Pc.wake_eq_exiting _).1 (hq ▸ hp)

theorem wakeupOneProc_eq (s : State) (ch : Chan) : ∃ f, s.wakeupOneProc ch = { s with pc := f } ∧
    ∀ q, f q = s.pc q ∨ f q = (s.pc q).wake := by
  unfold State.wakeupOneProc
  split
  · exact ⟨s.pc, rfl, fun q => .inl rfl⟩
  · next q hq =>
    refine ⟨_, rfl, fun r => ?_⟩
    by_cases hr : r = q
    · exact .inr (by simp [hr])
    · exact .inl (update_of_ne hr _ _)

theorem wakeup_wakes (q : ProcSlot) :
    (s.wakeup ch).pc q = s.pc q ∨ (s.wakeup ch).pc q = (s.pc q).wake := by
  unfold State.wakeup
  dsimp only
  split
  · exact .inr rfl
  · exact .inl rfl

theorem State.Used.mon (h : s.Used ch) : s.allocated ch.mon = true := by
  cases ch with
  | entry m => exact h
  | cond m c => exact h.1

theorem onMon_ind {P : State → Prop} (h : P s) (hf : ∀ m, P (f m).1) :
    P (s.onMon mid f).1 := by
  unfold State.onMon
  split
  · exact hf _
  · exact h

theorem onCond_ind {P : State → Prop} (h : P s)
    (hf : ∀ m c, P (f m c).1) : P (s.onCond mid cid f).1 := by
  refine onMon_ind h fun m => ?_
  split
  · exact hf m _
  · exact h

theorem leave_eq (s : State) (p : ProcSlot) (m : MonId) : ∃ f, s.leave p m =
    { s with
      locked := update s.locked m false
      owner := update s.owner m 0
      inside := s.inside.erase (p, m)
      pc := f } ∧ ∀ q, f q = s.pc q ∨ f q = (s.pc q).wake :=
  wakeupOneProc_eq _ _

/-- A locked monitor has its live owner in it alone, and calls of others fail without a change. -/
structure State.Excludes (s : State) : Prop where
  locked : ∀ m, s.locked m = true ↔ ∃ p, s.pid p ≠ 0 ∧ s.owner m = s.pid p ∧ (p, m) ∈ s.inside
  sole : ∀ m p q, (p, m) ∈ s.inside → (q, m) ∈ s.inside → p = q
  refused : ∀ m p, s.pid p ≠ 0 → (p, m) ∉ s.inside → s.monExit p m = (s, some (-1)) ∧
    ∀ c, s.condWait p m c = (s, some (-1)) ∧ s.condSignal p m c = (s, some (-1))

section
variable (h : Inv s)
include h

theorem Inv.wakeupOneProc : Inv (s.wakeupOneProc ch) := by
  obtain ⟨f, hf, hwake⟩ := wakeupOneProc_eq s ch
  rw [hf]
  exact h.wakes hwake

theorem Inv.wakeup : Inv (s.wakeup ch) := h.wakes wakeup_wakes

theorem Inv.move
    (hw : ∀ ch, w ch + Pc.on ch (s.pc p) = s.waiters ch + Pc.on ch c)
    (hlive : c ≠ .idle → s.pid p ≠ 0)
    (hused : ∀ ch, c.at = some ch → s.Used ch)
    (hexit : ∀ i m, c = .exiting i → m.val < i → (p, m) ∉ s.inside) :
    Inv { s with waiters := w, pc := update s.pc p c } where
  __ := h
  live := (forall_update_iff s.pc fun q c => c ≠ .idle → s.pid q ≠ 0).2
    ⟨hlive, fun q _ => h.live q⟩
  used := (forall_update_iff s.pc fun _ c => ∀ ch, c.at = some ch → s.Used ch).2
    ⟨hused, fun q _ => h.used q⟩
  counts ch := by
    have hsum := sum_apply_update_add (Pc.on ch) s.pc p c
    have hold := h.counts ch
    have hnew := hw ch
    show w ch = ∑ q, Pc.on ch (update s.pc p c q)
    omega
  exiting := (forall_update_iff s.pc
    fun q c => ∀ i m, c = .exiting i → m.val < i → (q, m) ∉ s.inside).2
      ⟨hexit, fun q _ => h.exiting q⟩

theorem Inv.counted (hp : (s.pc p).at = some ch) : 0 < s.waiters ch := by
  have hle := Finset.single_le_sum (f := fun q => Pc.on ch (s.pc q)) (fun _ _ => Nat.zero_le _)
    (Finset.mem_univ p)
  have hone : Pc.on ch (s.pc p) = 1 := if_pos hp
  rw [h.counts ch]
  omega

theorem Inv.setPc (hat : c.at = (s.pc p).at) (hlive : c ≠ .idle → s.pid p ≠ 0)
    (hexit : ∀ i m, c = .exiting i → m.val < i → (p, m) ∉ s.inside) : Inv (s.setPc p c) :=
  h.move (fun ch => by rw [Pc.on, Pc.on, hat]) hlive (fun ch hch => h.used p ch (hat ▸ hch)) hexit

theorem Inv.sleep (hp : s.pid p ≠ 0) (hpc : (s.pc p).at = none) (hused : s.Used ch) :
    Inv (s.sleep p ch wait) := by
  refine h.move (fun ch' => ?_) (fun _ => hp) (fun ch' hch => ?_) nofun
  · by_cases he : ch' = ch
    · simp [he, Pc.on, hpc, State.setWaiters]
    · simp [Ne.symm he, he, Pc.on, hpc, State.setWaiters]
  · cases hch
    exact hused

theorem Inv.back (hpc : s.pc p = .woken ch wait) :
    Inv ((s.setWaiters ch (s.waiters ch - 1)).setPc p .idle) := by
  have hpos : 0 < s.waiters ch := h.counted (p := p) (by rw [hpc, Pc.woken_at])
  refine h.move (fun ch' => ?_) (fun hne => absurd rfl hne) nofun nofun
  by_cases he : ch' = ch
  · subst he
    simp [State.setWaiters, Pc.on, hpc, Nat.sub_add_cancel hpos]
  · simp [State.setWaiters, Ne.symm he, he, Pc.on, hpc]

theorem Inv.take (hfree : s.locked m = false) (halloc : s.allocated m = true)
    (hp : s.pid p ≠ 0) (hpc : s.pc p = .idle) : Inv (s.take p m) := by
  have hnone (q : ProcSlot) : (q, m) ∉ s.inside := fun hq => by simp [(h.inside q m).1 hq] at hfree
  refine { h with
    inside := fun q k => ?_
    held := fun k hk => ?_
    free := fun k hk => ?_
    exiting := fun q i k hq hk => ?_ }
  · have := h.pids q p
    have := h.inside q k
    by_cases hkm : k = m
    · subst hkm
      simp [State.take, hnone]
      grind
    · simp [State.take, update_of_ne, hkm, this]
  · by_cases hkm : k = m
    · subst hkm
      exact ⟨halloc, p, Finset.mem_insert_self _ _⟩
    · obtain ⟨hk, q, hq⟩ := h.held k (by simpa [State.take, hkm] using hk)
      exact ⟨hk, q, Finset.mem_insert_of_mem hq⟩
  · have hkm : k ≠ m := fun he => by simp [State.take, he] at hk
    simpa [State.take, hkm] using h.free k (by simpa [State.take, hkm] using hk)
  · have hqp : q ≠ p := fun he => by simp [State.take, he, hpc] at hq
    simpa [State.take, hqp] using h.exiting q i k hq hk

theorem Inv.leave (hin : (p, m) ∈ s.inside) : Inv (s.leave p m) := by
  obtain ⟨hlocked, howner, hpid⟩ := (h.inside p m).1 hin
  refine Inv.wakeupOneProc { h with
    inside := fun q k => ?_
    held := fun k hk => ?_
    free := fun k hk => ?_
    exiting := fun q i k hq hk => fun hmem => h.exiting q i k hq hk (Finset.mem_of_mem_erase hmem) }
  · have := h.pids q p
    have := h.inside q k
    by_cases hkm : k = m
    · subst hkm
      simp
      grind
    · simp [hkm, this]
  · have hkm : k ≠ m := fun he => by simp [he] at hk
    obtain ⟨hk, q, hq⟩ := h.held k (by simpa [hkm] using hk)
    exact ⟨hk, q, Finset.mem_erase.2 ⟨fun he => hkm (Prod.mk.inj he).2, hq⟩⟩
  · by_cases hkm : k = m
    · simp [hkm]
    · simpa [hkm] using h.free k (by simpa [hkm] using hk)

theorem Inv.enterLoop (hp : s.pid p ≠ 0) (hpc : s.pc p = .idle) (halloc : s.allocated m = true) :
    Inv (s.enterLoop p m cycle).1 := by
  unfold State.enterLoop
  split
  · split
    · exact h
    · exact h.sleep hp (by rw [hpc]; rfl) halloc
  · next hfree => exact h.take (by simpa using hfree) halloc hp hpc

theorem Inv.resume (hpc : s.pc p = .woken ch wait) : Inv (s.resume p ch wait cycle).1 := by
  have hp : s.pid p ≠ 0 := h.live p (by rw [hpc]; nofun)
  have halloc : s.allocated ch.mon = true := (h.used p ch (by rw [hpc, Pc.woken_at])).mon
  have hback := h.back hpc
  have hidle : ((s.setWaiters ch (s.waiters ch - 1)).setPc p .idle).pc p = .idle :=
    update_self ..
  unfold State.resume
  dsimp only
  split
  · exact hback.enterLoop hp hidle halloc
  · split
    · exact hback
    · split
      · exact hback.sleep hp (by rw [hidle]; rfl) halloc
      · next hfree => exact hback.take (by simpa using hfree) halloc hp hidle

theorem Inv.mem_inside (hp : s.pid p ≠ 0) (howner : s.owner m = s.pid p) : (p, m) ∈ s.inside := by
  refine (h.inside p m).2 ⟨?_, howner, hp⟩
  by_contra hfree
  rw [h.free m (by simpa using hfree)] at howner
  exact hp howner.symm

theorem Inv.unused (hch : ¬ s.Used ch) : s.waiters ch = 0 := by
  rw [h.counts ch]
  refine Finset.sum_eq_zero fun p _ => if_neg fun hp => hch (h.used p ch hp)

theorem Inv.free_of_unallocated (halloc : s.allocated m = false) : s.locked m = false := by
  by_contra hlocked
  simp [(h.held m (by simpa using hlocked)).1] at halloc

theorem Inv.monCreate : Inv s.monCreate.1 := by
  unfold State.monCreate
  split
  · exact h
  · next m hm =>
    have halloc : s.allocated m = false := by simpa using List.find?_some hm
    have hfree := h.free_of_unallocated halloc
    have hlocked : update s.locked m false = s.locked := by
      rw [← hfree, update_eq_self]
    have howner : update s.owner m 0 = s.owner := by
      rw [← h.free m hfree, update_eq_self]
    have hwaiters : (fun ch : Chan => if ch.mon = m then 0 else s.waiters ch) = s.waiters := by
      funext ch
      split
      · next hch => exact (h.unused fun hused => by simp [← hch, hused.mon] at halloc).symm
      · rfl
    rw [hlocked, howner, hwaiters]
    refine { h with
      held := fun k hk => ?_
      used := fun p ch hp => ?_ }
    · have := h.held k hk
      by_cases hkm : k = m <;> simp_all
    · have hused := h.used p ch hp
      have hne : ch.mon ≠ m := fun he => by simp [← he, hused.mon] at halloc
      cases ch <;> simp_all [State.Used, Chan.mon]

theorem Inv.monFree : Inv (s.monFree m).1 := by
  unfold State.monFree
  split
  · exact h
  · next hidle =>
    simp only [not_or, not_exists, Nat.not_lt, Nat.le_zero] at hidle
    obtain ⟨halloc, hlocked, hentry, hconds⟩ := hidle
    refine { h with
      held := fun k hk => ?_
      used := fun p ch hp => ?_ }
    · have hkm : k ≠ m := fun he => hlocked (he ▸ hk)
      simpa [hkm] using h.held k hk
    · have hused := h.used p ch hp
      have hne := (h.counted hp).ne'
      cases ch with
      | entry k =>
        have hkm : k ≠ m := fun he => hne (he ▸ hentry)
        simpa [State.Used, hkm] using hused
      | cond k c =>
        have hkm : k ≠ m := fun he => hne (he ▸ (hconds c).2)
        simpa [State.Used, hkm] using hused

theorem Inv.condCreate : Inv (s.condCreate m).1 := by
  unfold State.condCreate
  split
  · exact h
  · split
    · exact h
    · next c hc =>
      have halloc : s.condAllocated m c = false := by simpa using List.find?_some hc
      have hwaiters : update s.waiters (.cond m c) 0 = s.waiters := by
        have hzero : s.waiters (.cond m c) = 0 := h.unused fun hused => by simp [hused.2] at halloc
        rw [← hzero, update_eq_self]
      rw [hwaiters]
      refine { h with used := fun p ch hp => ?_ }
      have hused := h.used p ch hp
      cases ch with
      | entry k => exact hused
      | cond k d =>
        refine ⟨hused.1, ?_⟩
        have := hused.2
        by_cases hkm : k = m <;> by_cases hdc : d = c <;> simp_all

theorem Inv.condFree : Inv (s.condFree m k).1 := by
  unfold State.condFree
  split
  · exact h
  · next hidle =>
    simp only [not_or, Nat.not_lt, Nat.le_zero] at hidle
    refine { h with used := fun p ch hp => ?_ }
    have hused := h.used p ch hp
    have hpos := h.counted hp
    cases ch with
    | entry n => exact hused
    | cond n d =>
      refine ⟨hused.1, ?_⟩
      have := hused.2
      by_cases hn : n = m <;> by_cases hd : d = k <;> simp_all

theorem Inv.condWait (hp : s.pid p ≠ 0) (hpc : s.pc p = .idle) : Inv (s.condWait p m k).1 := by
  unfold State.condWait
  split
  · exact h
  · next hok =>
    simp only [State.Denied, not_or, not_not, Bool.not_eq_false] at hok
    obtain ⟨halloc, hcond, howner⟩ := hok
    have hleave := h.leave (h.mem_inside hp howner)
    obtain ⟨f, hf, hwake⟩ := leave_eq s p m
    rw [hf] at hleave ⊢
    refine hleave.sleep hp ?_ ⟨halloc, hcond⟩
    obtain hq | hq := hwake p <;> simp [hq, hpc, Pc.wake]

theorem Inv.call (hp : s.pid p ≠ 0) (hpc : s.pc p = .idle) (c : Call) :
    Inv (s.call p cycle c).1 := by
  cases c with
  | create => exact h.monCreate
  | free mid => exact onMon_ind h fun m => h.monFree
  | enter mid =>
    refine onMon_ind h fun m => ?_
    unfold State.monEnter
    split
    · exact h
    · next hok => exact h.enterLoop hp hpc (by simpa using (not_or.1 hok).1)
  | exit mid =>
    refine onMon_ind h fun m => ?_
    unfold State.monExit
    split
    · exact h
    · next hok => exact h.leave (h.mem_inside hp (by simpa using (not_or.1 hok).2))
  | condCreate mid => exact onMon_ind h fun m => h.condCreate
  | condFree mid cid => exact onCond_ind h fun m c => h.condFree
  | wait mid cid => exact onCond_ind h fun m c => h.condWait hp hpc
  | signal mid cid | broadcast mid cid =>
    refine onCond_ind h fun m c => ?_
    simp only [State.condSignal, State.condBroadcast]
    split
    · exact h
    · split
      · first | exact h.wakeupOneProc | exact h.wakeup
      · exact h

theorem Inv.setPid (hidle : s.pc p = .idle) (hout : ∀ m, (p, m) ∉ s.inside)
    (hn : n = 0 ∨ n = s.nextpid) (hnext : n < i ∧ s.nextpid ≤ i) :
    Inv { s with
      pid := update s.pid p n
      nextpid := i
      killed := killed } := by
  refine { h with
    inside := fun q m => ?_
    pids := fun q r hqr hq => ?_
    fresh := (forall_update_iff s.pid fun _ n => n < i).2
      ⟨hnext.1, fun q _ => (h.fresh q).trans_le hnext.2⟩
    live := (forall_update_iff s.pid fun q n => s.pc q ≠ .idle → n ≠ 0).2
      ⟨absurd hidle, fun q _ => h.live q⟩ }
  · by_cases hq : q = p
    · subst hq
      have hfresh (hlocked : s.locked m = true) : s.owner m ≠ s.nextpid := by
        obtain ⟨-, r, hr⟩ := h.held m hlocked
        rw [((h.inside r m).1 hr).2.1]
        exact (h.fresh r).ne
      simp only [hout, update_self, false_iff]
      rintro ⟨hlocked, howner, hpos⟩
      exact hfresh hlocked (howner.trans (hn.resolve_left hpos))
    · simpa [hq] using h.inside q m
  · have := h.pids q r
    have := h.fresh q
    have := h.fresh r
    by_cases hqp : q = p <;> by_cases hrp : r = p <;> simp_all

theorem Inv.exitStep (hpc : s.pc p = .exiting i) : Inv (s.exitStep p i) := by
  have hp : s.pid p ≠ 0 := h.live p (by rw [hpc]; nofun)
  have hgone := h.exiting p i
  unfold State.exitStep
  split
  · next hi =>
    split
    · next hown =>
      have hleave := h.leave (h.mem_inside hp hown.2.2)
      obtain ⟨f, hf, hwake⟩ := leave_eq s p ⟨i, hi⟩
      have hfp : f p = .exiting i := by
        obtain hq | hq := hwake p <;> simp [hq, hpc, Pc.wake]
      rw [hf] at hleave ⊢
      refine hleave.setPc (by simp [hfp, Pc.at]) (fun _ => hp) fun j m hj hm hin => ?_
      cases hj
      obtain ⟨hne, hin⟩ := Finset.mem_erase.1 hin
      refine hgone m hpc (Nat.lt_of_le_of_ne (Nat.le_of_lt_succ hm) fun he => hne ?_) hin
      simp [← he]
    · next hown =>
      refine h.setPc (by rw [hpc]; rfl) (fun _ => hp) fun j m hj hm hin => ?_
      cases hj
      obtain ⟨hlocked, howner, -⟩ := (h.inside p m).1 hin
      refine hgone m hpc (Nat.lt_of_le_of_ne (Nat.le_of_lt_succ hm) fun he => hown ?_) hin
      subst he
      exact ⟨(h.held m hlocked).1, hlocked, howner⟩
  · next hi =>
    have hout (m : MonId) : (p, m) ∉ s.inside := hgone m hpc (by omega)
    have hset := h.setPc (p := p) (c := .idle) (by rw [hpc]; rfl) (absurd rfl ·) nofun
    exact hset.setPid (update_self ..) hout (.inl rfl)
      ⟨(Nat.zero_le _).trans_lt (h.fresh p), le_rfl⟩

theorem Inv.fork (hp : s.pid p = 0) : Inv { s with
    pid := update s.pid p s.nextpid
    nextpid := s.nextpid + 1
    killed := update s.killed p false } := by
  have hidle : s.pc p = .idle := by
    by_contra hne
    exact h.live p hne hp
  exact h.setPid hidle (fun m hin => ((h.inside p m).1 hin).2.2 hp) (.inr rfl)
    ⟨Nat.lt_succ_self _, Nat.le_succ _⟩

theorem Inv.fire (hf : fire s e = some s') : Inv s' := by
  cases e with
  | call p c cycle =>
    obtain ⟨⟨hp, hpc⟩, rfl⟩ := of_guarded hf
    exact h.call hp hpc c
  | resume p cycle =>
    simp only [Mon.fire] at hf
    split at hf
    · next hpc =>
      cases hf
      exact h.resume hpc
    · cases hf
  | kill p =>
    obtain ⟨hp, rfl⟩ := of_guarded hf
    refine Inv.setPc (s := { s with killed := update s.killed p true }) { h with } (Pc.wake_at _)
      (fun _ => hp) fun i m hi hm => h.exiting p i m ((Pc.wake_eq_exiting _).1 hi) hm
  | exit p =>
    obtain ⟨⟨hp, hpc⟩, rfl⟩ := of_guarded hf
    refine h.setPc (by rw [hpc]; rfl) (fun _ => hp) fun i m hi hm => ?_
    cases hi
    cases hm
  | exitStep p =>
    simp only [Mon.fire] at hf
    split at hf
    · next hpc =>
      cases hf
      exact h.exitStep hpc
    · cases hf
  | fork p =>
    obtain ⟨hp, rfl⟩ := of_guarded hf
    exact h.fork hp

theorem Inv.excludes : s.Excludes where
  locked m := by
    constructor
    · intro hlocked
      obtain ⟨-, p, hin⟩ := h.held m hlocked
      obtain ⟨-, howner, hp⟩ := (h.inside p m).1 hin
      exact ⟨p, hp, howner, hin⟩
    · intro hin
      obtain ⟨p, -, -, hin⟩ := hin
      exact ((h.inside p m).1 hin).1
  sole m p q hp hq := by
    obtain ⟨-, hp, hlive⟩ := (h.inside p m).1 hp
    obtain ⟨-, hq, -⟩ := (h.inside q m).1 hq
    exact h.pids p q (hp.symm.trans hq) hlive
  refused m p hp hin := by
    have howner : s.owner m ≠ s.pid p := fun he => hin (h.mem_inside hp he)
    refine ⟨if_pos (.inr howner), fun c => ⟨if_pos ?_, if_pos ?_⟩⟩ <;> exact .inr (.inr howner)

end

theorem monitors_exclude (hs : Started s) : Always fire State.Excludes s es :=
  (Along.of_forall (P := fun _ _ => True) (fun _ _ => trivial) s es).always
    (fun _ h => h.excludes) (fun _ _ _ h _ hf => h.fire hf) hs.inv

def boot (n : Nat) : State where
  allocated _ := false
  locked _ := false
  owner _ := 0
  condAllocated _ _ := false
  waiters _ := 0
  pid p := if p < n then p + 1 else 0
  nextpid := NPROC + 1
  killed _ := false
  pc _ := .idle
  inside := ∅

theorem boot_started (n : Nat) : Started (boot n) where
  allocated _ := rfl
  locked _ := rfl
  owner _ := rfl
  waiters _ := rfl
  pids p q h hp := by
    simp only [boot] at h hp
    refine Fin.ext ?_
    split_ifs at h hp <;> omega
  fresh p := by
    simp only [boot]
    split <;> omega
  pc _ := rfl
  inside := rfl

theorem monitors_exclude_boot : Started (boot 2) ∧
    Always fire State.Excludes (boot 2) [.call 0 .create false, .call 0 (.enter 0) false] :=
  ⟨boot_started 2, monitors_exclude (boot_started 2)⟩

/-- A process waits for a condition, and the next one in the monitor signals and leaves. -/
def signalRun : List Event :=
  [.call 0 .create false, .call 0 (.condCreate 0) false, .call 0 (.enter 0) false,
    .call 0 (.wait 0 0) false, .call 1 (.enter 0) false, .call 1 (.signal 0 0) false,
    .call 1 (.exit 0) false, .resume 0 false]

/-- The waiters are those that have not returned from a sleep, and what they wait for exists. -/
structure State.Counts (s : State) : Prop where
  count : ∀ ch, s.waiters ch = (Finset.univ.filter fun p => (s.pc p).at = some ch).card
  used : ∀ p ch, (s.pc p).at = some ch → s.Used ch

theorem monitors_count (hs : Started s) : Always fire State.Counts s es := by
  refine (Along.of_forall (P := fun _ _ => True) (fun _ _ => trivial) s es).always
    (fun s h => ⟨fun ch => ?_, h.used⟩) (fun _ _ _ h _ hf => h.fire hf) hs.inv
  rw [h.counts, Finset.card_filter]
  rfl

theorem monitors_count_signalRun : (runEvents fire (boot 2) signalRun).isSome = true ∧
    Always fire State.Counts (boot 2) signalRun :=
  ⟨by decide +kernel, monitors_count (boot_started 2)⟩

end OopsOS.Mon
