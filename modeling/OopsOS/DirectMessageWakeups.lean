import OopsOS.DirectMessages
import OopsOS.Mailboxes

namespace OopsOS.Dmsg
set_option autoImplicit true
open Function

def Pc.proc : Pc → Option ProcSlot
  | look q _ | looking q _ | found q | enter q _ | body q _ | park q _ | wake q _ _ | waking q _ _
  | unlock q | resume q _ => some q
  | idle | visit _ | visiting _ => none

/-- The process is in `dmsgsend` and has not put in its message. -/
def Pc.sends : Pc → Option ProcSlot
  | look q _ | looking q _ | found q | enter q .send | body q .send | park q .send
  | resume q .send => some q
  | _ => none

/-- The message was put in or taken out, and `wakeupOneProc` has not ended. -/
def Pc.owes : Pc → Option Side
  | wake _ .send _ | waking _ .send _ => some .put
  | wake _ .rcv _ | waking _ .rcv _ => some .take
  | _ => none

def Status.Awake : Status → Prop
  | inside | ready _ => True
  | away | asleep _ => False

def State.Unserved (s : State) : Prop :=
  (s.status s.target = .asleep .rcv ∧ 0 < s.count) ∨
  ((∃ q, s.status q = .asleep .send) ∧ s.count < DMSG_QUEUE_MAX)

/-- All processes in the calls sleep although one of them could go on. -/
def State.Stuck (s : State) : Prop := (∀ q, ¬ (s.status q).Awake) ∧ s.Unserved

def State.Sends (s : State) (q : ProcSlot) : Prop :=
  s.status q = .ready .send ∨ ∃ a, (s.pc a).sends = some q

def State.mailbox (s : State) : Mailbox ProcSlot where
  count := s.count
  awake := {q | s.Sends q}
  asleep := {q | s.status q = .asleep .send}
  waiting := s.status s.target = .asleep .rcv
  owed := (s.holder .dmsg).bind fun a => (s.pc a).owes

/-- Who can be in a task: the target alone receives, and nobody closes. -/
def Task.Fits (target q : ProcSlot) : Task → Prop
  | send => True
  | rcv => q = target
  | close => False

def Pc.Fits (target : ProcSlot) : Pc → Prop
  | look _ n => n ≤ target.val
  | looking _ i => i ≤ target
  | enter q t | body q t | park q t | wake q t _ | waking q t _ | resume q t => t.Fits target q
  | _ => True

def Status.Fits (target q : ProcSlot) : Status → Prop
  | asleep t | ready t => t.Fits target q
  | _ => True

/-- The loop of `wakeupOneProc` has found nobody asleep so far. -/
def Pc.Swept (status : ProcSlot → Status) : Pc → Prop
  | wake _ _ n => ∀ j : ProcSlot, j.val < n → ∀ u, status j ≠ .asleep u
  | waking _ _ i => ∀ j < i, ∀ u, status j ≠ .asleep u
  | _ => True

def State.Running (s : State) : Prop :=
  ∀ a q, (s.pc a).proc = some q → s.status q = .inside ∧ ∀ b, (s.pc b).proc = some q → b = a

def State.Waits (s : State) : Task → Prop
  | .send => DMSG_QUEUE_MAX ≤ s.count
  | .rcv => s.count = 0
  | .close => False

def State.Parked (s : State) : Prop := ∀ a q t, s.pc a = .park q t → s.Waits t

structure State.Tidy (s : State) : Prop where
  running : s.Running
  opened : s.closed = false
  places : ∀ a, (s.pc a).Fits s.target
  tasks : ∀ q, (s.status q).Fits s.target q
  swept : ∀ a, (s.pc a).Swept s.status

structure State.Inv (s : State) : Prop extends s.Tidy where
  locking : s.Locking
  parked : s.Parked

/-- The steps of a CPU that change neither the queue nor the state of a process. -/
inductive Moves (s : State) : Pc → Pc → Prop
  | comes : Moves s .idle (.visit i)
  | visit : Moves s (.visit i) (.visiting i)
  | visited : Moves s (.visiting i) .idle
  | look (h : n < NPROC) : Moves s (.look q n) (.looking q ⟨n, h⟩)
  | other (h : i ≠ s.target) : Moves s (.looking q i) (.look q (i.val + 1))
  | found : Moves s (.looking q s.target) (.found q)
  | release : Moves s (.found q) (.body q .send)
  | enter : Moves s (.enter q t) (.body q t)
  | park : Moves s (.body q t) (.park q t)
  | refuse : Moves s (.body q .rcv) (.unlock q)
  | turn (h : n < NPROC) : Moves s (.wake q t n) (.waking q t ⟨n, h⟩)
  | next (h : ∀ u, s.status i ≠ .asleep u) : Moves s (.waking q t i) (.wake q t (i.val + 1))
  | resume : Moves s (.resume q t) (.enter q t)

/-- What a CPU does when nobody closes the queue. -/
inductive Deed (s : State) (a : Nat) (ok : Bool) : State → Prop
  | moves {h : Lock → Option Nat} (hm : Moves s (s.pc a) c) :
    Deed s a ok { s with holder := h, pc := update s.pc a c }
  | parks {h : Lock → Option Nat} (hc : s.pc a = .park q t) :
    Deed s a ok { s with status := update s.status q (.asleep t), holder := h,
                         pc := update s.pc a (.visiting q) }
  | puts (hc : s.pc a = .body q .send) :
    Deed s a ok { s with count := s.count + 1, pc := update s.pc a (.wake q .send 0) }
  | fails (hc : s.pc a = .body q .send) (hroom : s.count < DMSG_QUEUE_MAX) (hok : ok = false) :
    Deed s a ok { s with pc := update s.pc a (.unlock q) }
  | takes (hc : s.pc a = .body q .rcv) (hpos : 0 < s.count) :
    Deed s a ok { s with count := s.count - 1, pc := update s.pc a (.wake q .rcv 0) }
  | wakes {h : Lock → Option Nat} (hc : s.pc a = .waking q t i) (hi : s.status i = .asleep u) :
    Deed s a ok { s with status := update s.status i (.ready u), holder := h,
                         pc := update s.pc a (.unlock q) }
  | misses (hc : s.pc a = .wake q t n) (hn : NPROC ≤ n) :
    Deed s a ok { s with pc := update s.pc a (.unlock q) }
  | leaves {h : Lock → Option Nat} (hc : s.pc a = .unlock q) :
    Deed s a ok { s with status := update s.status q .away, holder := h,
                         pc := update s.pc a .idle }

variable {s s' : State} {a b n : Nat} {x : Lock} {c c' : Pc} {q r i : ProcSlot} {t u : Task}
  {ok : Bool} {e : Event} {es : List Event} {st : Status}

theorem Deed.of_moves {h : Lock → Option Nat} (hc : s.pc a = c) (hm : Moves s c c') :
    Deed s a ok { s with holder := h, pc := update s.pc a c' } := .moves (hc ▸ hm)

theorem acquire_deed (hs' : s.acquire a x c' = some s') (hc : s.pc a = c) (hm : Moves s c c') :
    Deed s a ok s' := by
  obtain ⟨-, rfl⟩ := of_guarded hs'
  exact .of_moves hc hm

theorem work_deed (hopen : s.closed = false) (hc : s.pc a = .body q t) (hfit : t.Fits s.target q)
    (hsleep : ¬ s.Sleeps t) : Deed s a ok (s.work a q ok t) := by
  unfold State.work
  cases t with
  | send =>
    have hroom : s.count < DMSG_QUEUE_MAX := Nat.lt_of_not_le fun hle => hsleep ⟨hopen, hle⟩
    dsimp only
    split
    · exact .puts hc
    · next hok => exact .fails hc hroom (by simpa [hopen] using hok)
  | rcv =>
    dsimp only
    split
    · next hpos => exact .takes hc hpos.1
    · exact .of_moves hc .refuse
  | close => exact hfit.elim

theorem step_deed (hfit : (s.pc a).Fits s.target) (hopen : s.closed = false)
    (hs' : s.step a ok = some s') : Deed s a ok s' := by
  unfold State.step at hs'
  split at hs'
  · cases hs'
  · next hc => exact acquire_deed hs' hc .visit
  · next hc =>
    cases hs'
    exact .of_moves hc .visited
  · next n hc =>
    rw [hc] at hfit
    have hn : n < NPROC := Nat.lt_of_le_of_lt hfit s.target.isLt
    rw [dif_pos hn] at hs'
    exact acquire_deed hs' hc (.look hn)
  · next hc =>
    split at hs'
    · next hi => exact acquire_deed hs' hc (hi ▸ .found)
    · next hi =>
      cases hs'
      exact .of_moves hc (.other hi)
  · next hc =>
    cases hs'
    exact .of_moves hc .release
  · next hc => exact acquire_deed hs' hc .enter
  · next hc =>
    split at hs'
    · exact acquire_deed hs' hc .park
    · next hsleep =>
      cases hs'
      rw [hc] at hfit
      exact work_deed hopen hc hfit hsleep
  · next hc =>
    cases hs'
    exact .parks hc
  · next hc =>
    split at hs'
    · next hn => exact acquire_deed hs' hc (.turn hn)
    · next hn =>
      cases hs'
      exact .misses hc (Nat.le_of_not_lt hn)
  · next q t i hc =>
    cases hs'
    rw [hc] at hfit
    have ht : t ≠ .close := by
      rintro rfl
      exact hfit
    unfold State.visitSleeper
    split
    · next hi =>
      rw [if_neg ht]
      exact .wakes hc hi
    · next hi => exact .of_moves hc (.next fun u hu => hi u hu)
  · next hc =>
    cases hs'
    exact .leaves hc
  · next hc =>
    cases hs'
    exact .of_moves hc .resume

theorem Moves.proc (h : Moves s c c') : c'.proc = c.proc := by cases h <;> rfl

theorem Moves.sends (h : Moves s c c') : c'.sends = c.sends := by
  cases h with
  | @enter _ t | @park _ t | @resume _ t => cases t <;> rfl
  | _ => rfl

theorem Moves.owes (h : Moves s c c') : c'.owes = c.owes := by
  cases h with
  | @turn _ _ t | @next _ _ t => cases t <;> rfl
  | _ => rfl

theorem Moves.fits (h : Moves s c c') (hc : c.Fits s.target) : c'.Fits s.target := by
  cases h with
  | look => exact hc
  | other hi => exact Nat.lt_of_le_of_ne hc fun he => hi (Fin.ext he)
  | enter | park | turn | next | resume => exact hc
  | _ => trivial

theorem Moves.swept (h : Moves s c c') (hc : c.Swept s.status) : c'.Swept s.status := by
  cases h with
  | turn => exact hc
  | @next i _ _ hi =>
    intro j hj
    obtain hlt | rfl := Fin.lt_or_eq_of_le (Nat.le_of_lt_succ hj : j ≤ i)
    · exact hc j hlt
    · exact hi
  | _ => trivial

theorem Pc.proc_of_sends (h : c.sends = some q) : c.proc = some q := by
  unfold Pc.sends at h
  split at h <;> first | exact h | cases h

theorem Pc.held_of_owes (h : c.owes = some y) (target : ProcSlot) : .dmsg ∈ c.held target := by
  unfold Pc.owes at h
  split at h <;> first | exact List.mem_cons_self | cases h

theorem Pc.proc_of_held (h : .dmsg ∈ c.held i) : ∃ q, c.proc = some q := by
  cases c <;> simp_all [Pc.held, Pc.proc]

theorem State.Locking.owed_of_held (h : s.Locking) (ha : .dmsg ∈ (s.pc a).held s.target) :
    s.mailbox.owed = (s.pc a).owes := by
  simp [State.mailbox, (h a _).2 ha]

theorem State.Locking.owed_iff (h : s.Locking) :
    s.mailbox.owed = some y ↔ ∃ a, (s.pc a).owes = some y := by
  constructor
  · intro hy
    obtain ⟨a, -, ha⟩ := Option.bind_eq_some_iff.1 hy
    exact ⟨a, ha⟩
  · intro ⟨a, ha⟩
    rw [h.owed_of_held (Pc.held_of_owes ha _), ha]

theorem sends_update (hc : c.sends = (s.pc a).sends) :
    (∃ b, (update s.pc a c b).sends = some q) ↔ ∃ b, (s.pc b).sends = some q := by
  refine exists_congr fun b => ?_
  by_cases hb : b = a
  · rw [hb, update_self, hc]
  · rw [update_of_ne hb]

theorem State.Running.sends_remove (h : s.Running) (ha : (s.pc a).sends = some r)
    (hc : c.sends = none) :
    (∃ b, (update s.pc a c b).sends = some q) ↔ (∃ b, (s.pc b).sends = some q) ∧ q ≠ r := by
  constructor
  · intro ⟨b, hb⟩
    by_cases hba : b = a
    · rw [hba, update_self, hc] at hb
      cases hb
    · rw [update_of_ne hba] at hb
      refine ⟨⟨b, hb⟩, ?_⟩
      rintro rfl
      exact hba ((h a q (Pc.proc_of_sends ha)).2 b (Pc.proc_of_sends hb))
  · intro ⟨⟨b, hb⟩, hqr⟩
    refine ⟨b, ?_⟩
    rw [update_of_ne, hb]
    rintro rfl
    exact hqr (Option.some.inj (hb.symm.trans ha))

theorem sends_insert (ha : (s.pc a).sends = none) (hc : c.sends = some r) :
    (∃ b, (update s.pc a c b).sends = some q) ↔ q = r ∨ ∃ b, (s.pc b).sends = some q := by
  constructor
  · intro ⟨b, hb⟩
    by_cases hba : b = a
    · rw [hba, update_self, hc] at hb
      exact .inl (Option.some.inj hb).symm
    · rw [update_of_ne hba] at hb
      exact .inr ⟨b, hb⟩
  · rintro (rfl | ⟨b, hb⟩)
    · exact ⟨a, by rw [update_self, hc]⟩
    · refine ⟨b, ?_⟩
      rw [update_of_ne, hb]
      rintro rfl
      simp [ha] at hb

theorem mailbox_owed_update (h : s.Locking) (h' : s'.Locking) (hpc : s'.pc = update s.pc a c)
    (hc : c.owes = (s.pc a).owes) : s'.mailbox.owed = s.mailbox.owed := by
  refine Option.ext fun y => ?_
  rw [h.owed_iff, h'.owed_iff, hpc]
  refine exists_congr fun b => ?_
  by_cases hb : b = a
  · rw [hb, update_self, hc]
  · rw [update_of_ne hb]

theorem mailbox_eq {m : Mailbox ProcSlot} (hcount : s.count = m.count)
    (hawake : ∀ q, s.Sends q ↔ q ∈ m.awake)
    (hasleep : ∀ q, s.status q = .asleep .send ↔ q ∈ m.asleep)
    (hwait : s.status s.target = .asleep .rcv ↔ m.waiting) (howed : s.mailbox.owed = m.owed) :
    s.mailbox = m := by
  cases m
  simp only [State.mailbox, Mailbox.mk.injEq] at *
  exact ⟨hcount, Set.ext hawake, Set.ext hasleep, propext hwait, howed⟩

/-- Senders have memory, and the receiver does not go to sleep behind enough senders to fill the
queue. -/
def State.Supplied (s : State) : Event → Prop
  | .start _ _ t => t ≠ .close
  | .step a ok =>
    (∀ q, s.pc a = .body q .send → s.count < DMSG_QUEUE_MAX → ok = true) ∧
    ∀ q, s.pc a = .park q .rcv →
      (Finset.univ.filter fun r => r < s.target ∧ s.status r = .asleep .send).card < DMSG_QUEUE_MAX
  | .visit _ _ | .pick _ => True
  | .kill => False

theorem before_ncard (s : State) : (s.mailbox.before s.target).ncard =
    (Finset.univ.filter fun r => r < s.target ∧ s.status r = .asleep .send).card := by
  rw [← Set.ncard_coe_finset]
  congr
  ext r
  simp [Mailbox.before, State.mailbox, and_comm]

def Box (target : ProcSlot) (m m' : Mailbox ProcSlot) : Prop :=
  m' = m ∨ Mailbox.Step DMSG_QUEUE_MAX target m m'

theorem Box.of_step {m' : Mailbox ProcSlot} (hs : Mailbox.Step DMSG_QUEUE_MAX s.target s.mailbox m')
    (heq : s'.mailbox = m') : Box s.target s.mailbox s'.mailbox := heq ▸ .inr hs

attribute [local grind =] update_apply

section
variable (h : s.Inv)
include h

theorem State.Inv.inside (hq : (s.pc a).proc = some q) : s.status q = .inside :=
  (h.running a q hq).1

theorem State.Inv.owed (ha : .dmsg ∈ (s.pc a).held s.target) : s.mailbox.owed = (s.pc a).owes :=
  h.locking.owed_of_held ha

theorem State.Inv.owed_none (ha : .dmsg ∈ (s.pc a).held s.target) (hc : (s.pc a).owes = none) :
    s.mailbox.owed = none := (h.owed ha).trans hc

theorem State.Inv.box_parks {o : Lock → Option Nat} (hc : s.pc a = .park q t) (hlock' : s'.Locking)
    (hsup : s.Supplied (.step a ok)) (hs' : s' = { s with
      status := update s.status q (.asleep t)
      holder := o
      pc := update s.pc a (.visiting q) }) : Box s.target s.mailbox s'.mailbox := by
  have hq := h.inside (a := a) (q := q) (by rw [hc]; rfl)
  have howed := h.owed_none (a := a) (by simp [hc, Pc.held]) (by rw [hc]; rfl)
  have howed' : s'.mailbox.owed = s.mailbox.owed :=
    mailbox_owed_update h.locking hlock' (a := a) (c := .visiting q) (by rw [hs']) (by rw [hc]; rfl)
  have hwaits := h.parked a q t hc
  have hfit := h.places a
  rw [hc] at hfit
  cases t with
  | send =>
    have hsends : (s.pc a).sends = some q := by rw [hc]; rfl
    have hremove (r) := h.running.sends_remove (q := r) (c := .visiting q) hsends rfl
    refine .of_step (.park (.inr ⟨a, hsends⟩) hwaits howed)
      (mailbox_eq ?_ (fun r => ?_) (fun r => ?_) ?_ howed') <;>
      simp only [hs', State.Sends, hremove, State.mailbox] <;> grind
  | rcv =>
    obtain rfl : q = s.target := hfit
    have hsame (r) := sends_update (s := s) (a := a) (q := r) (c := .visiting s.target)
      (by rw [hc]; rfl)
    refine .of_step (.wait hwaits (before_ncard s ▸ hsup.2 _ hc) howed)
      (mailbox_eq ?_ (fun r => ?_) (fun r => ?_) ?_ howed') <;>
      simp only [hs', State.Sends, hsame, State.mailbox] <;> grind
  | close => exact hfit.elim

theorem State.Inv.box_puts (hc : s.pc a = .body q .send) (hlock' : s'.Locking)
    (hs' : s' = { s with count := s.count + 1, pc := update s.pc a (.wake q .send 0) }) :
    Box s.target s.mailbox s'.mailbox := by
  have howed := h.owed_none (a := a) (by simp [hc, Pc.held]) (by rw [hc]; rfl)
  have howed' : s'.mailbox.owed = some .put := by
    rw [hlock'.owed_of_held (a := a)] <;> simp [hs', Pc.held, Pc.owes]
  have hsends : (s.pc a).sends = some q := by rw [hc]; rfl
  have hremove (r) := h.running.sends_remove (q := r) (c := .wake q .send 0) hsends rfl
  have hq := h.inside (a := a) (q := q) (by rw [hc]; rfl)
  refine .of_step (.put (.inr ⟨a, hsends⟩) howed)
    (mailbox_eq ?_ (fun r => ?_) (fun r => ?_) ?_ howed') <;>
    simp only [hs', State.Sends, hremove, State.mailbox] <;> grind

theorem State.Inv.box_takes (hc : s.pc a = .body q .rcv) (hpos : 0 < s.count) (hlock' : s'.Locking)
    (hs' : s' = { s with count := s.count - 1, pc := update s.pc a (.wake q .rcv 0) }) :
    Box s.target s.mailbox s'.mailbox := by
  have howed := h.owed_none (a := a) (by simp [hc, Pc.held]) (by rw [hc]; rfl)
  have howed' : s'.mailbox.owed = some .take := by
    rw [hlock'.owed_of_held (a := a)] <;> simp [hs', Pc.held, Pc.owes]
  have hfit := h.places a
  rw [hc] at hfit
  obtain rfl : q = s.target := hfit
  have hq := h.inside (a := a) (q := s.target) (by rw [hc]; rfl)
  have hsame (r) := sends_update (s := s) (a := a) (q := r) (c := .wake s.target .rcv 0)
    (by rw [hc]; rfl)
  refine .of_step (.take hpos (by simp [State.mailbox, hq]) howed)
    (mailbox_eq ?_ (fun r => ?_) (fun r => ?_) ?_ howed') <;>
    simp only [hs', State.Sends, hsame, State.mailbox] <;> grind

theorem State.Inv.owed_ne (hc : s.pc a = .wake q t n ∨ s.pc a = .waking q t i) :
    s.mailbox.owed ≠ none := by
  have hfit := h.places a
  obtain hc | hc := hc
  all_goals
    rw [h.owed (a := a) (by simp [hc, Pc.held]), hc]
    rw [hc] at hfit
    cases t with
    | send | rcv => simp [Pc.owes]
    | close => exact hfit.elim

theorem State.Inv.box_wakes {o : Lock → Option Nat} (hc : s.pc a = .waking q t i)
    (hi : s.status i = .asleep u) (hlock' : s'.Locking) (hs' : s' = { s with
      status := update s.status i (.ready u)
      holder := o
      pc := update s.pc a (.unlock q) }) : Box s.target s.mailbox s'.mailbox := by
  have howed := h.owed_ne (a := a) (n := 0) (.inr hc)
  have howed' : s'.mailbox.owed = none := by
    rw [hlock'.owed_of_held (a := a)] <;> simp [hs', Pc.held, Pc.owes]
  have hsame (r) := sends_update (s := s) (a := a) (q := r) (c := .unlock q) (by rw [hc]; rfl)
  have hswept := h.swept a
  have hfit := h.tasks i
  rw [hc] at hswept
  rw [hi] at hfit
  cases u with
  | send =>
    have hnot : i ∉ s.mailbox.awake := by
      rintro (hready | ⟨b, hb⟩)
      · simp [hi] at hready
      · have hinside := h.inside (Pc.proc_of_sends hb)
        simp [hi] at hinside
    have hfirst (hwait : s.mailbox.waiting) : i < s.target := by
      have hne : i ≠ s.target := fun he => by simp [State.mailbox, ← he, hi] at hwait
      exact lt_of_le_of_ne (le_of_not_gt fun hlt => hswept _ hlt .rcv hwait) hne
    refine .of_step (.wake hi hnot hfirst howed)
      (mailbox_eq ?_ (fun r => ?_) (fun r => ?_) ?_ howed') <;>
      simp only [hs', State.Sends, hsame, State.mailbox] <;> grind
  | rcv =>
    obtain rfl : i = s.target := hfit
    refine .of_step (.rouse hi howed)
      (mailbox_eq ?_ (fun r => ?_) (fun r => ?_) ?_ howed') <;>
      simp only [hs', State.Sends, hsame, State.mailbox] <;> grind
  | close => exact hfit.elim

theorem State.Inv.box_misses (hc : s.pc a = .wake q t n) (hn : NPROC ≤ n) (hlock' : s'.Locking)
    (hs' : s' = { s with pc := update s.pc a (.unlock q) }) :
    Box s.target s.mailbox s'.mailbox := by
  have howed := h.owed_ne (a := a) (i := q) (.inl hc)
  have howed' : s'.mailbox.owed = none := by
    rw [hlock'.owed_of_held (a := a)] <;> simp [hs', Pc.held, Pc.owes]
  have hsame (r) := sends_update (s := s) (a := a) (q := r) (c := .unlock q) (by rw [hc]; rfl)
  have hswept := h.swept a
  rw [hc] at hswept
  have hnone (r u) : s.status r ≠ .asleep u := hswept r (r.isLt.trans_le hn) u
  refine .of_step (.miss (Set.eq_empty_of_forall_notMem fun r => hnone r .send) (hnone _ _) howed)
    (mailbox_eq ?_ (fun r => ?_) (fun r => ?_) ?_ howed') <;>
    simp only [hs', State.Sends, hsame, State.mailbox] <;> grind

theorem State.Inv.box_leaves {o : Lock → Option Nat} (hc : s.pc a = .unlock q) (hlock' : s'.Locking)
    (hs' : s' = { s with
      status := update s.status q .away, holder := o, pc := update s.pc a .idle }) :
    Box s.target s.mailbox s'.mailbox := by
  have hq := h.inside (a := a) (q := q) (by rw [hc]; rfl)
  have hsame (r) := sends_update (s := s) (a := a) (q := r) (c := .idle) (by rw [hc]; rfl)
  refine .inl (mailbox_eq ?_ (fun r => ?_) (fun r => ?_) ?_
    (mailbox_owed_update h.locking hlock' (a := a) (c := .idle) (by rw [hs'])
      (by rw [hc]; rfl))) <;>
    simp only [hs', State.Sends, hsame, State.mailbox] <;> grind

theorem State.Inv.deed_box (h' : s'.Locking) (hd : Deed s a ok s')
    (hsup : s.Supplied (.step a ok)) : Box s.target s.mailbox s'.mailbox := by
  cases hd with
  | moves hm =>
    refine .inl (mailbox_eq rfl (fun q => ?_) (fun q => Iff.rfl) Iff.rfl
      (mailbox_owed_update h.locking h' rfl hm.owes))
    exact or_congr Iff.rfl (sends_update hm.sends)
  | parks hc => exact h.box_parks hc h' hsup rfl
  | puts hc => exact h.box_puts hc h' rfl
  | fails hc hroom hok => exact absurd (hsup.1 _ hc hroom) (by simp [hok])
  | takes hc hpos => exact h.box_takes hc hpos h' rfl
  | wakes hc hi => exact h.box_wakes hc hi h' rfl
  | misses hc hn => exact h.box_misses hc hn h' rfl
  | leaves hc => exact h.box_leaves hc h' rfl

end

theorem State.Running.keep (h : s.Running) (hst : ∀ q, s.status q = .inside → s'.status q = .inside)
    (hpc : s'.pc = update s.pc a c) (hc : c.proc = (s.pc a).proc) : s'.Running := by
  intro b q hb
  have hproc (b) : (s'.pc b).proc = (s.pc b).proc := by
    rw [hpc, update_apply]
    grind
  simp only [hproc] at hb ⊢
  exact ⟨hst q (h b q hb).1, (h b q hb).2⟩

theorem State.Running.leave (h : s.Running) (hq : (s.pc a).proc = some q)
    (hst : ∀ r, r ≠ q → s'.status r = s.status r) (hpc : s'.pc = update s.pc a c)
    (hc : c.proc = none) :
    s'.Running := by
  have hother {b r} (hb : (s'.pc b).proc = some r) : b ≠ a ∧ (s.pc b).proc = some r := by
    rw [hpc, update_apply] at hb
    grind
  intro b r hb
  obtain ⟨hba, hpc⟩ := hother hb
  obtain ⟨hr, hone⟩ := h b r hpc
  refine ⟨?_, fun d hd => hone d (hother hd).2⟩
  rw [hst r, hr]
  rintro rfl
  exact hba (hone a hq).symm

theorem State.Running.come (h : s.Running) (hq : s.status q ≠ .inside)
    (hst : s'.status = update s.status q .inside) (hpc : s'.pc = update s.pc a c)
    (hc : c.proc = some q) :
    s'.Running := by
  have hat (b) : s'.pc b = if b = a then c else s.pc b := by rw [hpc, update_apply]
  have hnow (r) : s'.status r = if r = q then .inside else s.status r := by rw [hst, update_apply]
  intro b r hb
  by_cases hba : b = a
  · have hrq : r = q := by grind
    subst hrq
    refine ⟨by grind, fun d hd => ?_⟩
    by_contra hda
    exact hq (h d r (by grind)).1
  · obtain ⟨hr, hone⟩ := h b r (by grind)
    have hrq : r ≠ q := fun he => hq (he ▸ hr)
    refine ⟨by grind, fun d hd => ?_⟩
    by_cases hda : d = a
    · grind
    · exact hone d (by grind)

theorem Pc.Swept.mono {f g : ProcSlot → Status} (h : c.Swept f)
    (hg : ∀ j u, g j = .asleep u → f j = .asleep u) :
    c.Swept g := by
  cases c with
  | wake | waking => exact fun j hj u hu => h j hj u (hg j u hu)
  | _ => trivial

theorem Pc.swept_of_not_held {f : ProcSlot → Status} (h : .dmsg ∉ c.held i) : c.Swept f := by
  cases c with
  | wake | waking => exact absurd List.mem_cons_self h
  | _ => trivial

theorem State.Sleeps.waits (h : s.Sleeps t) : s.Waits t := by
  cases t with
  | send => exact h.2
  | rcv => exact h.1
  | close => exact h

theorem State.Parked.stepped (h : s.Parked) (hlock : s.Locking) (hs : Stepped s a s') :
    s'.Parked := by
  have hother {c : Pc} {b q t} (hc : ∀ q t, c ≠ .park q t) (hb : update s.pc a c b = .park q t) :
      b ≠ a ∧ s.pc b = .park q t := by
    by_cases hba : b = a
    · rw [hba, update_self] at hb
      exact absurd hb (hc q t)
    · rw [update_of_ne hba] at hb
      exact ⟨hba, hb⟩
  cases hs with
  | @acquired x c hwants hfree hc hpark =>
    intro b q t hb
    by_cases hba : b = a
    · exact (hpark q t (by simpa [hba, State.goto_pc] using hb)).waits
    · exact h b q t (by simpa [State.goto, hba] using hb)
  | released hx hc hpark => exact fun b q t hb => h b q t (hother hpark hb).2
  | moved hc hpark hqueue =>
    intro b q t hb
    obtain ⟨hba, hpc⟩ := hother hpark hb
    obtain ha | ⟨rfl, rfl⟩ := hqueue
    · have hb' := (hlock b .dmsg).2 (by rw [hpc]; exact List.mem_cons_self)
      exact absurd (Option.some.inj (hb'.symm.trans ((hlock a _).2 ha))) hba
    · exact h b q t hpc

theorem State.Inv.deed_tidy (h : s.Inv) (hd : Deed s a ok s') : s'.Tidy := by
  have hplaces {c : Pc} (hc : c.Fits s.target) : ∀ b, (update s.pc a c b).Fits s.target :=
    (forall_update_iff s.pc fun _ c => c.Fits s.target).2 ⟨hc, fun b _ => h.places b⟩
  have htasks {q : ProcSlot} {st : Status} (hst : st.Fits s.target q) :
      ∀ r, (update s.status q st r).Fits s.target r :=
    (forall_update_iff s.status fun r st => st.Fits s.target r).2 ⟨hst, fun r _ => h.tasks r⟩
  have hswept {c : Pc} {f : ProcSlot → Status} (hc : c.Swept f)
    (hf : ∀ j u, f j = .asleep u → s.status j = .asleep u) : ∀ b, (update s.pc a c b).Swept f :=
    (forall_update_iff s.pc fun _ c => c.Swept f).2 ⟨hc, fun b _ => (h.swept b).mono hf⟩
  have hfit := h.places a
  cases hd with
  | @moves c _ hm =>
    exact ⟨h.running.keep (fun _ hq => hq) rfl hm.proc, h.opened, hplaces (hm.fits hfit), h.tasks,
      hswept (hm.swept (h.swept a)) fun _ _ hu => hu⟩
  | @parks q t _ hc =>
    have hproc : (s.pc a).proc = some q := by rw [hc]; rfl
    have hheld : .dmsg ∈ (s.pc a).held s.target := by simp [hc, Pc.held]
    rw [hc] at hfit
    refine ⟨h.running.leave hproc (fun r hr => update_of_ne hr ..) rfl rfl, h.opened,
      hplaces trivial, htasks hfit, ?_⟩
    refine (forall_update_iff s.pc fun _ c => c.Swept _).2 ⟨trivial, fun b hb => ?_⟩
    refine Pc.swept_of_not_held (i := s.target) fun hmem => hb ?_
    exact Option.some.inj (((h.locking b _).2 hmem).symm.trans ((h.locking a _).2 hheld))
  | puts hc | takes hc =>
    rw [hc] at hfit
    exact ⟨h.running.keep (fun _ hq => hq) rfl (by rw [hc]; rfl), h.opened, hplaces hfit, h.tasks,
      hswept (fun j hj => absurd hj (Nat.not_lt_zero _)) fun _ _ hu => hu⟩
  | fails hc | misses hc =>
    exact ⟨h.running.keep (fun _ hq => hq) rfl (by rw [hc]; rfl), h.opened, hplaces trivial,
      h.tasks,
      hswept trivial fun _ _ hu => hu⟩
  | @wakes _ _ i _ _ hc hi =>
    have htask := h.tasks i
    rw [hi] at htask
    refine ⟨h.running.keep (fun r hr => ?_) rfl (by rw [hc]; rfl), h.opened, hplaces trivial,
      htasks htask, hswept trivial ?_⟩
    · grind
    · grind
  | leaves hc =>
    refine ⟨h.running.leave (by rw [hc]; rfl) (fun r hr => update_of_ne hr ..) rfl rfl, h.opened,
      hplaces trivial, htasks trivial, hswept trivial ?_⟩
    grind

theorem State.Inv.come_tidy (h : s.Inv) (hq : s.status q ≠ .inside) (hproc : c.proc = some q)
    (hfit : c.Fits s.target) (hswept : ∀ f, c.Swept f) :
    ((s.setStatus q .inside).goto a c).Tidy := by
  refine ⟨h.running.come hq rfl rfl hproc, h.opened, ?_, ?_, ?_⟩
  · exact (forall_update_iff s.pc fun _ c => c.Fits s.target).2 ⟨hfit, fun b _ => h.places b⟩
  · exact (forall_update_iff s.status fun r st => st.Fits s.target r).2
      ⟨trivial, fun r _ => h.tasks r⟩
  · refine (forall_update_iff s.pc fun _ c => c.Swept _).2
      ⟨hswept _, fun b _ => (h.swept b).mono ?_⟩
    simp only [State.setStatus, State.goto]
    grind

theorem State.Inv.start (h : s.Inv) (hc : s.pc a = .idle) (hq : s.status q = .away)
    (ht : t = .send ∨ q = s.target) (hclose : t ≠ .close) (hlock' : s'.Locking)
    (hs' : s' = (s.setStatus q .inside).goto a (if t = .send then .look q 0 else .enter q t)) :
    s'.Tidy ∧ Box s.target s.mailbox s'.mailbox := by
  have hout : s.status q ≠ .inside := by simp [hq]
  have howed {c : Pc} (hpc : s'.pc = update s.pc a c) (hown : c.owes = none) :=
    mailbox_owed_update h.locking hlock' hpc (by rw [hc, hown]; rfl)
  cases t with
  | send =>
    rw [if_pos rfl] at hs'
    refine ⟨hs' ▸ h.come_tidy hout rfl (Nat.zero_le _) (fun _ => trivial), ?_⟩
    have hinsert (r) := sends_insert (s := s) (a := a) (q := r) (c := .look q 0)
      (by rw [hc]; rfl) rfl
    refine .of_step (.start (q := q)) (mailbox_eq ?_ (fun r => ?_) (fun r => ?_) ?_
      (howed (c := .look q 0) (by rw [hs']; rfl) rfl)) <;>
      simp only [hs', State.goto, State.setStatus, State.Sends, hinsert, State.mailbox] <;> grind
  | rcv =>
    rw [if_neg (by simp)] at hs'
    refine ⟨hs' ▸ h.come_tidy hout rfl (ht.resolve_left (by simp)) (fun _ => trivial), ?_⟩
    have hsame (r) := sends_update (s := s) (a := a) (q := r) (c := .enter q .rcv) (by rw [hc]; rfl)
    refine .inl (mailbox_eq ?_ (fun r => ?_) (fun r => ?_) ?_
      (howed (c := .enter q .rcv) (by rw [hs']; rfl) rfl)) <;>
      simp only [hs', State.goto, State.setStatus, State.Sends, hsame, State.mailbox] <;> grind
  | close => exact absurd rfl hclose

theorem State.Inv.pick (h : s.Inv) (hc : s.pc a = .visiting i) (hi : s.status i = .ready t)
    (hlock' : s'.Locking) (hs' : s' = (s.setStatus i .inside).goto a (.resume i t)) :
    s'.Tidy ∧ Box s.target s.mailbox s'.mailbox := by
  have hfit := h.tasks i
  rw [hi] at hfit
  refine ⟨hs' ▸ h.come_tidy (by simp [hi]) rfl hfit (fun _ => trivial), ?_⟩
  have howed := mailbox_owed_update h.locking hlock' (a := a) (c := .resume i t) (by rw [hs']; rfl)
    (by rw [hc]; rfl)
  cases t with
  | send =>
    have hinsert (r) := sends_insert (s := s) (a := a) (q := r) (c := .resume i .send)
      (by rw [hc]; rfl) rfl
    refine .inl (mailbox_eq ?_ (fun r => ?_) (fun r => ?_) ?_ howed) <;>
      simp only [hs', State.goto, State.setStatus, State.Sends, hinsert, State.mailbox] <;> grind
  | rcv =>
    have hsame (r) := sends_update (s := s) (a := a) (q := r) (c := .resume i .rcv)
      (by rw [hc]; rfl)
    refine .inl (mailbox_eq ?_ (fun r => ?_) (fun r => ?_) ?_ howed) <;>
      simp only [hs', State.goto, State.setStatus, State.Sends, hsame, State.mailbox] <;> grind
  | close => exact hfit.elim

theorem State.Inv.fired (h : s.Inv) (hsup : s.Supplied e) (hf : fire s e = some s') :
    s'.Inv ∧ Box s.target s.mailbox s'.mailbox := by
  have hlock' := h.locking.fire hf
  have hparked : s'.Parked := by
    obtain ⟨a, hs⟩ | ⟨st, rfl⟩ := fire_stepped hf
    · exact h.parked.stepped h.locking hs
    · exact h.parked
  suffices htidy : s'.Tidy ∧ Box s.target s.mailbox s'.mailbox from
    ⟨⟨htidy.1, hlock', hparked⟩, htidy.2⟩
  cases e with
  | start a q t =>
    obtain ⟨⟨hc, hq, ht⟩, hs'⟩ := of_guarded hf
    exact h.start hc hq ht hsup hlock' hs'.symm
  | visit a i =>
    obtain ⟨hc, rfl⟩ := of_guarded hf
    have hd : Deed s a true (s.goto a (.visit i)) := .of_moves hc .comes
    exact ⟨h.deed_tidy hd, h.deed_box hlock' hd
      ⟨fun q hq => by simp [hc] at hq, fun q hq => by simp [hc] at hq⟩⟩
  | pick a =>
    simp only [fire] at hf
    split at hf
    · next hc =>
      split at hf
      · next hi => exact h.pick hc hi hlock' (Option.some.inj hf).symm
      · cases hf
    · cases hf
  | step a ok =>
    have hd := step_deed (h.places a) h.opened hf
    exact ⟨h.deed_tidy hd, h.deed_box hlock' hd hsup⟩
  | kill => exact hsup.elim

theorem fire_target (hf : fire s e = some s') : s'.target = s.target := by
  obtain ⟨a, hs⟩ | ⟨st, rfl⟩ := fire_stepped hf
  · cases hs <;> rfl
  · rfl

theorem State.Inv.not_stuck (h : s.Inv) (hserved : s.mailbox.Served DMSG_QUEUE_MAX s.target) :
    ¬ s.Stuck := by
  intro ⟨hnone, hunserved⟩
  have hidle (a) : (s.pc a).proc = none := by
    refine Option.eq_none_iff_forall_ne_some.2 fun q hq => hnone q ?_
    rw [h.inside hq]
    trivial
  refine hserved.not_stuck (Set.eq_empty_of_forall_notMem fun q hq => ?_) ?_ hunserved
  · obtain hready | ⟨a, ha⟩ := hq
    · exact hnone q (by rw [hready]; trivial)
    · simpa [hidle] using Pc.proc_of_sends ha
  · refine Option.eq_none_iff_forall_ne_some.2 fun y hy => ?_
    obtain ⟨a, ha⟩ := h.locking.owed_iff.1 hy
    obtain ⟨q, hq⟩ := Pc.proc_of_held (Pc.held_of_owes ha s.target)
    simp [hidle] at hq

/-- Nobody is in the calls. -/
structure Resting (s : State) : Prop where
  status : ∀ q, s.status q = .away
  holder : ∀ x, s.holder x = none
  pc : ∀ a, s.pc a = .idle
  opened : s.closed = false

theorem Resting.inv (h : Resting s) : s.Inv where
  running a q ha := by simp [h.pc, Pc.proc] at ha
  opened := h.opened
  places a := by rw [h.pc]; trivial
  tasks q := by rw [h.status]; trivial
  swept a := by rw [h.pc]; trivial
  locking a x := by simp [h.holder, h.pc, Pc.held]
  parked a q t ha := by simp [h.pc] at ha

theorem Resting.served (h : Resting s) : s.mailbox.Served DMSG_QUEUE_MAX s.target := by
  have hwait : ¬ s.mailbox.waiting := by simp [State.mailbox, h.status]
  refine ⟨fun ⟨q, hq⟩ => ?_, fun hw => absurd hw hwait, fun hw => absurd hw hwait, fun hw =>
    absurd hw hwait⟩
  have hq : s.status q = .asleep .send := hq
  simp [h.status] at hq

/-- The wakeups are enough in a run with memory whose receiver does not sleep behind too many
senders. -/
theorem dmsg_wakeups_suffice (h : Resting s) (hes : Along fire State.Supplied s es) :
    Always fire (fun s => ¬ s.Stuck) s es := by
  refine hes.always (I := fun s => s.Inv ∧ s.mailbox.Served DMSG_QUEUE_MAX s.target)
    (fun s hs => hs.1.not_stuck hs.2) (fun s e s' hs hsup hf => ?_) ⟨h.inv, h.served⟩
  obtain ⟨hinv, hbox⟩ := hs.1.fired hsup hf
  refine ⟨hinv, fire_target hf ▸ ?_⟩
  obtain heq | hstep := hbox
  · exact heq ▸ hs.2
  · exact hs.2.step hstep

instance (s : State) : (e : Event) → Decidable (s.Supplied e)
  | .start _ _ _ => inferInstanceAs (Decidable (_ ≠ _))
  | .step _ _ => inferInstanceAs (Decidable (_ ∧ _))
  | .visit _ _ | .pick _ => inferInstanceAs (Decidable True)
  | .kill => inferInstanceAs (Decidable False)

def quiet (n : Nat) : State := { boot with count := n }

def steps (n : Nat) : List Event := List.replicate n (.step 0 true)

def call (q : ProcSlot) (t : Task) (n : Nat) : List Event := .start 0 q t :: steps n

def goOn (q : ProcSlot) (n : Nat) : List Event := .visit 0 q :: .step 0 true :: .pick 0 :: steps n

/-- Two senders find the queue full; the receiver wakes one, which wakes the other. -/
def crowding : List Event :=
  call 1 .send 6 ++ call 2 .send 6 ++ call 0 .rcv 7 ++ goOn 1 10 ++ goOn 2 5

def awaiting : List Event := call 0 .rcv 4 ++ call 1 .send 7 ++ goOn 0 3

theorem dmsg_wakeups_quiet :
    Resting (quiet 16) ∧ (runEvents fire (quiet 16) crowding).isSome ∧
      Always fire (fun s => ¬ s.Stuck) (quiet 16) crowding ∧
    Resting boot ∧ (runEvents fire boot awaiting).isSome ∧ Always fire
    (fun s => ¬ s.Stuck) boot awaiting := by
  have hrest (n) : Resting (quiet n) := ⟨fun _ => rfl, fun _ => rfl, fun _ => rfl, rfl⟩
  refine ⟨hrest 16, by decide +kernel, dmsg_wakeups_suffice (hrest 16) (by decide +kernel), hrest 0,
    by decide +kernel, dmsg_wakeups_suffice (hrest 0) (by decide +kernel)⟩

def Plain (_ : State) : Event → Prop
  | .start _ _ t => t ≠ .close
  | .visit _ _ | .pick _ | .step _ _ => True
  | .kill => False

theorem State.goto_goto : (s.goto a c).goto a d = s.goto a d := by
  simp [State.goto]

theorem reaches_unlock (hpc : s.pc a = .wake q t n) (hn : n + k = NPROC)
    (hfree : ∀ j, s.holder (.proc j) = none)
    (hno : ∀ j u, s.status j ≠ .asleep u) : Reaches fire Plain s (s.goto a (.unlock q)) := by
  induction k generalizing s n with
  | zero =>
    refine .single ⟨.step a true, trivial, ?_⟩
    simp only [fire, State.step, hpc]
    rw [dif_neg (by omega)]
  | succ k ih =>
    have hlt : n < NPROC := by omega
    have hvisit (s₁ : State) (h₁ : s₁.status = s.status) :
        s₁.visitSleeper a q t ⟨n, hlt⟩ = s₁.release a (.proc ⟨n, hlt⟩) (.wake q t (n + 1)) := by
      unfold State.visitSleeper
      split
      · next h => exact absurd (h₁ ▸ h) (hno _ _)
      · rfl
    have hturn : runEvents fire s [.step a true, .step a true] = some
      (s.goto a (.wake q t (n + 1))) := by
      simp only [runEvents, fire, State.step, hpc, dif_pos hlt, State.acquire, hfree, if_true,
        State.goto_pc]
      rw [hvisit]
      · simp [State.release, State.goto, update_eq_self_iff, hfree]
      · rfl
    have hrest := ih (s := s.goto a (.wake q t (n + 1))) State.goto_pc (by omega) hfree hno
    rw [State.goto_goto] at hrest
    exact (Reaches.run (Along.of_mem (by simp [Plain]) s) hturn).trans hrest

def sending (n : Nat) : State :=
  { quiet n with status := update (fun _ => .away) 1 .inside,
                 holder := update (fun _ => none) .dmsg (some 0),
                 pc := update (fun _ => .idle) 0 (.wake 1 .send 0) }

theorem reaches_quiet (hn : n ≤ DMSG_QUEUE_MAX) : Reaches fire Plain boot (quiet n) := by
  induction n with
  | zero => exact .refl
  | succ n ih =>
    refine (ih (Nat.le_of_succ_le hn)).trans ?_
    have hwork : runEvents fire (quiet n) (call 1 .send 4) = some (sending (n + 1)) := by
      have hlt : ¬ DMSG_QUEUE_MAX ≤ n := Nat.not_le.2 hn
      have hholder : update (update (update (fun _ => none) (Lock.proc 0) (some 0))
          .dmsg (some 0)) (.proc 0) none = update (fun _ => none) .dmsg (some 0) := by
        rw [update_comm (by decide : Lock.dmsg ≠ .proc 0), update_idem,
          update_eq_self_iff.2 rfl]
      simp [call, steps, runEvents, List.replicate, fire, quiet, boot, State.step, State.setStatus,
        State.goto, NPROC,
        State.acquire, State.release, State.Sleeps, State.work, sending, hlt, hholder]
    have hlast : fire ((sending (n + 1)).goto 0 (.unlock 1)) (.step 0 true) = some
      (quiet (n + 1)) := by
      simp [fire, State.step, State.goto, State.release, State.setStatus, sending, quiet, boot]
    refine (Reaches.run (Along.of_mem (by simp [call, steps, Plain]) _) hwork).trans ?_
    have hno (j u) : (sending (n + 1)).status j ≠ .asleep u := by
      by_cases hj : j = 1 <;> simp [sending, hj]
    exact (reaches_unlock (k := 64) rfl rfl (fun _ => rfl) hno).tail ⟨.step 0 true, trivial, hlast⟩

/-- A woken sender finds no memory and returns, and nobody wakes the other one. -/
theorem sender_stuck : Started boot ∧ ∃ s, Reaches fire Plain boot s ∧ s.Stuck := by
  obtain ⟨s, hs, hcount, hasleep, haway⟩ : ∃ s, runEvents fire (quiet 16) (call 1 .send 6 ++
      call 2 .send 6 ++ call 0 .rcv 7 ++ goOn 1 2 ++ [.step 0 false, .step 0 true]) = some s ∧
      s.count = 15 ∧ s.status 2 = .asleep .send ∧ ∀ q, q ≠ 2 → s.status q = .away :=
    exists_of_any (by decide +kernel)
  refine ⟨⟨rfl, fun _ => rfl, fun _ => rfl, fun _ => rfl⟩, s, ?_, fun q => ?_,
    .inr ⟨⟨2, hasleep⟩, by rw [hcount]; decide⟩⟩
  · refine (reaches_quiet (Nat.le_refl _)).trans (Reaches.run (Along.of_mem ?_ _) hs)
    simp [call, goOn, steps, Plain]
  · by_cases hq : q = 2
    · rw [hq, hasleep]
      exact id
    · rw [haway q hq]
      exact id

end OopsOS.Dmsg
