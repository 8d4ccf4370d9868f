import OopsOS.Family
import OopsOS.Procs
import OopsOS.Traces

namespace OopsOS.Groups
set_option autoImplicit true
open Function

inductive Scan where
  | join
  | reap
  deriving DecidableEq

/-- Where a process is: in `clone` or `fork` with a new slot, at a slot of a scan or its lock, or in
`exit` past the threads. -/
inductive Pc where
  | user
  | allocated (np leader : ProcSlot)
  | uncounted (np leader : ProcSlot)
  | counted (np leader : ProcSlot)
  | forking (np : ProcSlot)
  | scan (k : Scan) (i : Nat) (found : Bool)
  | found (k : Scan) (p : ProcSlot)
  | asleep (k : Scan)
  | closing (i : Nat)
  | exiting
  deriving DecidableEq

def Pc.child : Pc → Option ProcSlot
  | .allocated np _ | .uncounted np _ | .counted np _ | .forking np => some np
  | _ => none

def Pc.awaited : Pc → Option ProcSlot
  | .uncounted _ l => some l
  | _ => none

def Pc.owes (x : Pc) (q : ProcSlot) : Nat := if x.awaited = some q then 1 else 0

/-- `join` and `tgroup_kill_and_reap` have the process's own lock but while they sleep. -/
def Pc.locks : Pc → Bool
  | .scan _ _ _ | .found _ _ => true
  | _ => false

/-- The table, with the process that keeps the lock of a new slot in `owner`. -/
structure State extends Procs where
  tgroup_ref : ProcSlot → Nat
  killed : ProcSlot → Bool
  owner : ProcSlot → Option ProcSlot
  pc : ProcSlot → Pc

inductive Event where
  | fork (c np : ProcSlot)
  | clone (c np : ProcSlot)
  | join (c : ProcSlot)
  | exit (c : ProcSlot)
  | wait (c p : ProcSlot)
  | kill (p : ProcSlot)
  | advance (c : ProcSlot) (ok : Bool)

variable {s s' : State} {e : Event} {es : List Event} {c p q l np : ProcSlot} {k : Scan} {i : Nat}
  {f : Bool} {x : Pc} {o : Option ProcSlot} {ok : Bool}

def State.goto (s : State) (c : ProcSlot) (x : Pc) : State := { s with pc := update s.pc c x }

/-- The lock of a slot can be had. -/
def State.Free (s : State) (p : ProcSlot) : Prop := s.owner p = none ∧ (s.pc p).locks = false

instance : Decidable (s.Free p) := inferInstanceAs (Decidable (_ ∧ _))

def State.allocproc (s : State) (c np : ProcSlot) (x : Pc) : Option State :=
  if s.state c = .live ∧ s.pc c = .user ∧ s.state np = .unused ∧ s.owner np = none then
    some { s with
      pthread := update s.pthread np none
      tgroup_ref := update s.tgroup_ref np 0
      owner := update s.owner np (some c)
      pc := update s.pc c x }
  else none

def State.freeproc (s : State) (p : ProcSlot) : State :=
  { s with
    toProcs := s.vacate p
    tgroup_ref := update s.tgroup_ref p 0
    killed := update s.killed p false
    owner := update s.owner p none }

def State.freethread (s : State) (p leader : ProcSlot) : State :=
  let s := s.freeproc p
  { s with tgroup_ref := update s.tgroup_ref leader (s.tgroup_ref leader - 1) }

def State.finish (s : State) (c np : ProcSlot) (parent pthread : Option ProcSlot) : State :=
  { s with
    toProcs := s.start np parent pthread
    owner := update s.owner np none
    pc := update s.pc c .user }

def State.visit (s : State) (c : ProcSlot) (k : Scan) (p : ProcSlot) (ok : Bool) : State :=
  if s.state p = .zombie then
    match k with
    | .join => if ok then (s.freethread p c).goto c .user else s.goto c .user
    | .reap => (s.freethread p c).goto c (.scan .reap (p + 1) true)
  else
    match k with
    | .join => s.goto c (.scan .join (p + 1) true)
    | .reap => { s.goto c (.scan .reap (p + 1) true) with killed := update s.killed p true }

/-- The end of a pass over the table. A process that sleeps starts over when woken. -/
def State.passed (s : State) (c : ProcSlot) (k : Scan) (found : Bool) : State :=
  match k with
  | .join => s.goto c (if !found || s.killed c then .user else .asleep .join)
  | .reap => s.goto c (if !found || s.tgroup_ref c ≤ 1 then .closing 0 else .asleep .reap)

/-- The `original_parent` of `exit`. -/
def State.exitParent (s : State) (c : ProcSlot) : Option ProcSlot :=
  if s.parent c = none ∧ s.pthread c ≠ none then s.pthread c else s.parent c

def State.advance (s : State) (c : ProcSlot) (ok : Bool) : Option State :=
  match s.pc c with
  | .user => none
  | .allocated np l =>
    if ok then
      some { s.goto c (.uncounted np l) with
        pthread := update s.pthread np (some l)
        parent := update s.parent np none }
    else some ((s.freeproc np).goto c .user)
  | .uncounted np l =>
    if ok then
      if s.Free l then
        some { s.goto c (.counted np l) with
          tgroup_ref := update s.tgroup_ref l (s.tgroup_ref l + 1) }
      else none
    else some ((s.freeproc np).goto c .user)
  | .counted np l => some (s.finish c np none (some l))
  | .forking np =>
    if ok then
      some { s.finish c np (some c) none with tgroup_ref := update s.tgroup_ref np 1 }
    else some ((s.freeproc np).goto c .user)
  | .scan k i found =>
    if h : i < NPROC then
      some (s.goto c (if s.pthread ⟨i, h⟩ = some c then .found k ⟨i, h⟩ else .scan k (i + 1) found))
    else some (s.passed c k found)
  | .found k p => if s.Free p then some (s.visit c k p ok) else none
  | .asleep k => some (s.goto c (.scan k 0 false))
  | .closing i =>
    if h : i < NPROC then
      if s.Free ⟨i, h⟩ then some (s.goto c (.closing (i + 1))) else none
    else some (s.goto c .exiting)
  | .exiting =>
    if ∀ r, s.exitParent c = some r → s.Free r then
      some { s.goto c .user with toProcs := s.toProcs.exit c }
    else none

def fire (s : State) : Event → Option State
  | .fork c np => s.allocproc c np (.forking np)
  | .clone c np => s.allocproc c np (.allocated np (s.tgroupLeader c))
  | .join c =>
    if s.state c = .live ∧ s.pc c = .user then some (s.goto c (.scan .join 0 false)) else none
  | .exit c =>
    if s.state c = .live ∧ s.pc c = .user ∧ c ≠ 0 then
      some (s.goto c
        (if s.pthread c = none ∧ s.tgroup_ref c > 1 then .scan .reap 0 false else .closing 0))
    else none
  | .wait c p =>
    if s.state c = .live ∧ s.pc c = .user ∧ s.parent p = some c ∧ s.state p = .zombie then
      some (s.freeproc p)
    else none
  | .kill p => if s.Free p then some { s with killed := update s.killed p true } else none
  | .advance c ok => s.advance c ok

def boot : State := ⟨Procs.boot, fun p => if p = 0 then 1 else 0, fun _ => false, fun _ => none,
  fun _ => .user⟩

def State.threads (s : State) (q : ProcSlot) : Nat := ∑ p, if s.pthread p = some q then 1 else 0

def State.awaiting (s : State) (q : ProcSlot) : Nat :=
  ∑ c, (s.pc c).owes q

/-- A process that is no thread counts itself and its threads, but for those a `clone` has yet to
count. -/
def State.Counted (s : State) : Prop :=
  ∀ q, s.state q ≠ .unused → s.pthread q = none → s.tgroup_ref q + s.awaiting q = 1 + s.threads q

/-- The counts are right, and no `pthread` is a zombie or gone. -/
def State.Sound (s : State) : Prop :=
  s.Counted ∧ ∀ p q, s.pthread p = some q → s.state q = .live

structure Shape (s : State) : Prop where
  owns : ∀ p c, s.owner p = some c ↔ (s.pc c).child = some p
  new : ∀ p c, s.owner p = some c → s.state p = .unused
  busy : ∀ c, s.pc c ≠ .user → s.state c = .live
  bare : ∀ p, s.state p = .unused → s.owner p = none → s.pthread p = none
  allocated : ∀ c np l, s.pc c = .allocated np l → s.pthread np = none ∧ l = s.tgroupLeader c
  uncounted : ∀ c np l, s.pc c = .uncounted np l ∨ s.pc c = .counted np l →
    s.pthread np = some l ∧ l = s.tgroupLeader c
  forking : ∀ c np, s.pc c = .forking np → s.pthread np = none
  led : ∀ p q, s.pthread p = some q → s.pthread q = none ∧ s.state q = .live ∧
    s.pc q ≠ .exiting ∧ ∀ i, s.pc q ≠ .closing i
  orphan : ∀ p q, s.pthread p = some q → s.parent p = none
  leads : ∀ q k p, s.pc q = .found k p → s.pthread q = none
  reaps : ∀ q, s.pc q = .asleep .reap ∨ (∃ i f, s.pc q = .scan .reap i f) → s.pthread q = none
  seen : ∀ q i, s.pc q = .scan .reap i false → ∀ p, s.owner p = none → s.pthread p = some q →
    ∃ p' : ProcSlot, i ≤ p' ∧ s.owner p' = none ∧ s.pthread p' = some q
  /-- A process in the slot a scan waits for needs the lock of the scanning one before it is a
  zombie. -/
  kept : ∀ c k p, s.pc c = .found k p → s.pthread p = some c ∨
    s.state p ≠ .zombie ∧ s.pc p ≠ .exiting ∧ ∀ i, s.pc p = .closing i → i ≤ c

theorem threads_update (f : ProcSlot → Option ProcSlot) (p q : ProcSlot) (o : Option ProcSlot) :
    (∑ p', if update f p o p' = some q then 1 else 0) + (if f p = some q then 1 else 0) =
      (∑ p', if f p' = some q then 1 else 0) + if o = some q then 1 else 0 :=
  sum_apply_update_add (fun a => if a = some q then 1 else 0) f p o

theorem awaiting_update (f : ProcSlot → Pc) (c q : ProcSlot) (x : Pc) :
    ∑ c', (update f c x c').owes q + (f c).owes q = ∑ c', (f c').owes q + x.owes q :=
  sum_apply_update_add (fun a : Pc => a.owes q) f c x

theorem State.Counted.of_step (hpc : s'.pc = update s.pc c x)
    (hpt : s'.pthread = update s.pthread p o) (h : ∀ q, s'.state q ≠ .unused → s'.pthread q = none →
      s'.tgroup_ref q + s.awaiting q + x.owes q + (if s.pthread p = some q then 1 else 0) =
        1 + s.threads q + (s.pc c).owes q + if o = some q then 1 else 0) : s'.Counted := by
  intro q hu hq
  have ha := awaiting_update s.pc c q x
  have ht := threads_update s.pthread p q o
  have hstep := h q hu hq
  simp only [State.awaiting, State.threads, hpc, hpt] at *
  omega

theorem State.Counted.goto (h : s.Counted) (hx : ∀ q, x.owes q = (s.pc c).owes q) :
    (s.goto c x).Counted := by
  refine of_step (p := c) (o := s.pthread c) rfl (update_eq_self c _).symm fun q hu hq => ?_
  have hcount := h q hu hq
  simp only [State.goto, hx]
  omega

attribute [local grind =] update_apply Pc.child Pc.awaited Pc.owes Procs.tgroupLeader

theorem tgroupLeader_cases (s : State) (c : ProcSlot) :
    s.tgroupLeader c = c ∧ s.pthread c = none ∨ s.pthread c = some (s.tgroupLeader c) := by
  unfold Procs.tgroupLeader
  cases s.pthread c <;> simp

theorem Pc.awaited_eq_some (h : x.awaited = some l) : ∃ np, x = .uncounted np l := by
  cases x <;> simp_all [Pc.awaited]

theorem threads_eq_zero (h : ∀ p, s.pthread p ≠ some q) : s.threads q = 0 :=
  Finset.sum_eq_zero fun p _ => if_neg (h p)

theorem freethread_state (s : State) (p c q : ProcSlot) :
    (s.freethread p c).state q = update s.state p .unused q := rfl

theorem freethread_pthread (s : State) (p c q : ProcSlot) :
    (s.freethread p c).pthread q = update s.pthread p none q := rfl

theorem freethread_pc (s : State) (p c q : ProcSlot) : (s.freethread p c).pc q = s.pc q := rfl

section
variable (h : Shape s)
include h

theorem Shape.allocproc (hf : s.allocproc c np x = some s')
    (hx : x = .forking np ∨ x = .allocated np (s.tgroupLeader c)) : Shape s' := by
  obtain ⟨⟨hc, hu, hnp, ho⟩, rfl⟩ := of_guarded hf
  have hbare := h.bare np hnp ho
  cases h
  constructor <;> grind

theorem Shape.freeproc (hc : (s.pc c).child = some np) : Shape ((s.freeproc np).goto c .user) := by
  have ho := (h.owns np c).2 hc
  have hnp := h.new np c ho
  cases h
  constructor <;> simp only [State.goto, State.freeproc, Procs.vacate] <;> grind

theorem Shape.goto (hlive : s.state c = .live) (hc : (s.pc c).child = none)
    (hx : x.child = none) (hfound : ∀ k p, x = .found k p → s.pthread p = some c)
    (hreap : x = .asleep .reap ∨ (∃ i f, x = .scan .reap i f) → s.pthread c = none)
    (hseen : ∀ i, x = .scan .reap i false → ∀ p, s.owner p = none → s.pthread p = some c →
      ∃ p' : ProcSlot, i ≤ p' ∧ s.owner p' = none ∧ s.pthread p' = some c)
    (hexit : ∀ p, s.pthread p = some c → x ≠ .exiting ∧ ∀ i, x ≠ .closing i)
    (hkept : ∀ c' k, s.pc c' = .found k c → s.pthread c = some c' ∨
      x ≠ .exiting ∧ ∀ i, x = .closing i → i ≤ c') : Shape (s.goto c x) := by
  cases h
  constructor <;> simp only [State.goto] <;> grind

theorem Shape.join (hu : x.child = none)
    (hx : x = .user ∨ x = .asleep .join ∨ ∃ i f, x = .scan .join i f)
    (hlive : s.state c = .live) (hc : (s.pc c).child = none) : Shape (s.goto c x) :=
  h.goto hlive hc hu (by grind) (by grind) (by grind) (by grind) (by grind)

theorem Shape.attach (hc : s.pc c = .allocated np l) : Shape { s.goto c (.uncounted np l) with
      pthread := update s.pthread np (some l)
      parent := update s.parent np none } := by
  have ho := (h.owns np c).2 (by grind)
  have hnp := h.new np c ho
  have hlive := h.busy c (by grind)
  obtain ⟨hnone, hl⟩ := h.allocated c np l hc
  obtain ⟨h1, h2, h3, h4, h5, h6, h7, h8, h9, h10, h11, h12⟩ := h
  have hlead : s.pthread l = none ∧ s.state l = .live ∧ s.pc l ≠ .exiting ∧
      (l = c ∨ s.pthread c = some l) := by grind [tgroupLeader_cases]
  constructor <;> simp only [State.goto]
  case seen =>
    intro q i hq p hp hpq
    obtain ⟨p', hi, hp', hpq'⟩ := h12 q i (by grind) p hp (by grind)
    exact ⟨p', hi, hp', by grind⟩
  all_goals grind

theorem Shape.count (hc : s.pc c = .uncounted np l) (r : ProcSlot → Nat) :
    Shape { s.goto c (.counted np l) with tgroup_ref := r } := by
  have ho := (h.owns np c).2 (by grind)
  have hnp := h.new np c ho
  cases h
  constructor <;> simp only [State.goto] <;> grind

theorem Shape.unowned (hp : s.state p ≠ .unused) : s.owner p = none :=
  Option.eq_none_iff_forall_ne_some.2 fun c ho => hp (h.new p c ho)

theorem Shape.maker (ho : s.owner np = some c) (hl : s.pthread np = some l) :
    l = c ∨ s.pthread c = some l := by
  have hc := (h.owns np c).1 ho
  have hcases := tgroupLeader_cases s c
  cases hpc : s.pc c with
  | allocated np' l' => grind [h.allocated c np' l' hpc]
  | uncounted np' l' => grind [h.uncounted c np' l' (.inl hpc)]
  | counted np' l' => grind [h.uncounted c np' l' (.inr hpc)]
  | forking np' => grind [h.forking c np' hpc]
  | _ => grind

theorem Shape.finish (hc : (s.pc c).child = some np) (ho' : s.pthread np = o)
    (hlive : s.state c = .live) (r : ProcSlot → Nat) (parent : Option ProcSlot)
    (hparent : o = none ∨ parent = none) :
    Shape { s.finish c np parent o with tgroup_ref := r } := by
  have ho := (h.owns np c).2 hc
  have hnp := h.new np c ho
  have hmaker := fun l => h.maker (l := l) ho
  have hself := h.unowned (p := c) (by simp [hlive])
  obtain ⟨h1, h2, h3, h4, h5, h6, h7, h8, h9, h10, h11, h12⟩ := h
  constructor <;> simp only [State.finish, Procs.start]
  case seen =>
    intro q i hq p hp hpq
    have hthread : ∃ p', s.owner p' = none ∧ s.pthread p' = some q := by
      by_cases hpn : p = np
      · exact ⟨c, hself, by grind⟩
      · exact ⟨p, by grind⟩
    obtain ⟨p₀, hp₀, hpq₀⟩ := hthread
    obtain ⟨p', hi, hp', hpq'⟩ := h12 q i (by grind) p₀ hp₀ hpq₀
    exact ⟨p', hi, by grind⟩
  all_goals grind

theorem Shape.free (hp : s.state p = .zombie) (r : ProcSlot → Nat)
    (hscan : ∀ q i, s.pthread p = some q → s.pc q ≠ .scan .reap i false) :
    Shape { s.freeproc p with tgroup_ref := r } := by
  have ho := h.unowned (p := p) (by simp [hp])
  obtain ⟨h1, h2, h3, h4, h5, h6, h7, h8, h9, h10, h11, h12⟩ := h
  constructor <;> simp only [State.freeproc, Procs.vacate]
  case seen =>
    intro q i hq p₀ hp₀ hpq
    obtain ⟨p', hi, hp', hpq'⟩ := h12 q i hq p₀ (by grind) (by grind)
    exact ⟨p', hi, by grind⟩
  all_goals grind

theorem Shape.exit (hc : s.pc c = .exiting) :
    Shape { s.goto c .user with toProcs := s.toProcs.exit c } := by
  cases h
  constructor <;> simp only [State.goto, Procs.exit] <;> grind

theorem Shape.exists_settled (hq : (s.pc q).child = none)
    (hp : s.pthread p = some q) : ∃ p', s.owner p' = none ∧ s.pthread p' = some q := by
  cases ho : s.owner p with
  | none => exact ⟨p, ho, hp⟩
  | some c =>
    have hc := (h.owns p c).1 ho
    have hlive := h.busy c (by grind)
    exact ⟨c, h.unowned (by simp [hlive]), by grind [h.maker ho hp]⟩

theorem Shape.awaits (hq : (s.pc q).child = none)
    (hc : (s.pc c).awaited = some q) : s.pthread c = some q := by
  obtain ⟨np, hpc⟩ := Pc.awaited_eq_some hc
  grind [tgroupLeader_cases s c, (h.uncounted c np q (.inl hpc)).2]

theorem Shape.two_le (hcount : s.Counted) (hlive : s.state q = .live)
    (hq : (s.pc q).child = none) (hp : s.pthread p = some q) : 2 ≤ s.tgroup_ref q := by
  have hc := hcount q (by simp [hlive]) (h.led p q hp).1
  have hlt : s.awaiting q < s.threads q := by
    refine Finset.sum_lt_sum (fun c _ => by grind [h.awaits hq (c := c)]) ?_
    by_cases hex : ∃ c, (s.pc c).awaited = some q
    · obtain ⟨c, hca⟩ := hex
      obtain ⟨np, hpc⟩ := Pc.awaited_eq_some hca
      have hnp := h.new np c ((h.owns np c).2 (by grind))
      have huser := h.busy np
      exact ⟨np, Finset.mem_univ np, by grind [(h.uncounted c np q (.inl hpc)).1]⟩
    · exact ⟨p, Finset.mem_univ p, by grind⟩
  omega

theorem Shape.awaiting_eq_zero (hq : ∀ p, s.pthread p ≠ some q) : s.awaiting q = 0 := by
  refine Finset.sum_eq_zero fun c _ => if_neg fun hc => ?_
  obtain ⟨np, hpc⟩ := Pc.awaited_eq_some hc
  exact hq np (h.uncounted c np q (.inl hpc)).1

theorem Shape.passed (hcount : s.Counted) (hc : s.pc c = .scan k i f)
    (hi : NPROC ≤ i) : Shape (s.passed c k f) := by
  have hlive := h.busy c (by simp [hc])
  have hnone : (s.pc c).child = none := by rw [hc]; rfl
  cases k with
  | join => exact h.join (by grind) (by grind) hlive hnone
  | reap =>
    have hlead := h.reaps c (.inr ⟨i, f, hc⟩)
    refine h.goto hlive hnone (by grind) (by grind) (fun _ => hlead) (by grind) ?_ (by grind)
    intro p hp
    have htwo := h.two_le hcount hlive hnone hp
    cases f with
    | false =>
      obtain ⟨p₀, ho, hp₀⟩ := h.exists_settled hnone hp
      obtain ⟨p', hle, -⟩ := h.seen c i hc p₀ ho hp₀
      exact absurd p'.isLt (by omega)
    | true => grind

theorem Shape.scan (hc : s.pc c = .scan k i f) (hi : i < NPROC) :
    Shape (s.goto c
      (if s.pthread ⟨i, hi⟩ = some c then .found k ⟨i, hi⟩ else .scan k (i + 1) f)) := by
  have hlive := h.busy c (by simp [hc])
  refine h.goto hlive (by grind) (by grind) (by grind) ?_ ?_ (by grind) (by grind)
  · have hlead := h.reaps c
    grind
  · intro i' hx p hp hpc
    split at hx
    · cases hx
    · next hne =>
      cases hx
      obtain ⟨p', hle, hp', hpc'⟩ := h.seen c i hc p hp hpc
      have hne' : (p' : Nat) ≠ i := by grind
      exact ⟨p', by omega, hp', hpc'⟩

theorem Shape.visit (hc : s.pc c = .found k p) : Shape (s.visit c k p ok) := by
  have hlive := h.busy c (by simp [hc])
  have hlead := h.leads c k p hc
  have hfree (hp : s.state p = .zombie) : Shape (s.freethread p c) := by
    refine h.free hp _ ?_
    grind [h.kept c k p hc]
  unfold State.visit
  cases k with
  | join =>
    split
    · next hp =>
      cases ok with
      | false => exact h.join rfl (.inl rfl) hlive (by grind)
      | true =>
        refine (hfree hp).join rfl (.inl rfl) ?_ ?_
        all_goals grind [freethread_state, freethread_pthread, freethread_pc]
    · exact h.join rfl (by grind) hlive (by grind)
  | reap =>
    split
    · next hp =>
      refine (hfree hp).goto ?_ ?_ rfl (by grind) ?_ (by grind) (by grind) (by grind)
      all_goals grind [freethread_state, freethread_pthread, freethread_pc]
    · have hgo : Shape (s.goto c (.scan .reap (p + 1) true)) :=
        h.goto hlive (by grind) rfl (by grind) (fun _ => hlead) (by grind) (by grind) (by grind)
      exact { hgo with }

/-- `wakeup` needs the lock of a process that scans, so it does not pass such a process. -/
theorem Shape.closing (hc : s.pc c = .closing i) (hi : i < NPROC) (hfree : s.Free ⟨i, hi⟩) :
    Shape (s.goto c (.closing (i + 1))) := by
  have hlive := h.busy c (by simp [hc])
  refine h.goto hlive (by grind) rfl (by grind) (by grind) (by grind) (fun p hp => ?_)
    fun c' k hc' => ?_
  · exact absurd hc ((h.led p c hp).2.2.2 i)
  · refine (h.kept c' k c hc').imp_right fun ⟨_, _, hle⟩ => ⟨by grind, fun j hj => ?_⟩
    have hne : (c' : Nat) ≠ i := by
      rintro rfl
      simp [State.Free, hc', Pc.locks] at hfree
    have := hle i hc
    grind

theorem Shape.closed (hc : s.pc c = .closing i) (hi : ¬ i < NPROC) : Shape (s.goto c .exiting) := by
  have hlive := h.busy c (by simp [hc])
  refine h.goto hlive (by grind) rfl (by grind) (by grind) (by grind) (fun p hp => ?_)
    fun c' k hc' => ?_
  · exact absurd hc ((h.led p c hp).2.2.2 i)
  · exact (h.kept c' k c hc').imp_right fun ⟨_, _, hle⟩ =>
      absurd c'.isLt (by have := hle i hc; omega)

end

def Inv (s : State) : Prop := Shape s ∧ s.Counted

theorem Inv.allocproc (h : Inv s) (hf : s.allocproc c np x = some s')
    (hx : x = .forking np ∨ x = .allocated np (s.tgroupLeader c)) : Inv s' := by
  refine ⟨h.1.allocproc hf hx, ?_⟩
  obtain ⟨⟨hc, hu, hnp, ho⟩, rfl⟩ := of_guarded hf
  have hbare := h.1.bare np hnp ho
  refine State.Counted.of_step (s := s) rfl rfl fun q hq hnone => ?_
  have hcount := h.2 q hq (by grind)
  grind

theorem Inv.abandon (h : Inv s) (hc : (s.pc c).child = some np)
    (howes : ∀ q, (s.pc c).owes q = if s.pthread np = some q then 1 else 0) :
    Inv ((s.freeproc np).goto c .user) := by
  refine ⟨h.1.freeproc hc, State.Counted.of_step (s := s) (p := np) rfl rfl fun q hq hnone => ?_⟩
  simp only [State.goto, State.freeproc, Procs.vacate] at hq hnone ⊢
  have hcount := h.2 q (by grind) (by grind)
  grind

theorem Inv.advance_clone (h : Inv s) (hf : s.advance c ok = some s')
    (hc : (s.pc c).child = some np) : Inv s' := by
  have hlive := h.1.busy c (by grind)
  have hnp := h.1.new np c ((h.1.owns np c).2 hc)
  unfold State.advance at hf
  cases hpc : s.pc c with
  | allocated np' l =>
    obtain rfl : np' = np := by grind
    have hnone := (h.1.allocated c np' l hpc).1
    simp only [hpc] at hf
    split at hf <;> cases hf
    · refine ⟨h.1.attach hpc, State.Counted.of_step (s := s) (p := np')
        rfl rfl fun q hq hq' => ?_⟩
      simp only [State.goto] at hq hq' ⊢
      have hcount := h.2 q hq (by grind)
      grind
    · exact h.abandon (by grind) (by grind)
  | uncounted np' l =>
    obtain rfl : np' = np := by grind
    have hthread := (h.1.uncounted c np' l (.inl hpc)).1
    simp only [hpc] at hf
    split at hf
    · obtain ⟨-, rfl⟩ := of_guarded hf
      refine ⟨h.1.count hpc _, State.Counted.of_step (s := s) (p := c)
        rfl (update_eq_self c _).symm fun q hq hq' => ?_⟩
      simp only [State.goto] at hq hq' ⊢
      have hcount := h.2 q hq hq'
      grind
    · cases hf
      exact h.abandon (by grind) (by grind)
  | counted np' l =>
    obtain rfl : np' = np := by grind
    have hthread := (h.1.uncounted c np' l (.inr hpc)).1
    simp only [hpc] at hf
    cases hf
    refine ⟨h.1.finish hc hthread hlive _ _ (.inr rfl), State.Counted.of_step (s := s) (p := np')
        rfl rfl fun q hq hq' => ?_⟩
    simp only [State.finish, Procs.start] at hq hq' ⊢
    have hcount := h.2 q (by grind) (by grind)
    grind
  | forking np' =>
    obtain rfl : np' = np := by grind
    have hnone := h.1.forking c np' hpc
    have hbare : ∀ p, s.pthread p ≠ some np' := fun p hp => by grind [h.1.led p np' hp]
    simp only [hpc] at hf
    split at hf <;> cases hf
    · refine ⟨h.1.finish hc hnone hlive _ _ (.inl rfl), State.Counted.of_step (s := s) (p := np')
        rfl rfl fun q hq hq' => ?_⟩
      simp only [State.finish, Procs.start] at hq hq' ⊢
      by_cases hqn : q = np'
      · grind [threads_eq_zero hbare, h.1.awaiting_eq_zero hbare]
      · have hcount := h.2 q (by grind) (by grind)
        grind
    · exact h.abandon (by grind) (by grind)
  | _ => grind

theorem Inv.visit (h : Inv s) (hc : s.pc c = .found k p) : Inv (s.visit c k p ok) := by
  refine ⟨h.1.visit hc, ?_⟩
  have hlive := h.1.busy c (by simp [hc])
  have hgo : ∀ x : Pc, x.awaited = none → s.state p = .zombie →
      ((s.freethread p c).goto c x).Counted := by
    intro x hx hp
    have hthread := (h.1.kept c k p hc).resolve_right fun hno => hno.1 hp
    have htwo := h.1.two_le h.2 hlive (by grind) hthread
    refine State.Counted.of_step (s := s) (p := p) rfl rfl fun q hq hq' => ?_
    simp only [State.goto, State.freethread, State.freeproc, Procs.vacate] at hq hq' ⊢
    have hcount := h.2 q (by grind) (by grind)
    grind
  have hstay : ∀ x : Pc, x.awaited = none → (s.goto c x).Counted := fun x hx =>
    h.2.goto (by grind)
  unfold State.visit
  cases k with
  | join =>
    split
    · next hp =>
      cases ok with
      | false => exact hstay _ rfl
      | true => exact hgo _ rfl hp
    · exact hstay _ rfl
  | reap =>
    split
    · next hp => exact hgo _ rfl hp
    · exact hstay (.scan .reap (p + 1) true) rfl

theorem Inv.advance (h : Inv s) (hf : s.advance c ok = some s') : Inv s' := by
  cases hchild : (s.pc c).child with
  | some np => exact h.advance_clone hf hchild
  | none =>
    unfold State.advance at hf
    split at hf
    case h_1 => cases hf
    case h_6 k i f hpc =>
      split at hf <;> cases hf
      · exact ⟨h.1.scan hpc _, h.2.goto (by grind)⟩
      · refine ⟨h.1.passed h.2 hpc (by omega), ?_⟩
        cases k <;> exact h.2.goto (by grind)
    case h_7 k p hpc =>
      split at hf <;> cases hf
      exact h.visit hpc
    case h_8 k hpc =>
      cases hf
      have hlive := h.1.busy c (by simp [hpc])
      have hlead := h.1.reaps c
      refine ⟨h.1.goto hlive (by grind) rfl (by grind) (by grind) ?_ (by grind) (by grind),
        h.2.goto (by grind)⟩
      intro i hx p hp hpq
      exact ⟨p, by grind, hp, hpq⟩
    case h_9 i hpc =>
      split at hf
      · split at hf <;> cases hf
        next hfree => exact ⟨h.1.closing hpc _ hfree, h.2.goto (by grind)⟩
      · next hi =>
        cases hf
        exact ⟨h.1.closed hpc hi, h.2.goto (by grind)⟩
    case h_10 hpc =>
      split at hf <;> cases hf
      have hlive := h.1.busy c (by simp [hpc])
      refine ⟨h.1.exit hpc, State.Counted.of_step (s := s) (p := c)
        rfl (update_eq_self c _).symm fun q hq hq' => ?_⟩
      simp only [State.goto, Procs.exit] at hq hq' ⊢
      have hcount := h.2 q (by grind) hq'
      grind
    all_goals grind

theorem Inv.fire (h : Inv s) (hf : fire s e = some s') : Inv s' := by
  cases e with
  | fork c np => exact h.allocproc hf (.inl rfl)
  | clone c np => exact h.allocproc hf (.inr rfl)
  | join c =>
    obtain ⟨⟨hlive, hu⟩, rfl⟩ := of_guarded hf
    exact ⟨h.1.join rfl (by grind) hlive (by grind), h.2.goto (by grind)⟩
  | exit c =>
    obtain ⟨⟨hlive, hu, -⟩, rfl⟩ := of_guarded hf
    refine ⟨h.1.goto hlive (by grind) (by grind) (by grind) (by grind) ?_ ?_ (by grind),
      h.2.goto (by grind)⟩
    · intro i hx p hp hpc
      exact ⟨p, by grind, hp, hpc⟩
    · intro p hp
      have htwo := h.1.two_le h.2 hlive (by grind) hp
      have hlead := (h.1.led p c hp).1
      grind
  | wait c p =>
    obtain ⟨⟨hlive, hu, hparent, hp⟩, rfl⟩ := of_guarded hf
    have hnone : s.pthread p = none := by
      cases hq : s.pthread p with
      | none => rfl
      | some q => grind [h.1.orphan p q hq]
    refine ⟨h.1.free hp _ (by grind), State.Counted.of_step (s := s) (c := c) (p := p)
      (update_eq_self c _).symm rfl fun q hq hq' => ?_⟩
    simp only [State.freeproc, Procs.vacate] at hq hq' ⊢
    have hcount := h.2 q (by grind) (by grind)
    grind
  | kill p =>
    obtain ⟨-, rfl⟩ := of_guarded hf
    exact ⟨{ h.1 with }, h.2⟩
  | advance c ok => exact h.advance hf

theorem boot_inv : Inv boot := by
  have hno : ∀ p q, boot.pthread p ≠ some q := nofun
  have hshape : Shape boot := by
    constructor <;> simp [boot, Procs.boot, Pc.child]
  refine ⟨hshape, fun q hq _ => ?_⟩
  rw [threads_eq_zero (hno · q), hshape.awaiting_eq_zero (hno · q)]
  simp only [boot, Procs.boot] at hq ⊢
  grind

/-- The counts of the thread groups are right and no thread outlives its leader. -/
theorem groups_sound (es : List Event) : Always fire State.Sound boot es :=
  (Along.of_forall (P := fun _ _ => True) (fun _ _ => trivial) boot es).always (I := Inv)
    (fun _ h => ⟨h.2, fun p q hp => (h.1.led p q hp).2.1⟩) (fun _ _ _ h _ hf => h.fire hf) boot_inv

end OopsOS.Groups
