import OopsOS.Limits
import OopsOS.Spinlocks

namespace OopsOS.Kmem
set_option autoImplicit true
open Function Relation
attribute [local grind =] update_apply

abbrev Cpu := Fin NCPU

inductive Lock where
  | kmem (i : Cpu)
  | ref
  deriving DecidableEq

/-- Where a CPU is: in `kalloc_try`, where `from` is the other list it takes a page from, or in
`kfree`. -/
inductive Place where
  | idle
  | alloc (id : Cpu)
  | own (id : Cpu)
  | scan (id : Cpu) (antid : Nat)
  | other (id antid : Cpu)
  | set (id : Cpu) (from' : Option Cpu) (r : Nat)
  | counted (id : Cpu) (from' : Option Cpu) (r : Nat)
  | dropOther (id antid : Cpu)
  | dropOwn (id : Cpu)
  | free (id : Cpu) (pa : Nat)
  | dec (id : Cpu) (pa : Nat)
  | push (id : Cpu) (pa : Nat)
  | pushed (id : Cpu) (pa : Nat)
  deriving DecidableEq

/-- The free lists and counts. A page is `out` until its count is 0, and `freed` from the end of
that `kfree` on. -/
structure Data where
  freelist : Cpu → List Nat
  cnt : Nat → Int
  out : Nat → Bool
  freed : Nat → Bool

def Data.pop (d : Data) (i : Cpu) (r : Nat) (rest : List Nat) : Data :=
  { d with
    freelist := update d.freelist i rest
    out := update d.out r true
    freed := update d.freed r false }

def Data.dec (d : Data) (pa : Nat) : Data :=
  { d with
    cnt := update d.cnt pa (d.cnt pa - 1)
    out := if d.cnt pa - 1 = 0 then update d.out pa false else d.out }

def Data.push (d : Data) (i : Cpu) (pa : Nat) : Data :=
  { d with
    freelist := update d.freelist i (pa :: d.freelist i)
    freed := update d.freed pa true }

def act (d : Data) : Place → Bool → Option (Act Lock Place Data)
  | .idle, _ => none
  | .alloc id, _ => some (.acquire (.kmem id) (.own id))
  | .own id, _ =>
    match d.freelist id with
    | r :: rest => some (.goto (.set id none r) (d.pop id r rest))
    | [] => some (.goto (.scan id 0) d)
  | .scan id antid, _ =>
    if h : antid < NCPU then
      if antid = id then some (.goto (.scan id (antid + 1)) d)
      else some (.acquire (.kmem ⟨antid, h⟩) (.other id ⟨antid, h⟩))
    else some (.goto (.dropOwn id) d)
  | .other id antid, _ =>
    match d.freelist antid with
    | r :: rest => some (.goto (.set id (some antid) r) (d.pop antid r rest))
    | [] => some (.release (.kmem antid) (.scan id (antid + 1)) d)
  | .set id from' r, _ => some (.acquire .ref (.counted id from' r))
  | .counted id from' r, _ => some (.release .ref ((from'.map (.dropOther id)).getD (.dropOwn id))
      { d with cnt := update d.cnt r 1 })
  | .dropOther id antid, _ => some (.release (.kmem antid) (.dropOwn id) d)
  | .dropOwn id, _ => some (.release (.kmem id) .idle d)
  | .free id pa, _ => some (.acquire .ref (.dec id pa))
  | .dec id pa, _ =>
    some (.release .ref (if d.cnt pa - 1 = 0 then .push id pa else .idle) (d.dec pa))
  | .push id pa, _ => some (.acquire (.kmem id) (.pushed id pa))
  | .pushed id pa, _ => some (.release (.kmem id) .idle (d.push id pa))

def Entry (c c' : Place) : Prop := c = .idle ∧ ∃ id, c' = .alloc id ∨ ∃ pa, c' = .free id pa

instance (c : Place) : (c' : Place) → Decidable (Entry c c')
  | .alloc id => decidable_of_iff (c = .idle) ⟨fun h => ⟨h, id, .inl rfl⟩, And.left⟩
  | .free id pa => decidable_of_iff (c = .idle) ⟨fun h => ⟨h, id, .inr ⟨pa, rfl⟩⟩, And.left⟩
  | .idle | .own _ | .scan _ _ | .other _ _ | .set _ _ _ | .counted _ _ _ | .dropOther _
    _ | .dropOwn _
  | .dec _ _ | .push _ _ | .pushed _ _ => isFalse fun ⟨_, _, h⟩ => by simp at h

abbrev State := SpinState Lock Place Data

def fire : State → SpinEvent Place → Option State := SpinState.fire act Entry

/-- The lists have the pages that are freed, each once, and none of them is out. -/
structure Data.Sound (d : Data) : Prop where
  nodup : ∀ i, (d.freelist i).Nodup
  apart : ∀ i j p, p ∈ d.freelist i → p ∈ d.freelist j → i = j
  exact : ∀ p, d.freed p = true ↔ ∃ i, p ∈ d.freelist i
  once : ∀ p, d.freed p = true → d.out p = false

def Place.setting : Place → Option Nat
  | set _ _ r | counted _ _ r => some r
  | _ => none

def Place.pending : Place → Option Nat
  | push _ pa | pushed _ pa => some pa
  | _ => none

/-- A popped page is out with no count, one to be pushed neither out nor freed, and a counted page
is out. -/
structure Inv (place : Nat → Place) (d : Data) : Prop extends d.Sound where
  counted : ∀ p, 0 < d.cnt p → d.out p = true
  setting : ∀ a p, (place a).setting = some p → d.out p = true ∧ d.cnt p ≤ 0
  alone : ∀ a b p, (place a).setting = some p → (place b).setting = some p → a = b
  pending : ∀ a p, (place a).pending = some p → d.out p = false ∧ d.freed p = false
  single : ∀ a b p, (place a).pending = some p → (place b).pending = some p → a = b

variable {place : Nat → Place} {d : Data} {s s' : State} {a : Nat} {c : Place} {e : SpinEvent Place}
  {es : List (SpinEvent Place)}

section
variable (h : Inv place d)
include h

theorem Inv.move (hs : c.setting = none ∨ c.setting = (place a).setting)
    (hp : c.pending = none ∨ c.pending = (place a).pending) : Inv (update place a c) d := by
  obtain ⟨hsound, hcounted, hsetting, halone, hpending, hsingle⟩ := h
  refine ⟨hsound, hcounted, ?_, ?_, ?_, ?_⟩ <;> grind

theorem Inv.pop (hl : d.freelist i = r :: rest)
    (hs : c.setting = some r) (hp : c.pending = none) :
    Inv (update place a c) (d.pop i r rest) := by
  have hfreed : d.freed r = true := (h.exact r).2 ⟨i, hl ▸ List.mem_cons_self⟩
  have hnodup := h.nodup i
  rw [hl, List.nodup_cons] at hnodup
  have hmem (j : Cpu) (p : Nat) : p ∈ update d.freelist i rest j ↔ p ∈ d.freelist j ∧ p ≠ r := by
    have := h.apart i j r (hl ▸ List.mem_cons_self)
    grind
  obtain ⟨⟨hnd, hapart, hexact, honce⟩, hcounted, hsetting, halone, hpending, hsingle⟩ := h
  unfold Data.pop
  refine ⟨⟨?_, ?_, ?_, ?_⟩, ?_, ?_, ?_, ?_, ?_⟩ <;> grind

theorem Inv.dec {id : Cpu} {pa : Nat} (hc : place a = .dec id pa) :
    Inv (update place a (if d.cnt pa - 1 = 0 then .push id pa else .idle)) (d.dec pa) := by
  have hset : (place a).setting = none := by rw [hc]; rfl
  have hpend : (place a).pending = none := by rw [hc]; rfl
  by_cases hz : d.cnt pa - 1 = 0
  · have hout := h.counted pa (by omega)
    have hs : (Place.push id pa).setting = none := rfl
    have hp : (Place.push id pa).pending = some pa := rfl
    obtain ⟨⟨hnd, hapart, hexact, honce⟩, hcounted, hsetting, halone, hpending, hsingle⟩ := h
    simp only [Data.dec, if_pos hz]
    refine ⟨⟨hnd, hapart, hexact, ?_⟩, ?_, ?_, ?_, ?_, ?_⟩ <;> simp only [update_apply] <;> grind
  · simp only [Data.dec, if_neg hz]
    have h' := h.move (a := a) (c := .idle) (.inl rfl) (.inl rfl)
    refine ⟨⟨h.nodup, h.apart, h.exact, h.once⟩, fun p => ?_, fun b p hb => ?_, h'.alone,
      h'.pending, h'.single⟩
    · have := h.counted p
      simp only [update_apply]
      grind
    · have := h'.setting b p hb
      simp only [update_apply]
      grind

theorem Inv.push {id : Cpu} {pa : Nat} (hc : place a = .pushed id pa) :
    Inv (update place a .idle) (d.push id pa) := by
  have hpend : (place a).pending = some pa := by rw [hc]; rfl
  have hs : Place.idle.setting = none := rfl
  have hp : Place.idle.pending = none := rfl
  obtain ⟨hout, hfreed⟩ := h.pending a pa hpend
  have hno (i : Cpu) : pa ∉ d.freelist i := fun hm => by
    have := (h.exact pa).2 ⟨i, hm⟩
    simp [hfreed] at this
  obtain ⟨⟨hnd, hapart, hexact, honce⟩, hcounted, hsetting, halone, hpending, hsingle⟩ := h
  have hmem (j : Cpu) (p : Nat) :
      p ∈ update d.freelist id (pa :: d.freelist id) j ↔ p ∈ d.freelist j ∨ p = pa ∧ j = id := by
    grind
  unfold Data.push
  refine ⟨⟨?_, ?_, ?_, ?_⟩, ?_, ?_, ?_, ?_, ?_⟩ <;> grind

theorem Inv.count {id : Cpu} {l : Option Cpu} {r : Nat}
    (hc : place a = .counted id l r) (hs : c.setting = none) (hp : c.pending = none) :
    Inv (update place a c) { d with cnt := update d.cnt r 1 } := by
  have hset : (place a).setting = some r := by rw [hc]; rfl
  obtain ⟨hout, hcnt⟩ := h.setting a r hset
  obtain ⟨hsound, hcounted, hsetting, halone, hpending, hsingle⟩ := h
  refine ⟨⟨hsound.1, hsound.2, hsound.3, hsound.4⟩, ?_, ?_, ?_, ?_,
    ?_⟩ <;> simp only [update_apply] <;>
    grind

theorem Inv.acquire (hact : act d (place a) ok = some (.acquire x c)) :
    Inv (update place a c) d := by
  cases hc : place a <;> simp only [hc, act] at hact
  case own | other => split at hact <;> cases hact
  case scan =>
    split at hact
    · split at hact
      · cases hact
      · cases hact
        exact h.move (.inl rfl) (.inl rfl)
    · cases hact
  all_goals cases hact
  all_goals exact h.move (by rw [hc]; exact .inr rfl) (by rw [hc]; exact .inr rfl)

theorem Inv.release {ok : Bool} {x : Lock} {d' : Data}
    (hact : act d (place a) ok = some (.release x c d')) : Inv (update place a c) d' := by
  cases hc : place a <;> simp only [hc, act] at hact
  case own => split at hact <;> cases hact
  case scan => split at hact <;> (try split at hact) <;> cases hact
  case other =>
    split at hact
    · cases hact
    · cases hact
      exact h.move (.inl rfl) (.inl rfl)
  case counted id l r =>
    cases hact
    cases l with
    | none => exact h.count hc rfl rfl
    | some k => exact h.count hc rfl rfl
  case dec =>
    cases hact
    exact h.dec hc
  case pushed =>
    cases hact
    exact h.push hc
  all_goals cases hact
  all_goals exact h.move (.inl rfl) (.inl rfl)

theorem Inv.goto (hact : act d (place a) ok = some (.goto c d')) : Inv (update place a c) d' := by
  cases hc : place a <;> simp only [hc, act] at hact
  case own | other =>
    split at hact
    · next hl =>
      cases hact
      exact h.pop hl rfl rfl
    · cases hact
      try exact h.move (.inl rfl) (.inl rfl)
  case scan =>
    split at hact
    · split at hact
      · cases hact
        exact h.move (.inl rfl) (.inl rfl)
      · cases hact
    · cases hact
      exact h.move (.inl rfl) (.inl rfl)
  all_goals cases hact

end

theorem Inv.fire (h : Inv s.place s.data) (hf : fire s e = some s') : Inv s'.place s'.data := by
  refine SpinState.fire_invariant (I := Inv) (fun a c hc => ?_) (fun a ok x c => h.acquire)
    (fun a ok x c d => h.release) (fun a ok c d => h.goto) h hf
  obtain ⟨-, id, rfl | ⟨pa, rfl⟩⟩ := hc <;> exact h.move (.inl rfl) (.inl rfl)

/-- The locks that a CPU has at a place, the last one first. -/
def Place.locks : Place → List Lock
  | idle | alloc _ | free _ _ | push _ _ => []
  | own id | scan id _ | dropOwn id | pushed id _ | set id none _ => [.kmem id]
  | other id antid | dropOther id antid | set id (some antid) _ => [.kmem antid, .kmem id]
  | counted id none _ => [.ref, .kmem id]
  | counted id (some antid) _ => [.ref, .kmem antid, .kmem id]
  | dec _ _ => [.ref]

inductive Acquires : Place → Lock → Place → Prop
  | alloc {id : Cpu} : Acquires (.alloc id) (.kmem id) (.own id)
  | scan {id antid : Cpu} (hne : antid ≠ id) :
    Acquires (.scan id antid) (.kmem antid) (.other id antid)
  | set {id : Cpu} {l : Option Cpu} {r : Nat} : Acquires (.set id l r) .ref (.counted id l r)
  | free {id : Cpu} {pa : Nat} : Acquires (.free id pa) .ref (.dec id pa)
  | push {id : Cpu} {pa : Nat} : Acquires (.push id pa) (.kmem id) (.pushed id pa)

theorem acquire_cases (h : act d c ok = some (.acquire x c')) : Acquires c x c' := by
  cases c <;> simp only [act] at h
  case own | other => split at h <;> cases h
  case scan id antid =>
    split at h
    · next hlt =>
      split at h
      · cases h
      · next hne =>
        cases h
        have hother : (⟨antid, hlt⟩ : Cpu) ≠ id := fun he => hne (by rw [← he])
        exact .scan hother
    · cases h
  all_goals
    cases h
    try constructor

theorem follows_locks : SpinState.Follows act Entry Place.locks where
  start c c' h := by
    obtain ⟨rfl, id, rfl | ⟨pa, rfl⟩⟩ := h <;> rfl
  acquire d c ok x c' h := by
    cases acquire_cases h with
    | @set id l r => cases l <;> rfl
    | _ => rfl
  release d c ok x c' d' h := by
    cases c <;> simp only [act] at h
    case counted id l r => cases l <;> cases h <;> simp [Place.locks]
    case own => split at h <;> cases h
    case other => split at h <;> cases h; simp [Place.locks]
    case scan => split at h <;> (try split at h) <;> cases h
    all_goals cases h <;> simp [Place.locks]
  goto d c ok c' d' h := by
    cases c <;> simp only [act] at h
    case own | other => split at h <;> cases h <;> simp [Place.locks]
    case scan => split at h <;> (try split at h) <;> cases h <;> simp [Place.locks]
    all_goals cases h

/-- A CPU has the lock `x` and spins in `kalloc_try` for the lock `y` of another list. -/
def State.Seeks (s : State) (x y : Lock) : Prop :=
  ∃ a id antid, s.place a = .other id antid ∧ s.spins a = some y ∧ s.holder x = some a

/-- A CPU with the lock `x` of its empty list comes to the lock `y` of another list. -/
def State.Steals (s : State) : SpinEvent Place → Lock → Lock → Prop
  | .start _ _, _, _ => False
  | .step a _, x, y => s.spins a = none ∧ s.holder x = some a ∧
      ∃ id antid : Cpu, s.place a = .scan id antid ∧ antid ≠ id ∧ y = .kmem antid

/-- The lock a CPU comes to for a page of another list does not lead, by CPUs that do so, to one it
has. -/
def State.Clear (s : State) (e : SpinEvent Place) : Prop :=
  ∀ x y, s.Steals e x y → ¬ ReflTransGen s.Seeks y x

def Held (s : State) : Prop := SpinState.Holds act Place.locks s

theorem Held.fired (h : Held s) (hf : fire s e = some s') : Held s' :=
  SpinState.Holds.fire follows_locks h hf

theorem Held.ref_last (h : Held s) (y : Lock) : ¬ s.Needs .ref y := by
  intro ⟨a, hx, hy⟩
  obtain ⟨d, c, ok, c', -, hact, hmem⟩ := SpinState.Holds.before follows_locks h hx hy
  cases acquire_cases hact with
  | @set id l r => cases l <;> simp [Place.locks] at hmem
  | _ => simp [Place.locks] at hmem

/-- The reference lock is the last that a CPU takes, so only lists can be in a cycle. -/
theorem Held.live_iff (h : Held s) : s.Live ↔ Acyclic s.Seeks := by
  rw [SpinState.live_iff_needs]
  constructor
  · exact fun hneeds => hneeds.mono fun x y ⟨a, _, _, _, hy, hx⟩ => ⟨a, hx, hy⟩
  · refine fun hseeks => hseeks.of_ends fun x y ⟨a, hx, hy⟩ => ?_
    obtain ⟨d, c, ok, c', hc, hact, hmem⟩ := SpinState.Holds.before follows_locks h hx hy
    cases acquire_cases hact with
    | scan => exact .inl ⟨a, _, _, hc, hy, hx⟩
    | set => exact .inr h.ref_last
    | _ => simp [Place.locks] at hmem

theorem seeks_fire (hf : fire s e = some s') (x y : Lock) (h : s'.Seeks x y) :
    s.Seeks x y ∨ s.Steals e x y := by
  obtain ⟨b, id, antid, hplace, hspins, hholder⟩ := h
  have hx := SpinState.holder_cases hf (by simp [hspins]) hholder
  obtain ⟨hy, hsame⟩ | ⟨hnone, ok, rfl, hact⟩ := SpinState.spins_cases hf hspins
  · exact .inl ⟨b, id, antid, hsame ▸ hplace, hy, hx⟩
  · generalize hc : s.place b = c at hact
    rw [hplace] at hact
    cases acquire_cases hact with
    | scan hne => exact .inr ⟨hnone, hx, id, antid, hc, hne, rfl⟩

/-- A CPU that looks through the other lists has no lock but that of its own list. -/
theorem Held.steals_eq (h : Held s) (hxy : s.Steals e x y) (huv : s.Steals e u v) :
    u = x ∧ v = y := by
  cases e with
  | start a c => exact hxy.elim
  | step a ok =>
    obtain ⟨ha, hx, id, antid, hc, -, rfl⟩ := hxy
    obtain ⟨-, hu, id', antid', hc', -, rfl⟩ := huv
    have hmem := h.holder a x hx
    have hmem' := h.holder a u hu
    simp only [SpinState.has, ha, hc, if_true, Place.locks, List.mem_singleton] at hmem hmem'
    simp only [hc, Place.scan.injEq, Fin.val_inj] at hc'
    exact ⟨by rw [hmem, hmem'], by rw [hc'.2]⟩

theorem Held.seeks_steal (h : Held s) (hf : fire s e = some s') (hxy : s.Steals e x y)
    (u v : Lock) : s'.Seeks u v ↔ s.Seeks u v ∨ u = x ∧ some y = some v := by
  constructor
  · intro hs
    refine (seeks_fire hf u v hs).imp_right fun hst => ?_
    obtain ⟨hu, hv⟩ := h.steals_eq hxy hst
    exact ⟨hu, by rw [hv]⟩
  · cases e with
    | start a c => exact hxy.elim
    | step a ok =>
      obtain ⟨ha, hx, id, antid, hc, hne, rfl⟩ := hxy
      have hne' : ¬ antid.val = id.val := fun he => hne (Fin.ext he)
      simp only [fire, SpinState.fire, SpinState.step, ha, hc, act, antid.isLt, dif_pos,
        if_neg hne'] at hf
      cases hf
      rintro (⟨b, i, j, hb, hspins, hholder⟩ | ⟨rfl, hv⟩)
      · have hba : b ≠ a := fun he => by simp [he, ha] at hspins
        exact ⟨b, i, j, by simpa [hba] using hb, by simpa [hba] using hspins, hholder⟩
      · exact ⟨a, id, antid, by simp, by simpa using hv, hx⟩

theorem Held.clear_iff (h : Held s) (hacyc : Acyclic s.Seeks) (hf : fire s e = some s') :
    Acyclic s'.Seeks ↔ s.Clear e := by
  by_cases hst : ∃ x y, s.Steals e x y
  · obtain ⟨x, y, hxy⟩ := hst
    rw [hacyc.edge_iff (h.seeks_steal hf hxy)]
    constructor
    · intro hno u v huv
      obtain ⟨rfl, rfl⟩ := h.steals_eq hxy huv
      exact hno v rfl
    · rintro hclear b ⟨⟩
      exact hclear x y hxy
  · have hsub := fun x y hs => (seeks_fire hf x y hs).resolve_right fun hxy => hst ⟨x, y, hxy⟩
    exact iff_of_true (hacyc.mono hsub) fun x y hxy => (hst ⟨x, y, hxy⟩).elim

/-- No cycle of CPUs waits for locks of the allocator, and the free lists are sound. -/
structure Allocates (s : State) : Prop where
  live : s.Live
  sound : s.data.Sound

structure Started (s : State) : Prop where
  holder : ∀ x, s.holder x = none
  spins : ∀ a, s.spins a = none
  place : ∀ a, s.place a = .idle
  sound : s.data.Sound
  counted : ∀ p, 0 < s.data.cnt p → s.data.out p = true

theorem Started.inv (h : Started s) : Inv s.place s.data :=
  ⟨h.sound, h.counted, by simp [h.place, Place.setting], by simp [h.place, Place.setting],
    by simp [h.place, Place.pending], by simp [h.place, Place.pending]⟩

/-- The allocator is right in every run, and has no deadlock exactly if no CPU that steals a page
closes a cycle. -/
theorem kmem_allocates_iff (h : Started s) : Always fire Allocates s es ↔
    Along fire State.Clear s es := by
  refine always_iff_along (I := fun s => s.Live ∧ Held s ∧ Inv s.place s.data)
    (fun s hs => ⟨hs.1, hs.2.2.toSound⟩) (fun s e s' hs hclear hf => ?_)
    (fun s e s' hs hclear hf hs' => hclear ?_) ⟨?_, SpinState.Holds.of_idle h.spins h.holder, h.inv⟩
  · have hheld' := hs.2.1.fired hf
    have hseeks := (hs.2.1.clear_iff (hs.2.1.live_iff.1 hs.1) hf).2 hclear
    exact ⟨hheld'.live_iff.2 hseeks, hheld', hs.2.2.fire hf⟩
  · have hheld' := hs.2.1.fired hf
    exact (hs.2.1.clear_iff (hs.2.1.live_iff.1 hs.1) hf).1 (hheld'.live_iff.1 hs'.live)
  · exact SpinState.live_of_spins h.spins

def boot : State where
  holder _ := none
  spins _ := none
  place _ := .idle
  data := ⟨fun i => if i = 2 then [7] else [], fun _ => 0, fun _ => false, fun p => decide (p = 7)⟩

theorem boot_started : Started boot := by
  refine ⟨fun _ => rfl, fun _ => rfl, fun _ => rfl,
    ⟨fun i => ?_, fun i j p => ?_, fun p => ?_, fun _ _ => rfl⟩, fun p hp => by simp [boot] at hp⟩
  · simp only [boot]
    split <;> simp
  · simp only [boot]
    split <;> split <;> simp_all
  · simp [boot]

/-- The lists that CPUs look through are not locked. -/
def State.Calm (s : State) : SpinEvent Place → Prop
  | .start _ _ => True
  | .step a _ => ∀ id antid : Cpu, s.place a = .scan id antid → antid ≠ id →
      s.holder (.kmem antid) = none

instance (s : State) : (e : SpinEvent Place) → Decidable (s.Calm e)
  | .start _ _ => inferInstanceAs (Decidable True)
  | .step _ _ => inferInstanceAs (Decidable (∀ _ _, _))

theorem State.Calm.clear (h : s.Calm e) : s.Clear e := by
  intro x y hst hpath
  cases e with
  | start a c => exact hst
  | step a ok =>
    obtain ⟨-, hx, id, antid, hc, hne, rfl⟩ := hst
    have hfree := h id antid hc hne
    obtain rfl | ⟨z, ⟨b, i, j, -, -, hb⟩, -⟩ := hpath.cases_head
    · simp [hfree] at hx
    · simp [hfree] at hb

/-- CPU 0 takes the page of CPU 2, which waits for its own list and finds it empty. -/
def stealing : List (SpinEvent Place) :=
  .start 0 (.alloc 0) :: SpinEvent.steps 0 9 ++ [.start 2 (.alloc 2), .step 2 true] ++
    SpinEvent.steps 0 6 ++ SpinEvent.steps 2 4

theorem kmem_allocates_boot : Started boot ∧ (runEvents fire boot stealing).isSome ∧
    Along fire State.Clear boot stealing ∧ Always fire Allocates boot stealing := by
  have hcalm : Along fire State.Calm boot stealing := by decide +kernel
  have hclear : Along fire State.Clear boot stealing :=
    hcalm.steps (I := fun _ => True) (fun _ _ _ _ h _ => h.clear)
      (fun _ _ _ _ _ _ => trivial) trivial
  exact ⟨boot_started, by decide +kernel, hclear, (kmem_allocates_iff boot_started).2 hclear⟩

/-- Two CPUs with empty lists keep their own locks and wait for each other's. -/
theorem stealing_deadlock : Started boot ∧ ∃ es s, runEvents fire boot es = some s ∧
    ¬ Allocates s := by
  obtain ⟨s, hs, h0, hk1, h1, hk0⟩ :
    ∃ s, runEvents fire boot (.start 0 (.alloc 0) :: SpinEvent.steps 0 3 ++
      .start 1 (.alloc 1) :: SpinEvent.steps 1 4 ++ SpinEvent.steps 0 2) = some s ∧
      s.spins 0 = some (.kmem 1) ∧ s.holder (.kmem 1) = some 1 ∧
          s.spins 1 = some (.kmem 0) ∧ s.holder (.kmem 0) = some 0 :=
    exists_of_any (by decide +kernel)
  exact ⟨boot_started, _, s, hs, fun h => h.live 0 (.tail (.single ⟨_, h0, hk1⟩) ⟨_, h1, hk0⟩)⟩

end OopsOS.Kmem
