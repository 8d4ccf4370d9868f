import Mathlib
import OopsOS.Rings
import OopsOS.Traces

namespace OopsOS.Spool
set_option autoImplicit true
open Function

def SPOOL_BUF : Nat := 4096

/-- Where a process is in `spoolwrite` or, with `i` bytes taken, in `spoolread`. -/
inductive Pc where
  | idle
  | writing (buf : List UInt8) (i : Nat) (asleep : Bool)
  | reading (n i : Nat) (asleep : Bool)
  deriving DecidableEq

def Pc.wakeReader : Pc → Pc
  | reading n i _ => reading n i false
  | c => c

def Pc.wakeWriter : Pc → Pc
  | writing buf i _ => writing buf i false
  | c => c

/-- The device, the processes that use it, and the bytes accepted and taken so far. -/
structure State (P : Type) where
  ring : Ring
  lock : Option P
  killed : P → Bool
  pc : P → Pc
  accepted : List UInt8
  taken : List UInt8

inductive Event (P : Type) where
  | write (p : P) (buf : List UInt8)
  | read (p : P) (n : Nat)
  | run (p : P)
  | kill (p : P)

variable {P : Type}

def State.unread (s : State P) : Nat := s.accepted.length - s.taken.length

/-- At most `SPOOL_BUF` bytes are unread, each in place, and those taken are the first accepted. -/
structure State.Lossless (s : State P) : Prop where
  bounded : s.unread ≤ SPOOL_BUF
  kept : ∀ i (h : i < s.accepted.length), s.taken.length ≤ i →
    s.ring.data (i % SPOOL_BUF) = s.accepted[i]
  ordered : s.taken <+: s.accepted

/-- The test with which `spoolwrite` finds the buffer full. -/
def State.full (s : State P) : Prop := (s.ring.w + 1) % 4096 = s.ring.r

instance (s : State P) : Decidable s.full := inferInstanceAs (Decidable (_ = _))

variable [DecidableEq P]

def State.setPc (s : State P) (p : P) (c : Pc) (lock : Option P) : State P :=
  { s with pc := update s.pc p c, lock := lock }

def State.spoolwrite (s : State P) (p : P) (buf : List UInt8) (i : Nat) : State P :=
  match buf[i]? with
  | none => s.setPc p .idle none
  | some c =>
    if s.full then
      if s.killed p then s.setPc p .idle none else s.setPc p (.writing buf i true) none
    else { s.setPc p (.writing buf (i + 1) false) (some p) with
      ring := s.ring.put SPOOL_BUF c
      accepted := s.accepted ++ [c]
      pc := fun q => (update s.pc p (.writing buf (i + 1) false) q).wakeReader }

def State.spoolread (s : State P) (p : P) (n i : Nat) : State P :=
  if i < n then
    if s.ring.r = s.ring.w then
      if s.killed p ∨ 0 < i then s.setPc p .idle none else s.setPc p (.reading n i true) none
    else { s.setPc p (.reading n (i + 1) false) (some p) with
      ring := s.ring.pop
      taken := s.taken ++ [s.ring.front SPOOL_BUF] }
  else { s.setPc p .idle none with pc := fun q => (update s.pc p .idle q).wakeWriter }

def fire (s : State P) : Event P → Option (State P)
  | .write p buf => if s.pc p = .idle then some (s.setPc p (.writing buf 0 false) s.lock) else none
  | .read p n => if s.pc p = .idle then some (s.setPc p (.reading n 0 false) s.lock) else none
  | .run p =>
    if s.lock = none ∨ s.lock = some p then
      match s.pc p with
      | .writing buf i false => some (s.spoolwrite p buf i)
      | .reading n i false => some (s.spoolread p n i)
      | _ => none
    else none
  | .kill p =>
    some { s.setPc p (s.pc p).wakeReader.wakeWriter s.lock with killed := update s.killed p true }

/-- A `spoolwrite` that has a byte to store finds less than `SPOOL_BUF` bytes unread. -/
def Room (s : State P) : Event P → Prop
  | .run p => ∀ buf i, s.pc p = .writing buf i false → i < buf.length → s.unread < SPOOL_BUF
  | _ => True

structure Started (s : State P) : Prop where
  ring : s.ring.r = 0 ∧ s.ring.w = 0
  accepted : s.accepted = []
  taken : s.taken = []

/-- The ring holds the bytes that are unread, and its counter is that of the bytes taken. -/
structure Inv (s : State P) : Prop where
  holds : ∃ q, s.ring.Holds SPOOL_BUF q ∧ s.accepted = s.taken ++ q
  taken : s.ring.r.toNat = s.taken.length % 2 ^ 32

variable {s s' : State P} {p : P} {buf : List UInt8} {i n : Nat} {e : Event P} {es : List (Event P)}

omit [DecidableEq P] in
theorem unread_eq (h : s.accepted = s.taken ++ q) : s.unread = q.length := by
  rw [State.unread, h, List.length_append, Nat.add_sub_cancel_left]

omit [DecidableEq P] in
theorem Inv.lossless (h : Inv s) : s.Lossless := by
  obtain ⟨q, hq, he⟩ := h.holds
  refine ⟨(unread_eq he).le.trans hq.room, fun i hi hle => ?_, he ▸ List.prefix_append ..⟩
  have hlt : i - s.taken.length < q.length := by
    rw [he, List.length_append] at hi
    omega
  have hbyte := hq.byte _ hlt
  rw [h.taken, ← Nat.mod_add_mod, Nat.mod_mod_of_dvd _ (by decide), Nat.mod_add_mod,
    Nat.add_sub_cancel' hle] at hbyte
  simp only [hbyte, he]
  rw [List.getElem_append_right hle]

omit [DecidableEq P] in
theorem Inv.not_full (h : Inv s) (hroom : s.unread = SPOOL_BUF) : ¬ s.full := by
  obtain ⟨q, hq, he⟩ := h.holds
  have hr := s.ring.r.toNat_lt
  rw [unread_eq he] at hroom
  intro hfull
  have hmod := congrArg UInt32.toNat hfull
  rw [UInt32.toNat_mod, UInt32.toNat_add, hq.count, hroom] at hmod
  change ((s.ring.r.toNat + 4096) % 2 ^ 32 + 1) % 2 ^ 32 % 4096 = _ at hmod
  omega

theorem Inv.spoolwrite (h : Inv s) (hroom : i < buf.length → s.unread < SPOOL_BUF) :
    Inv (s.spoolwrite p buf i) := by
  unfold State.spoolwrite
  cases hc : buf[i]? with
  | none => exact ⟨h.holds, h.taken⟩
  | some c =>
    dsimp only
    split
    · split <;> exact ⟨h.holds, h.taken⟩
    · obtain ⟨q, hq, he⟩ := h.holds
      have hlt := hroom (List.getElem?_eq_some_iff.1 hc).1
      rw [unread_eq he] at hlt
      refine ⟨⟨_, hq.put (by decide) hlt, ?_⟩, h.taken⟩
      show s.accepted ++ [c] = s.taken ++ (q ++ [c])
      rw [he, List.append_assoc]

theorem Inv.spoolread (h : Inv s) : Inv (s.spoolread p n i) := by
  unfold State.spoolread
  split
  · split
    · split <;> exact ⟨h.holds, h.taken⟩
    · next hne =>
      obtain ⟨q, hq, he⟩ := h.holds
      cases q with
      | nil => exact absurd ((hq.empty_iff (by decide)).2 rfl) hne
      | cons c q =>
        refine ⟨⟨q, hq.pop (by decide), ?_⟩, ?_⟩
        · show s.accepted = s.taken ++ [s.ring.front SPOOL_BUF] ++ q
          rw [hq.front_eq, he, List.append_assoc, List.singleton_append]
        · show (s.ring.r + 1).toNat = (s.taken ++ [_]).length % _
          rw [UInt32.toNat_add, h.taken, List.length_append]
          exact Nat.mod_add_mod ..
  · exact ⟨h.holds, h.taken⟩

theorem Inv.fire (h : Inv s) (hroom : Room s e) (hf : fire s e = some s') : Inv s' := by
  cases e with
  | write p buf | read p n =>
    obtain ⟨-, rfl⟩ := of_guarded hf
    exact ⟨h.holds, h.taken⟩
  | run p =>
    simp only [Spool.fire, Option.ite_none_right_eq_some] at hf
    obtain ⟨-, hf⟩ := hf
    split at hf
    · next hp =>
      cases hf
      exact h.spoolwrite (hroom _ _ hp)
    · cases hf
      exact h.spoolread
    · cases hf
  | kill p =>
    cases hf
    exact ⟨h.holds, h.taken⟩

theorem Inv.broken (h : Inv s) (hroom : ¬ Room s e) (hf : Spool.fire s e = some s') :
    ¬ s'.Lossless := by
  cases e with
  | run p =>
    simp only [Room, not_forall, not_lt] at hroom
    obtain ⟨buf, i, hp, hi, hge⟩ := hroom
    simp only [Spool.fire, hp, Option.ite_none_right_eq_some, Option.some.injEq] at hf
    obtain ⟨-, rfl⟩ := hf
    have heq : s.unread = SPOOL_BUF := h.lossless.bounded.antisymm hge
    unfold State.spoolwrite
    rw [List.getElem?_eq_getElem hi]
    dsimp only
    rw [if_neg (h.not_full heq)]
    intro hl
    have hlt : (s.accepted ++ [buf[i]]).length - s.taken.length ≤ SPOOL_BUF := hl.bounded
    unfold State.unread at heq
    rw [List.length_append, List.length_singleton] at hlt
    unfold SPOOL_BUF at *
    omega
  | write | read | kill => exact (hroom trivial).elim

omit [DecidableEq P] in
theorem Started.inv (h : Started s) : Inv s :=
  ⟨⟨[], Ring.holds_nil (h.ring.1.trans h.ring.2.symm), by rw [h.accepted, h.taken]; rfl⟩,
    by rw [h.ring.1, h.taken]; rfl⟩

/-- The device loses no byte exactly if none is written while `SPOOL_BUF` are unread: it does not
wait. -/
theorem spool_lossless_iff (h : Started s) (es : List (Event P)) :
    Always fire State.Lossless s es ↔ Along fire Room s es :=
  always_iff_along (fun _ => Inv.lossless) (fun _ _ _ h => h.fire) (fun _ _ _ h => h.broken) h.inv

def boot : State Bool := ⟨⟨fun _ => 0, 0, 0⟩, none, fun _ => false, fun _ => .idle, [], []⟩

theorem boot_started : Started boot := ⟨⟨rfl, rfl⟩, rfl, rfl⟩

theorem spool_lossless_boot : Always fire State.Lossless boot [.read false 3, .run false,
    .write true [1, 2], .run true, .run true, .run true, .run false, .run false, .run false] := by
  refine (spool_lossless_iff boot_started _).2 ?_
  refine Along.steps (I := fun _ => True) (P := fun s _ => s.unread < SPOOL_BUF) ?_
    (fun _ _ _ _ _ _ => trivial) trivial (by decide +kernel)
  intro s e s' _ hroom _
  cases e with
  | run p => exact fun _ _ _ _ => hroom
  | write | read | kill => trivial

structure Idle (k : UInt32) (s : State Bool) : Prop where
  ring : s.ring.r = k ∧ s.ring.w = k
  lock : s.lock = none
  pc : ∀ p, s.pc p = .idle
  length : s.accepted.length = s.taken.length

theorem succ_mod_ne (k : UInt32) : (k + 1) % 4096 ≠ k := by
  intro h
  have hmod := congrArg UInt32.toNat h
  have hk := k.toNat_lt
  rw [UInt32.toNat_mod, UInt32.toNat_add] at hmod
  change (k.toNat + 1) % 2 ^ 32 % 4096 = _ at hmod
  omega

theorem Idle.round {k : UInt32} {s : State Bool} (h : Idle k s) :
    ∃ s', Reaches fire (fun _ _ => True) s s' ∧ Idle (k + 1) s' := by
  obtain ⟨⟨hr, hw⟩, hl, hp, hlen⟩ := h
  have hne := succ_mod_ne k
  have hrun : ∃ s', runEvents fire s [.write true [0], .run true, .run true, .read false 1,
    .run false,
      .run false] = some s' ∧ Idle (k + 1) s' := by
    simp [runEvents, fire, State.spoolwrite, State.spoolread, State.setPc, State.full, Ring.put,
      Ring.pop, Pc.wakeReader, Pc.wakeWriter, hr, hw, hl, hp, hne]
    refine ⟨⟨rfl, rfl⟩, rfl, fun p => ?_, ?_⟩
    · cases p <;> simp
    · simp [hlen]
  obtain ⟨s', hs', h'⟩ := hrun
  exact ⟨s', .run (.of_forall (fun _ _ => trivial) _ _) hs', h'⟩

theorem idle_reached (n : Nat) : ∃ s, Reaches fire (fun _ _ => True) boot s ∧
    Idle (UInt32.ofNat n) s := by
  induction n with
  | zero => exact ⟨boot, .refl, ⟨rfl, rfl⟩, rfl, fun _ => rfl, rfl⟩
  | succ n ih =>
    obtain ⟨s, hs, hidle⟩ := ih
    obtain ⟨s', hs', hidle'⟩ := hidle.round
    exact ⟨s', hs.trans hs', by rwa [UInt32.ofNat_add]⟩

abbrev Unkilled (_ : State Bool) : Event Bool → Prop
  | .kill _ => False
  | _ => True

theorem stores_reached {k : UInt32} {s : State Bool} (h : Idle k s) (buf : List UInt8)
    (hn : n ≤ buf.length) (hroom : ∀ j < n, (k + UInt32.ofNat j + 1) % 4096 ≠ k) :
    ∃ s', Reaches fire Unkilled s s' ∧ s'.pc true = .writing buf n false ∧ s'.pc false = .idle ∧
      s'.ring.r = k ∧ s'.ring.w = k + UInt32.ofNat n ∧ (s'.lock = none ∨ s'.lock = some true) ∧
        s'.killed = s.killed ∧ s'.accepted.length = s'.taken.length + n := by
  induction n with
  | zero =>
    exact ⟨_, .single ⟨.write true buf, trivial, if_pos (h.pc true)⟩, by simp [State.setPc],
      by simp [State.setPc, h.pc], h.ring.1, by simp [State.setPc, h.ring.2], .inl h.lock, rfl,
        h.length⟩
  | succ n ih =>
    obtain ⟨s', hs', hp, hidle, hr, hw, hl, hkilled, hunread⟩ :=
      ih (Nat.le_of_succ_le hn) fun j hj => hroom j (Nat.lt_succ_of_lt hj)
    have hfull : ¬ s'.full := by
      rw [State.full, hr, hw]
      exact hroom n (Nat.lt_succ_self n)
    refine ⟨s'.spoolwrite true buf n, hs'.tail ⟨.run true, trivial, ?_⟩, ?_⟩
    · rw [fire, if_pos hl, hp]
    · unfold State.spoolwrite
      rw [List.getElem?_eq_getElem hn]
      dsimp only
      rw [if_neg hfull]
      refine ⟨by simp [Pc.wakeReader], by simp [hidle, Pc.wakeReader], hr, ?_, .inr rfl, hkilled,
        ?_⟩
      · show s'.ring.w + 1 = _
        rw [hw, UInt32.ofNat_add, UInt32.add_assoc]
        rfl
      · show (s'.accepted ++ [_]).length = s'.taken.length + (n + 1)
        rw [List.length_append, hunread]
        rfl

/-- After `SPOOL_BUF` bytes, one `spoolwrite` of more than `SPOOL_BUF` overwrites its first ones. -/
theorem spool_overrun : Started boot ∧ ∃ s, Reaches fire (fun _ _ => True) boot s ∧
    ¬ s.Lossless := by
  obtain ⟨s, hs, hidle⟩ := idle_reached 4096
  have hroom (j : Nat) (_ : j < 4097) : (4096 + UInt32.ofNat j + 1) % 4096 ≠ 4096 := by
    intro hmod
    have hlt := congrArg UInt32.toNat hmod
    rw [UInt32.toNat_mod] at hlt
    exact absurd hlt (Nat.mod_lt _ (by decide)).ne
  obtain ⟨s', hs', -, -, -, -, -, -, hunread⟩ :=
    stores_reached hidle (List.replicate 4097 0) (by rw [List.length_replicate]) hroom
  have hs' : Reaches fire (fun _ _ => True) s s' :=
    Relation.ReflTransGen.mono (fun _ _ ⟨e, _, he⟩ => ⟨e, trivial, he⟩) _ _ hs'
  refine ⟨boot_started, s', hs.trans hs', fun h => ?_⟩
  have hle : s'.accepted.length - s'.taken.length ≤ 4096 := h.bounded
  omega

def State.held (s : State P) : Nat := (s.ring.w - s.ring.r).toNat

def Pc.parked : Pc → Bool
  | writing _ _ b => b
  | _ => false

/-- The bytes that a `spoolread` wants which has not taken any. -/
def Pc.begins : Pc → Option Nat
  | reading n 0 false => some n
  | _ => none

/-- No `spoolread` that wants more than there is takes the first byte while a writer sleeps. -/
def Woken (s : State P) : Event P → Prop
  | .run p => ∀ n ∈ (s.pc p).begins, s.ring.r ≠ s.ring.w → s.held < n →
      ∀ q, (s.pc q).parked = false
  | _ => True

instance [Fintype P] (s : State P) (e : Event P) : Decidable (Woken s e) := by
  cases e <;> unfold Woken <;> infer_instance

/-- A reader with bytes comes to the wakeup if a writer sleeps, and writers sleep at a full buffer
or while it runs. -/
structure Awaited (s : State P) : Prop where
  locked : ∀ p n i b, s.pc p = .reading n i b → 0 < i → b = false ∧ s.lock = some p
  enough : ∀ p n i b, s.pc p = .reading n i b → 0 < i → ∀ q, (s.pc q).parked = true →
    n ≤ i + s.held
  asleep : ∀ q, (s.pc q).parked = true → s.full ∨ ∃ p n i b, s.pc p = .reading n i b ∧ 0 < i

omit [DecidableEq P] in
theorem Awaited.not_taking (h : Awaited s) (hl : s.lock = none ∨ s.lock = some p)
    (hp : ∀ n i b, s.pc p = .reading n i b → i = 0) (q n i b) (hq : s.pc q = .reading n i b) :
    i = 0 := by
  by_contra hi
  have hlock := (h.locked q n i b hq (Nat.pos_of_ne_zero hi)).2
  rw [hlock] at hl
  cases hl.resolve_left nofun
  exact hi (hp n i b hq)

omit [DecidableEq P] in
theorem Awaited.of_none (h : ∀ q n i b, s.pc q = .reading n i b → i = 0)
    (hfull : ∀ q, (s.pc q).parked = true → s.full) : Awaited s where
  locked q n i b hq hi := absurd (h q n i b hq) hi.ne'
  enough q n i b hq hi := absurd (h q n i b hq) hi.ne'
  asleep q hq := .inl (hfull q hq)

theorem reading_of_update (h : update s.pc p c q = .reading n i b) :
    c = .reading n i b ∨ s.pc q = .reading n i b := by
  by_cases hq : q = p
  · rw [hq, update_self] at h
    exact .inl h
  · rw [update_of_ne hq] at h
    exact .inr h

theorem parked_of_update (h : (update s.pc p c q).parked = true) (hc : c.parked = false) :
    (s.pc q).parked = true := by
  by_cases hq : q = p
  · rw [hq, update_self, hc] at h
    cases h
  · rwa [update_of_ne hq] at h

theorem Pc.wakeReader_reading {c : Pc} (h : c.wakeReader = .reading n i b) :
    ∃ b', c = .reading n i b' := by
  cases c with
  | reading _ _ b' =>
    cases h
    exact ⟨b', rfl⟩
  | _ => cases h

theorem Pc.wakeWriter_reading {c : Pc} (h : c.wakeWriter = .reading n i b) :
    c = .reading n i b := by
  cases c with
  | writing => cases h
  | _ => exact h

theorem Pc.parked_wakeReader {c : Pc} : c.wakeReader.parked = c.parked := by cases c <;> rfl

theorem Pc.parked_wakeWriter {c : Pc} : c.wakeWriter.parked = false := by cases c <;> rfl

theorem Awaited.spoolwrite (h : Awaited s) (hp : s.pc p = .writing buf i false)
    (hl : s.lock = none ∨ s.lock = some p) : Awaited (s.spoolwrite p buf i) := by
  have hnone := h.not_taking hl fun n i b hq => nomatch hp.symm.trans hq
  have hfull (q) (hq : (s.pc q).parked = true) : s.full :=
    (h.asleep q hq).resolve_right fun ⟨r, n, j, b, hr, hj⟩ => hj.ne' (hnone r n j b hr)
  unfold State.spoolwrite
  cases buf[i]? with
  | none =>
    exact .of_none (fun q n j b hq => (reading_of_update hq).elim nofun (hnone q n j b))
      fun q hq => hfull q (parked_of_update hq rfl)
  | some c =>
    dsimp only
    split
    · next hroom =>
      split <;> exact .of_none (fun q n j b hq => (reading_of_update hq).elim nofun (hnone q n j b))
        fun _ _ => hroom
    · next hroom =>
      refine .of_none (fun q n j b hq => ?_) fun q hq => ?_
      · obtain ⟨b', hq⟩ := Pc.wakeReader_reading hq
        exact (reading_of_update hq).elim nofun (hnone q n j b')
      · rw [Pc.parked_wakeReader] at hq
        exact absurd (hfull q (parked_of_update hq rfl)) hroom

omit [DecidableEq P] in
theorem held_pop (h : s.ring.r ≠ s.ring.w) :
    (s.ring.w - (s.ring.r + 1)).toNat + 1 = s.held := by
  have hne : s.ring.r.toNat ≠ s.ring.w.toNat := fun he => h (UInt32.toNat_inj.1 he)
  have hr := s.ring.r.toNat_lt
  have hw := s.ring.w.toNat_lt
  simp only [State.held, UInt32.toNat_sub, UInt32.toNat_add, UInt32.toNat_one]
  omega

theorem Awaited.spoolread (h : Awaited s) (hw : Woken s (.run p)) (hp : s.pc p = .reading n i false)
    (hl : s.lock = none ∨ s.lock = some p) : Awaited (s.spoolread p n i) := by
  have hother (q n' j b) (hq : s.pc q = .reading n' j b) (hne : q ≠ p) : j = 0 := by
    by_contra hj
    have hlock := (h.locked q n' j b hq (Nat.pos_of_ne_zero hj)).2
    rw [hlock] at hl
    exact hne (Option.some.inj (hl.resolve_left nofun))
  have hleaves {c : Pc} (hc : ∀ n i b, c = .reading n i b → i = 0) (q n' j b)
      (hq : update s.pc p c q = .reading n' j b) : j = 0 := by
    by_cases hne : q = p
    · rw [hne, update_self] at hq
      exact hc n' j b hq
    · rw [update_of_ne hne] at hq
      exact hother q n' j b hq hne
  unfold State.spoolread
  split
  · next hlt =>
    split
    · next hempty =>
      have hheld : s.held = 0 := by rw [State.held, hempty, UInt32.sub_self]; rfl
      -- a reader that has taken bytes leaves no sleeping writer, since it has not got all it wants
      have hfull (q) (hq : (s.pc q).parked = true) : s.full := by
        refine (h.asleep q hq).resolve_right fun ⟨r, n', j, b, hr, hj⟩ => ?_
        by_cases hne : r = p
        · rw [hne, hp] at hr
          cases hr
          have := h.enough p n i false hp hj q hq
          omega
        · exact hj.ne' (hother r n' j b hr hne)
      split
      · exact .of_none (hleaves nofun) fun q hq => hfull q (parked_of_update hq rfl)
      · next hno =>
        have hi : i = 0 := by
          by_contra hi
          exact hno (.inr (Nat.pos_of_ne_zero hi))
        refine .of_none (hleaves ?_) fun q hq => hfull q (parked_of_update hq rfl)
        rintro _ _ _ ⟨⟩
        exact hi
    · next hne =>
      have htaker (q n' j b) (hq : update s.pc p (.reading n (i + 1) false) q = .reading n' j b)
          (hj : 0 < j) : q = p ∧ n' = n ∧ j = i + 1 ∧ b = false := by
        by_cases hqp : q = p
        · rw [hqp, update_self] at hq
          cases hq
          exact ⟨hqp, rfl, rfl, rfl⟩
        · exact absurd (hother q n' j b ((update_of_ne hqp ..).symm.trans hq) hqp) hj.ne'
      refine ⟨fun q n' j b hq hj => ?_, fun q n' j b hq hj r hr => ?_, fun _ _ => .inr ?_⟩
      · obtain ⟨rfl, -, -, rfl⟩ := htaker q n' j b hq hj
        exact ⟨rfl, rfl⟩
      · obtain ⟨-, rfl, rfl, -⟩ := htaker q n' j b hq hj
        replace hr : (s.pc r).parked = true := parked_of_update hr rfl
        have hle : n' ≤ i + s.held := by
          by_cases hi : i = 0
          · by_contra hgt
            have hnone := hw n' (by rw [hp, hi]; rfl) hne (by omega) r
            exact absurd (hr.symm.trans hnone) nofun
          · exact h.enough p n' i false hp (Nat.pos_of_ne_zero hi) r hr
        show n' ≤ i + 1 + (s.ring.w - (s.ring.r + 1)).toNat
        have hpop := held_pop hne
        omega
      · exact ⟨p, n, i + 1, false, update_self .., Nat.succ_pos i⟩
  · refine .of_none (fun q n' j b hq => ?_) fun q hq => ?_
    · exact hleaves (c := .idle) nofun q n' j b (Pc.wakeWriter_reading hq)
    · exact absurd (hq.symm.trans Pc.parked_wakeWriter) (by simp)

theorem Awaited.of_update (h : Awaited s) (hring : s'.ring = s.ring) (hlock : s'.lock = s.lock)
    (hpc : s'.pc = update s.pc p c) (hparked : c.parked = false)
    (hc : ∀ n i b, c = .reading n i b → 0 < i → b = false ∧ ∃ b', s.pc p = .reading n i b')
    (hp : ∀ n i b, s.pc p = .reading n i b → 0 < i → c = .reading n i b) : Awaited s' := by
  have hback (q n i b) (hq : s'.pc q = .reading n i b) (hi : 0 < i) : s.pc q = .reading n i b := by
    rw [hpc] at hq
    by_cases hqp : q = p
    · rw [hqp] at hq ⊢
      rw [update_self] at hq
      obtain ⟨rfl, b', hb'⟩ := hc n i b hq hi
      obtain ⟨rfl, -⟩ := h.locked p n i b' hb' hi
      exact hb'
    · rwa [update_of_ne hqp] at hq
  have hasleep (q) (hq : (s'.pc q).parked = true) : (s.pc q).parked = true := by
    rw [hpc] at hq
    exact parked_of_update hq hparked
  refine ⟨fun q n i b hq hi => hlock ▸ h.locked q n i b (hback q n i b hq hi) hi,
    fun q n i b hq hi r hr => ?_, fun q hq => ?_⟩
  · rw [State.held, hring]
    exact h.enough q n i b (hback q n i b hq hi) hi r (hasleep r hr)
  · refine (h.asleep q (hasleep q hq)).imp (fun hfull => ?_) fun ⟨r, n, i, b, hr, hi⟩ => ?_
    · rwa [State.full, hring]
    · refine ⟨r, n, i, b, ?_, hi⟩
      rw [hpc]
      by_cases hrp : r = p
      · rw [hrp, update_self]
        exact hp n i b (hrp ▸ hr) hi
      · rwa [update_of_ne hrp]

theorem Awaited.fire (h : Awaited s) (hw : Woken s e) (hf : fire s e = some s') : Awaited s' := by
  cases e with
  | write p buf =>
    obtain ⟨hp, rfl⟩ := of_guarded hf
    exact h.of_update rfl rfl rfl rfl nofun fun _ _ _ hq => nomatch hp.symm.trans hq
  | read p n =>
    obtain ⟨hp, rfl⟩ := of_guarded hf
    refine h.of_update rfl rfl rfl rfl ?_ fun _ _ _ hq => nomatch hp.symm.trans hq
    rintro _ _ _ ⟨⟩ hi
    exact absurd hi (Nat.lt_irrefl 0)
  | run p =>
    simp only [Spool.fire, Option.ite_none_right_eq_some] at hf
    obtain ⟨hl, hf⟩ := hf
    split at hf
    · next hp =>
      cases hf
      exact h.spoolwrite hp hl
    · next hp =>
      cases hf
      exact h.spoolread hw hp hl
    · cases hf
  | kill p =>
    cases hf
    refine h.of_update rfl rfl rfl Pc.parked_wakeWriter (fun n i b hc hi => ?_) fun n i b hq hi =>
      ?_
    · obtain ⟨b', hb'⟩ := Pc.wakeReader_reading (Pc.wakeWriter_reading hc)
      rw [hb'] at hc
      cases hc
      exact ⟨rfl, b', hb'⟩
    · obtain ⟨rfl, -⟩ := h.locked p n i b hq hi
      rw [hq]
      rfl

/-- A spool that is full by the test of `spoolwrite`. -/
def filled : State Bool :=
  ⟨⟨fun _ => 0, 5, 4100⟩, none, fun _ => false, fun _ => .idle, List.replicate 4100 0,
    List.replicate 5 0⟩

end OopsOS.Spool
