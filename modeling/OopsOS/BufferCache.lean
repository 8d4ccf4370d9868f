import OopsOS.Admission
import OopsOS.Procs

namespace OopsOS.Bcache
set_option autoImplicit true
open Function

abbrev NBUCKET : Nat := 13
def ROOTDEV : Nat := 1

structure Buf where
  valid : Bool
  dev : Nat
  blockno : Nat
  lock : Option ProcSlot
  refcnt : UInt32
  refbit : Bool

structure State where
  buf : Fin NBUF → Buf
  buckets : Nat → List (Fin NBUF)
  clockHand : Fin NBUF
  raDev : Nat
  raBlockno : Nat
  log : Log

inductive Stop where
  | noBuffers
  | waits (b : Fin NBUF)
  | brelse
  | bwrite
deriving DecidableEq

/-- Calls are made one after another, and one that has to wait for a buffer stops. -/
abbrev BM (α : Type) := Comp State Stop α

def binit : State where
  buf _ := ⟨false, 0, 0, none, 0, false⟩
  buckets k := if k = 0 then (List.finRange NBUF).reverse else []
  clockHand := 0
  raDev := 2 ^ 32 - 1
  raBlockno := 0
  log := ⟨[], 0, false⟩

def State.setBuf (s : State) (b : Fin NBUF) (x : Buf) : State := { s with buf := update s.buf b x }

def setBuf (b : Fin NBUF) (f : Buf → Buf) : BM Unit := modify fun s => s.setBuf b (f (s.buf b))

def State.find (s : State) (dev blockno : Nat) : Option (Fin NBUF) :=
  (s.buckets (blockno % NBUCKET)).find? fun b => (s.buf b).dev = dev ∧ (s.buf b).blockno = blockno

def acquiresleep (p : ProcSlot) (b : Fin NBUF) : BM Unit := do
  match ((← get).buf b).lock with
  | some _ => throw (.waits b)
  | none => setBuf b ({ · with lock := some p })

def hit (p : ProcSlot) (b : Fin NBUF) : BM (Option (Fin NBUF)) := do
  setBuf b fun x => { x with refcnt := x.refcnt + 1, refbit := true }
  acquiresleep p b
  return some b

def State.claim (s : State) (b : Fin NBUF) : State :=
  { s.setBuf b { s.buf b with refcnt := 1 } with buckets := fun k => (s.buckets k).erase b }

def scan : Nat → State → Option (Fin NBUF) × State
  | 0, s => (none, s)
  | n + 1, s =>
    let b := s.clockHand
    let s := { s with clockHand := b + 1 }
    if (s.buf b).refcnt = 0 then
      if (s.buf b).refbit = true then scan n (s.setBuf b { s.buf b with refbit := false })
      else (some b, s.claim b)
    else scan n s

def State.insert (s : State) (b : Fin NBUF) (dev blockno : Nat) : State :=
  { s.setBuf b { s.buf b with dev, blockno, valid := false, refbit := true } with
    buckets := update s.buckets (blockno % NBUCKET) (b :: s.buckets (blockno % NBUCKET)) }

def evict (p : ProcSlot) (dev blockno : Nat) (mustSucceed : Bool) : BM (Option (Fin NBUF)) := do
  let (victim, s) := scan (2 * NBUF) (← get)
  set s
  match victim with
  | none => if mustSucceed = true then throw .noBuffers else return none
  | some b =>
    modify (·.insert b dev blockno)
    acquiresleep p b
    return some b

def bgetCommon (p : ProcSlot) (dev blockno : Nat) (mustSucceed : Bool) :
    BM (Option (Fin NBUF)) := do
  match (← get).find dev blockno with
  | some b => hit p b
  | none =>
    -- the second look is made under `evict_lock`
    match (← get).find dev blockno with
    | some b => hit p b
    | none => evict p dev blockno mustSucceed

def shouldReadahead (dev blockno : Nat) : BM Bool := do
  let s ← get
  set { s with raDev := dev, raBlockno := blockno }
  return decide (s.raDev = dev ∧ (s.raBlockno + 1) % 2 ^ 32 = blockno)

def brelse (p : ProcSlot) (b : Fin NBUF) : BM Unit := do
  if ((← get).buf b).lock = some p then
    setBuf b fun x => { x with lock := none, refcnt := x.refcnt - 1 }
  else throw .brelse

def readahead (p : ProcSlot) (dev blockno : Nat) : BM Unit := do
  if blockno ≥ FSSIZE ∨ ((← get).find dev blockno).isSome then return
  match ← bgetCommon p dev blockno false with
  | none => return
  | some b =>
    setBuf b ({ · with valid := true, refbit := false })
    brelse p b

def bread (p : ProcSlot) (dev blockno : Nat) : BM (Fin NBUF) := do
  match ← bgetCommon p dev blockno true with
  | none => throw .noBuffers
  | some b =>
    setBuf b ({ · with valid := true })
    if ← shouldReadahead dev blockno then readahead p dev ((blockno + 1) % 2 ^ 32)
    return b

def bwrite (p : ProcSlot) (b : Fin NBUF) : BM Unit := do
  if ((← get).buf b).lock = some p then return else throw .bwrite

def bunpin (b : Fin NBUF) : BM Unit := setBuf b fun x => { x with refcnt := x.refcnt - 1 }

def setLog (f : Log → Log) : BM Unit := modify fun s => { s with log := f s.log }

def installTrans (p : ProcSlot) (tail : Nat) : List Nat → BM Unit
  | [] => pure ()
  | n :: rest => do
    let lbuf ← bread p ROOTDEV (sb.logstart + tail + 1)
    let dbuf ← bread p ROOTDEV n
    bwrite p dbuf
    bunpin dbuf
    brelse p lbuf
    brelse p dbuf
    installTrans p (tail + 1) rest

/-- `header` is what the block on disk has. -/
def readHead (p : ProcSlot) (header : List Nat) : BM Unit := do
  let b ← bread p ROOTDEV sb.logstart
  setLog ({ · with lh := header })
  brelse p b

def writeHead (p : ProcSlot) : BM Unit := do
  let b ← bread p ROOTDEV sb.logstart
  bwrite p b
  brelse p b

def recoverFromLog (p : ProcSlot) (header : List Nat) : BM Unit := do
  readHead p header
  installTrans p 0 header
  setLog ({ · with lh := [] })
  writeHead p

variable {s s' : State} {p : ProcSlot} {b : Fin NBUF} {dev n k : Nat} {m : Bool}

def State.hand (s : State) (k : Nat) : Fin NBUF := s.clockHand + Fin.ofNat NBUF k

def State.swept (s : State) (k : Nat) : State :=
  { s with
    buf := fun b => { s.buf b with
      refbit := (s.buf b).refbit && !decide ((s.buf b).refcnt = 0 ∧ ∃ l < k, s.hand l = b) }
    clockHand := s.hand k }

def State.Takes (s : State) (k : Nat) : Prop :=
  (s.buf (s.hand k)).refcnt = 0 ∧ ((s.buf (s.hand k)).refbit = true → ∃ l < k, s.hand l = s.hand k)

theorem swept_zero : s.swept 0 = s := by simp [State.swept, State.hand]

theorem val_hand : (s.hand k).val = (s.clockHand.val + k) % 30 := by simp [State.hand, Fin.val_add]

theorem hand_succ : s.hand (k + 1) = s.hand k + 1 := by
  refine Fin.ext ?_
  rw [val_hand, Fin.val_add, val_hand, ← add_assoc]
  exact (Nat.mod_add_mod _ _ _).symm

theorem exists_hand (s : State) (b : Fin NBUF) : ∃ k < NBUF, s.hand k = b := by
  refine ⟨(b.val + 30 - s.clockHand.val) % 30, Nat.mod_lt _ (by decide), Fin.ext ?_⟩
  have hb : b.val < 30 := b.isLt
  have hs : s.clockHand.val < 30 := s.clockHand.isLt
  rw [val_hand]
  omega

theorem second_lap (h : ∃ l < k, s.hand l = s.hand k) : NBUF ≤ k := by
  obtain ⟨l, hl, heq⟩ := h
  replace heq := congrArg Fin.val heq
  rw [val_hand, val_hand] at heq
  change 30 ≤ k
  omega

def State.pass (s : State) : State :=
  let b := s.buf s.clockHand
  { s.setBuf s.clockHand { b with refbit := b.refbit && b.refcnt ≠ 0 } with clockHand :=
    s.clockHand + 1 }

theorem scan_pass (h : (s.buf s.clockHand).refcnt = 0 → (s.buf s.clockHand).refbit = true) :
    scan (n + 1) s = scan n s.pass := by
  rw [scan, State.pass]
  by_cases hcnt : (s.buf s.clockHand).refcnt = 0
  · simp [hcnt, h hcnt, State.setBuf]
  · simp [hcnt, State.setBuf]

theorem swept_succ : s.swept (k + 1) = (s.swept k).pass := by
  simp only [State.swept, State.pass, State.setBuf, hand_succ, State.mk.injEq, and_self, and_true]
  funext b
  have hlt : (∃ l < k + 1, s.hand l = b) ↔ (∃ l < k, s.hand l = b) ∨ s.hand k = b := by
    simp only [Nat.lt_succ_iff_lt_or_eq, or_and_right, exists_or, exists_eq_left]
  simp only [hlt]
  by_cases hb : b = s.hand k
  · subst hb
    rw [update_self]
    by_cases hcnt : (s.buf (s.hand k)).refcnt = 0 <;> simp [hcnt]
  · rw [update_of_ne hb]
    simp only [Ne.symm hb, or_false]

theorem scan_skip (h : ¬ s.Takes k) : scan (n + 1) (s.swept k) = scan n (s.swept (k + 1)) := by
  rw [swept_succ]
  refine scan_pass fun hcnt => ?_
  obtain ⟨hbit, hnew⟩ := Classical.not_imp.1 fun h' => h ⟨hcnt, h'⟩
  simp [State.swept, hbit] at hnew ⊢
  exact .inr hnew

theorem scan_take (h : s.Takes k) : scan (n + 1) (s.swept k) =
    (some (s.hand k), { s.swept k with clockHand := s.hand k + 1 }.claim (s.hand k)) := by
  have hcnt : ((s.swept k).buf (s.swept k).clockHand).refcnt = 0 := h.1
  have hbit : ((s.swept k).buf (s.swept k).clockHand).refbit = false := by
    by_contra hbit
    simp [State.swept, h.1] at hbit
    obtain ⟨l, hl, heq⟩ := h.2 hbit.1
    exact hbit.2 l hl heq
  rw [scan]
  simp only [hcnt, hbit, if_true, Bool.false_eq_true, if_false]
  rfl

theorem scan_run (h : ∀ l < k, ¬ s.Takes l) : scan (k + n) s = scan n (s.swept k) := by
  induction k generalizing n with
  | zero => rw [swept_zero, zero_add]
  | succ k ih =>
    rw [Nat.succ_add_eq_add_succ, ih fun l hl => h l (hl.trans k.lt_succ_self)]
    exact scan_skip (h k k.lt_succ_self)

theorem wp_acquiresleep {E : Stop → Prop} {Q : Unit → State → Prop} (hQ : (s.buf b).lock = none →
    Q () (s.setBuf b { s.buf b with lock := some p })) (hE : (s.buf b).lock ≠ none → E (.waits b)) :
    wp E (acquiresleep p b) s Q := by
  rw [acquiresleep, wp_bind, wp_get]
  cases hlock : (s.buf b).lock with
  | none => exact hQ hlock
  | some q => exact hE (by simp [hlock])

theorem takes_of_refcnt (h : (s.buf b).refcnt = 0) : ∃ k < 2 * NBUF, s.Takes k := by
  obtain ⟨k, hk, rfl⟩ := exists_hand s b
  have hlap : s.hand (k + NBUF) = s.hand k :=
    Fin.ext (by rw [val_hand, val_hand, ← add_assoc, Nat.add_mod_right])
  refine
    ⟨k + NBUF, by omega, hlap ▸ h, fun _ => ⟨k, Nat.lt_add_of_pos_right (by decide), hlap.symm⟩⟩

/-- The clock takes the buffer at its `k`-th step. -/
def State.First (s : State) (k : Nat) : Prop := s.Takes k ∧ ∀ l < k, ¬ s.Takes l

theorem exists_first (h : (s.buf b).refcnt = 0) : ∃ k, s.First k := by
  classical
  obtain ⟨k, -, hk⟩ := takes_of_refcnt h
  exact ⟨Nat.find ⟨k, hk⟩, Nat.find_spec ⟨k, hk⟩, fun _ => Nat.find_min ⟨k, hk⟩⟩

theorem State.First.lt (h : s.First k) : k < 2 * NBUF := by
  obtain ⟨l, hl, htake⟩ := takes_of_refcnt h.1.1
  exact (Nat.le_of_not_lt fun hlt => h.2 l hlt htake).trans_lt hl

structure Victim (s : State) (b : Fin NBUF) : Prop where
  refcnt : (s.buf b).refcnt = 0
  refbit : (s.buf b).refbit = true → ∀ b', (s.buf b').refcnt = 0 → (s.buf b').refbit = true

theorem State.First.victim (h : s.First k) : Victim s (s.hand k) where
  refcnt := h.1.1
  refbit hbit b' hb' := by
    have hlap := second_lap (h.1.2 hbit)
    obtain ⟨l, hl, rfl⟩ := exists_hand s b'
    by_contra hb
    exact h.2 l (hl.trans_le hlap) ⟨hb', fun hb'' => absurd hb'' hb⟩

structure Loaded (p : ProcSlot) (dev n : Nat) (b : Fin NBUF) (k : Nat) (s s' : State) : Prop where
  bound : k < 2 * NBUF
  hand : s.hand k = b
  buf : s'.buf = update (s.swept k).buf b ⟨false, dev, n, some p, 1, true⟩
  clockHand : s'.clockHand = s.hand k + 1

theorem evict_of_miss (hmiss : s.find dev n = none) {E : Stop → Prop}
    {Q : Option (Fin NBUF) → State → Prop} (h : wp E (evict p dev n m) s Q) :
    wp E (bgetCommon p dev n m) s Q := by
  rw [bgetCommon, wp_bind, wp_get, hmiss, wp_bind, wp_get, hmiss]
  exact h

theorem bgetCommon_first (hmiss : s.find dev n = none) (hfirst : s.First k) :
    wp (fun e => e = .waits (s.hand k) ∧ (s.buf (s.hand k)).lock ≠ none) (bgetCommon p dev n m) s
      fun r s' => r = some (s.hand k) ∧ (s.buf (s.hand k)).lock = none ∧
        Loaded p dev n (s.hand k) k s s' := by
  refine evict_of_miss hmiss ?_
  obtain ⟨n', hn'⟩ := Nat.exists_eq_add_of_lt hfirst.lt
  rw [evict, wp_bind, wp_get, hn', add_assoc, scan_run hfirst.2, scan_take hfirst.1, wp_bind,
    wp_set, wp_bind, wp_modify, wp_bind]
  refine wp_acquiresleep (fun hlock => ?_) fun hlock => ⟨rfl, ?_⟩
  · refine ⟨rfl, ?_, hfirst.lt, rfl, ?_, rfl⟩
    · simpa [State.setBuf, State.insert, State.claim, State.swept] using hlock
    · simp [State.setBuf, State.insert, State.claim]
  · simpa [State.setBuf, State.insert, State.claim, State.swept] using hlock

/-- A block that is not cached gets the first buffer the clock can take, exactly if it is not
locked. -/
theorem bgetCommon_second_chance (hmiss : s.find dev n = none) :
    ((∃ b, (s.buf b).refcnt = 0) → ((∃ b s', bgetCommon p dev n m s = .ok (some b, s') ∧
      ((s'.buf b).dev = dev ∧ (s'.buf b).blockno = n ∧ (s'.buf b).lock = some p) ∧
      (∃ k, Loaded p dev n b k s s') ∧ Victim s b) ↔
        ∃ k, s.First k ∧ (s.buf (s.hand k)).lock = none)) ∧
    (bgetCommon p dev n m s = .error .noBuffers → ∀ b, (s.buf b).refcnt ≠ 0) := by
  refine ⟨fun ⟨b₀, hb₀⟩ => ⟨?_, ?_⟩, fun hrun b hb => ?_⟩
  · rintro ⟨b, s', hok, -⟩
    obtain ⟨k, hfirst⟩ := exists_first hb₀
    exact ⟨k, hfirst, ((bgetCommon_first hmiss hfirst).of_ok hok).2.1⟩
  · rintro ⟨k, hfirst, hlock⟩
    have hspec := bgetCommon_first (p := p) (m := m) hmiss hfirst
    cases hrun : bgetCommon p dev n m s with
    | error e => exact absurd hlock (hspec.of_error hrun).2
    | ok r =>
      obtain ⟨r, s'⟩ := r
      obtain ⟨rfl, -, hload⟩ := hspec.of_ok hrun
      exact ⟨s.hand k, s', rfl, by simp [hload.buf], ⟨k, hload⟩, hfirst.victim⟩
  · obtain ⟨k, hfirst⟩ := exists_first hb
    cases ((bgetCommon_first hmiss hfirst).of_error hrun).1

/-- Buffer 3 is locked and has no user, as after a recovery; the clock stands at another one. -/
def lockedFree : State := binit.setBuf 3 { binit.buf 3 with lock := some 1 }

theorem bgetCommon_second_chance_lockedFree : (∃ b, (lockedFree.buf b).refcnt = 0) ∧
    ∃ b s', bgetCommon 0 ROOTDEV 7 true lockedFree = .ok (some b, s') ∧ (s'.buf b).blockno = 7 := by
  have hmiss : lockedFree.find ROOTDEV 7 = none := by decide +kernel
  have hfree : ∃ b, (lockedFree.buf b).refcnt = 0 := ⟨0, rfl⟩
  have hfirst : lockedFree.First 0 := ⟨⟨rfl, fun h => absurd h (by decide)⟩, fun _ hl => nomatch hl⟩
  obtain ⟨b, s', hok, hload, -⟩ :=
    ((bgetCommon_second_chance (p := 0) (m := true) hmiss).1 hfree).2 ⟨0, hfirst, rfl⟩
  exact ⟨hfree, b, s', hok, hload.2.1⟩

/-- Read every other block, which starts no read-ahead. -/
def touch (n : Nat) : BM Unit :=
  loop 0 n () fun k _ => do brelse 2 (← bread 2 ROOTDEV (300 + 2 * k))

/-- The clock takes the buffer of a reader and waits for it, while other buffers are free. -/
theorem bgetCommon_waits : ∃ s,
    (do recoverFromLog 0 [200]; discard (bread 1 ROOTDEV 200); touch 29 : BM Unit) binit =
      .ok ((), s) ∧
      s.find ROOTDEV 500 = none ∧ (∃ b, b ≠ 3 ∧ (s.buf b).refcnt = 0 ∧ (s.buf b).lock = none) ∧
      stops (bgetCommon 3 ROOTDEV 500 true) s (· = .waits 3) :=
  returns_of_lands (by decide +kernel)

end OopsOS.Bcache
