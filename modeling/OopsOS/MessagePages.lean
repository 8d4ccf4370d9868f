import OopsOS.Bytes
import OopsOS.Limits
import OopsOS.Traces

namespace OopsOS.MqPage
set_option autoImplicit true

def getLe (m : Bytes) (a : Nat) : Nat → Nat
  | 0 => 0
  | n + 1 => (m a).toNat + 256 * getLe m (a + 1) n

def putLe (m : Bytes) (a n v : Nat) : Bytes :=
  fun x => if a ≤ x ∧ x < a + n then byteOf v (x - a) else m x

def putBytes (m : Bytes) (a : Nat) (l : List UInt8) : Bytes :=
  fun x => if a ≤ x ∧ x < a + l.length then l.getD (x - a) 0 else m x

def memmove (m : Bytes) (dst src n : Nat) : Bytes :=
  fun x => if dst ≤ x ∧ x < dst + n then m (src + (x - dst)) else m x

/-- The fields of a `struct msg`: 8 bytes each for `next`, `type` and `dataaddr`, and 4 for
`datasize`. -/
def next (m : Bytes) (a : Nat) : Nat := getLe m a 8

def type (m : Bytes) (a : Nat) : Nat := getLe m (a + 8) 8

def dataaddr (m : Bytes) (a : Nat) : Nat := getLe m (a + 16) 8

def datasize (m : Bytes) (a : Nat) : Int :=
  let n := getLe m (a + 24) 4
  if n < 2 ^ 31 then n else n - 2 ^ 32

/-- The address 16 bytes after the data, as the code counts it. -/
def behind (m : Bytes) (a : Nat) : Nat := ((a + datasize m a + 16) % 2 ^ 64).toNat

structure Queue where
  mem : Bytes
  msgs : Nat
  maxbytes : Int
  curbytes : Int

def lastMsg (m : Bytes) : Nat → Nat → Option Nat
  | 0, _ => none
  | n + 1, a => if next m a ≠ 0 then lastMsg m n (next m a) else some a

def toLong (t : Int) : Nat := (t % 2 ^ 64).toNat

def Queue.msgsnd (q : Queue) (fuel : Nat) (t : Int) (data : List UInt8) : Option Queue :=
  if q.curbytes + data.length + 16 ≤ q.maxbytes then
    (lastMsg q.mem fuel q.msgs).map fun a =>
      let r := behind q.mem a
      let m := putLe q.mem a 8 r
      let m := putLe m (r + 8) 8 (toLong t)
      let m := putLe m r 8 0
      let m := putLe m (r + 16) 8 (r + 16)
      let m := putLe m (r + 24) 4 data.length
      { q with
        mem := putBytes m (dataaddr m r) data
        curbytes := q.curbytes + (data.length + 16) }
  else none

def reloc : Nat → Bytes → Nat → Nat → Nat → Option Bytes
  | 0, _, _, _, _ => none
  | n + 1, m, pages, a, pre =>
    if a ≠ 0 then
      let t := next m a
      let m := memmove m pages a ((datasize m a + 16) % 2 ^ 32).toNat
      let m := putLe m pages 8 (behind m pages)
      let m := putLe m (pages + 16) 8 (pages + 16)
      reloc n m (next m pages) t pages
    else some (putLe m pre 8 0)

def findMsg (m : Bytes) (t : Int) : Nat → Nat → Nat → Option (Nat × Nat)
  | 0, _, _ => none
  | n + 1, a, pre =>
    if a = 0 then none
    else if type m a = toLong t then some (a, pre)
    else findMsg m t n (next m a) a

def Queue.msgrcv (q : Queue) (fuel : Nat) (t : Int) (sz : Nat) : Option (List UInt8 × Queue) :=
  match findMsg q.mem t fuel (next q.mem q.msgs) q.msgs with
  | none => none
  | some (a, pre) =>
    let data := (List.range sz).map fun i => q.mem (dataaddr q.mem a + i)
    let m := putLe q.mem pre 8 (next q.mem a)
    let cur := q.curbytes - (datasize m a + 16)
    (reloc fuel m q.msgs q.msgs q.msgs).map fun m => (data, { q with mem := m, curbytes := cur })

def newmq (m : Bytes) (b : Nat) : Queue :=
  ⟨fun x => if b ≤ x ∧ x < b + PGSIZE then 0 else m x, b, PGSIZE, 16⟩

inductive Event where
  | snd (t : Int) (data : List UInt8)
  | rcv (t : Int)

/-- The queue, the messages it should hold, and for each one received its data and what was copied
out. -/
structure State where
  queue : Queue
  sent : List (Int × List UInt8)
  copied : List (List UInt8 × List UInt8)

/-- A step for each accepted call; the loops are cut off after as many turns as a page has bytes. -/
def fire (s : State) : Event → Option State
  | .snd t data =>
    (s.queue.msgsnd PGSIZE t data).map fun q => { s with queue := q, sent := s.sent ++ [(t, data)] }
  | .rcv t =>
    match s.sent.find? fun x => x.1 = t with
    | none => none
    | some x =>
      (s.queue.msgrcv PGSIZE t x.2.length).map fun r =>
        ⟨r.2, s.sent.eraseP fun x => x.1 = t, (x.2, r.1) :: s.copied⟩

/-- The data begin with what `msgsnd` puts into the fields over which it stores them. -/
def Mirrors (b : Nat) (data : List UInt8) : Prop :=
  ∀ i < data.length, (i < 8 → data.getD i 0 = byteOf (b + 32) i) ∧
    (8 ≤ i → i < 12 → data.getD i 0 = byteOf data.length (i - 8))

instance (b : Nat) (data : List UInt8) : Decidable (Mirrors b data) :=
  inferInstanceAs (Decidable (∀ i < data.length, _))

variable {q : Queue} {m m₀ : Bytes} {a b n v : Nat} {data : List UInt8}

theorem getLe_eq (h : ∀ k < n, m (a + k) = byteOf v k) : getLe m a n = v % 256 ^ n := by
  induction n generalizing a v with
  | zero => simp [getLe, Nat.mod_one]
  | succ n ih =>
    have h0 := h 0 (by omega)
    have hrest : getLe m (a + 1) n = v / 256 % 256 ^ n := by
      apply ih
      intro k hk
      have hk' := h (k + 1) (by omega)
      rw [show a + 1 + k = a + (k + 1) by omega, hk']
      simp only [byteOf, Nat.pow_succ', Nat.div_div_eq_div_mul]
    rw [Nat.add_zero] at h0
    rw [getLe, hrest, h0, toNat_byteOf, Nat.pow_zero, Nat.div_one, Nat.pow_succ', Nat.mod_mul]

theorem getLe_of_lt (h : ∀ k < n, m (a + k) = byteOf v k) (hv : v < 256 ^ n) : getLe m a n = v := by
  rw [getLe_eq h, Nat.mod_eq_of_lt hv]

@[simp] theorem byteOf_zero (k : Nat) : byteOf 0 k = 0 := by
  simp [byteOf]

structure Idle (q : Queue) (b : Nat) (m₀ : Bytes) : Prop where
  msgs : q.msgs = b
  maxbytes : q.maxbytes = PGSIZE
  curbytes : q.curbytes = 16
  next : ∀ k < 8, q.mem (b + k) = byteOf 0 k
  size : ∀ k < 4, q.mem (b + 24 + k) = byteOf 0 k
  outside : ∀ x, x < b ∨ b + PGSIZE ≤ x → q.mem x = m₀ x

structure Filled (q : Queue) (b : Nat) (m₀ : Bytes) (data : List UInt8) : Prop where
  msgs : q.msgs = b
  maxbytes : q.maxbytes = PGSIZE
  curbytes : q.curbytes = 16 + (data.length + 16)
  next : ∀ k < 8, q.mem (b + k) = byteOf (b + 16) k
  next' : ∀ k < 8, q.mem (b + 16 + k) = byteOf 0 k
  type : ∀ k < 8, q.mem (b + 24 + k) = byteOf 0 k
  dataaddr : ∀ k < 8, q.mem (b + 32 + k) = byteOf (b + 32) k
  datasize : ∀ k < 4, q.mem (b + 40 + k) = byteOf data.length k
  data : ∀ i < data.length, q.mem (b + 32 + i) = data.getD i 0
  outside : ∀ x, x < b ∨ b + PGSIZE ≤ x → q.mem x = m₀ x

theorem datasize_eq (h : ∀ k < 4, m (a + 24 + k) = byteOf v k) (hv : v < 2 ^ 31) :
    datasize m a = v := by
  have hget := getLe_of_lt (n := 4) h (by omega)
  simp only [datasize, hget, if_pos hv]

theorem behind_eq (h : ∀ k < 4, m (a + 24 + k) = byteOf v k) (hv : v < 2 ^ 31)
    (ha : a + v + 16 < 2 ^ 64) : behind m a = a + v + 16 := by
  rw [behind, datasize_eq h hv]
  omega

theorem msgsnd_filled (h : Idle q b m₀) (hb : b + PGSIZE ≤ 2 ^ 64)
    (hfit : data.length + 32 ≤ PGSIZE) (hmirror : Mirrors b data) :
    ∃ q', q.msgsnd PGSIZE 0 data = some q' ∧ Filled q' b m₀ data := by
  obtain ⟨hmsgs, hmax, hcur, hnext, hsize, hout⟩ := h
  have hzero : next q.mem b = 0 := getLe_of_lt hnext (by decide)
  have hbehind : behind q.mem b = b + 16 := by
    simpa using behind_eq (v := 0) hsize (by decide) (by simp only [PGSIZE] at hb; omega)
  have hlast : lastMsg q.mem PGSIZE q.msgs = some b := by
    rw [hmsgs, show PGSIZE = 4095 + 1 from rfl, lastMsg, hzero]
    simp
  unfold Queue.msgsnd
  rw [if_pos (by omega), hlast]
  simp only [Option.map_some, Option.some.injEq, exists_eq_left', hbehind]
  generalize hm : putLe (putLe (putLe (putLe (putLe q.mem b 8 (b + 16)) (b + 16 + 8) 8 (toLong 0))
    (b + 16) 8 0) (b + 16 + 16) 8 (b + 16 + 16)) (b + 16 + 24) 4 data.length = m
  have haddr : dataaddr m (b + 16) = b + 32 := by
    refine getLe_of_lt (fun k hk => ?_) (by simp only [PGSIZE] at hb; omega)
    rw [← hm]
    simp only [putLe]
    grind
  rw [haddr]
  have hlong : toLong 0 = 0 := rfl
  rw [hlong] at hm
  simp only [PGSIZE] at *
  constructor <;> simp only [putBytes, ← hm, putLe] <;> grind [Mirrors]

theorem memmove_self (m : Bytes) (a n : Nat) : memmove m a a n = m := by
  funext x
  simp only [memmove]
  split
  · next hx => rw [show a + (x - a) = x by omega]
  · rfl

theorem reloc_empty (hpos : 0 < b) (hb : b + PGSIZE ≤ 2 ^ 64)
    (hnext : ∀ k < 8, m (b + k) = byteOf 0 k)
    (hsize : ∀ k < 4, m (b + 24 + k) = byteOf 0 k) : reloc PGSIZE m b b b =
      some (putLe (putLe (putLe m b 8 (b + 16)) (b + 16) 8 (b + 16)) b 8 0) := by
  have hzero : next m b = 0 := getLe_of_lt hnext (by decide)
  have hbehind : behind m b = b + 16 := by
    simpa using behind_eq (v := 0) hsize (by decide) (by simp only [PGSIZE] at hb; omega)
  rw [show PGSIZE = 4094 + 1 + 1 from rfl, reloc, if_pos (by omega)]
  simp only [hzero, memmove_self, hbehind]
  rw [reloc, if_neg (by simp)]

theorem msgrcv_idle (h : Filled q b m₀ data) (hpos : 0 < b) (hb : b + PGSIZE ≤ 2 ^ 64)
    (hfit : data.length + 32 ≤ PGSIZE) :
    ∃ q', q.msgrcv PGSIZE 0 data.length = some (data, q') ∧ Idle q' b m₀ := by
  obtain ⟨hmsgs, hmax, hcur, hnext, hnext', htype, haddr, hsize, hdata, hout⟩ := h
  have hfirst : next q.mem b = b + 16 :=
    getLe_of_lt hnext (by simp only [PGSIZE] at hb; omega)
  have hlast : next q.mem (b + 16) = 0 := getLe_of_lt hnext' (by decide)
  have hzero : type q.mem (b + 16) = toLong 0 := getLe_of_lt htype (by decide)
  have haddr' : dataaddr q.mem (b + 16) = b + 32 :=
    getLe_of_lt haddr (by simp only [PGSIZE] at hb; omega)
  have hfind : findMsg q.mem 0 PGSIZE (b + 16) b = some (b + 16, b) := by
    rw [show PGSIZE = 4095 + 1 from rfl, findMsg, if_neg (by omega), if_pos hzero]
  have hcopy : ((List.range data.length).map fun i => q.mem (b + 32 + i)) = data := by
    refine List.ext_getElem (by simp) fun i hi hi' => ?_
    rw [List.getElem_map, List.getElem_range, hdata i hi', List.getD_eq_getElem _ _ hi']
  have hds : datasize (putLe q.mem b 8 0) (b + 16) = data.length := by
    refine datasize_eq (fun k hk => ?_) (by simp only [PGSIZE] at hfit; omega)
    rw [← hsize k hk]
    simp only [putLe]
    grind
  have hreloc := reloc_empty (m := putLe q.mem b 8 0) hpos hb
    (fun k hk => by simp only [putLe]; grind) (fun k hk => by simp only [putLe]; grind)
  unfold Queue.msgrcv
  simp only [hmsgs, hfirst, hfind, hlast, haddr', hcopy, hds, hreloc, Option.map_some,
    Option.some.injEq, Prod.mk.injEq, true_and, exists_eq_left']
  refine ⟨rfl, hmax, by simp only [hcur]; omega, fun k hk => ?_, fun k hk => ?_, fun x hx => ?_⟩
  all_goals simp only [putLe, PGSIZE] at *
  all_goals grind

def exchanges (ds : List (List UInt8)) : List Event := ds.flatMap fun d => [.snd 0 d, .rcv 0]

theorem exchanges_idle (h : Idle s.queue b m₀)
    (hsent : s.sent = []) (hpos : 0 < b) (hb : b + PGSIZE ≤ 2 ^ 64)
    (hds : ∀ d ∈ ds, d.length + 32 ≤ PGSIZE ∧ Mirrors b d) :
    ∃ s', runEvents fire s (exchanges ds) = some s' ∧ Idle s'.queue b m₀ ∧ s'.sent = [] ∧
      s'.copied = (ds.map fun d => (d, d)).reverse ++ s.copied := by
  induction ds generalizing s with
  | nil => exact ⟨s, rfl, h, hsent, rfl⟩
  | cons d ds ih =>
    obtain ⟨hfit, hmirror⟩ := hds d List.mem_cons_self
    obtain ⟨q₁, hsnd, hfilled⟩ := msgsnd_filled h hb hfit hmirror
    obtain ⟨q₂, hrcv, hidle⟩ := msgrcv_idle hfilled hpos hb hfit
    obtain ⟨s', hrun, hrest⟩ := ih (s := ⟨q₂, [], (d, d) :: s.copied⟩) hidle rfl
      fun d hd => hds d (List.mem_cons_of_mem _ hd)
    refine ⟨s', ?_, by simpa using hrest⟩
    rw [← hrun]
    simp [exchanges, runEvents, fire, hsnd, hsent, hrcv]

theorem newmq_idle (m : Bytes) (b : Nat) : Idle (newmq m b) b m := by
  refine ⟨rfl, rfl, rfl, fun k hk => ?_, fun k hk => ?_, fun x hx => ?_⟩
  all_goals simp only [newmq, PGSIZE] at *
  all_goals grind [byteOf_zero]

/-- Messages of type 0, sent to an empty queue, that begin with the address and size the kernel
stores there, are received as sent. -/
theorem msgs_exact_of_mirrors {ds : List (List UInt8)} (m : Bytes) (hpos : 0 < b)
    (hb : b + PGSIZE ≤ 2 ^ 64) (hds : ∀ d ∈ ds, d.length + 32 ≤ PGSIZE ∧ Mirrors b d) :
    ∃ s, runEvents fire ⟨newmq m b, [], []⟩ (exchanges ds) = some s ∧
      s.copied = (ds.map fun d => (d, d)).reverse ∧ s.sent = [] ∧ next s.queue.mem b = 0 ∧
      ∀ x, x < b ∨ b + PGSIZE ≤ x → s.queue.mem x = m x := by
  obtain ⟨s, hrun, hidle, hsent, hcopied⟩ :=
    exchanges_idle (s := ⟨newmq m b, [], []⟩) (newmq_idle m b) rfl hpos hb hds
  exact ⟨s, hrun, by simpa using hcopied, hsent, getLe_of_lt hidle.next (by decide), hidle.outside⟩

theorem msgs_exact_address : ∃ s,
    runEvents fire ⟨newmq zeroBytes 4096, [], []⟩ (exchanges [[32, 16]]) = some s ∧
      s.copied = [([32, 16], [32, 16])] := by
  have hds : ∀ d ∈ ([[32, 16]] : List (List UInt8)), d.length + 32 ≤ PGSIZE ∧ Mirrors 4096 d := by
    decide
  obtain ⟨s, hrun, hcopied, -⟩ := msgs_exact_of_mirrors zeroBytes (by decide) (by decide) hds
  exact ⟨s, hrun, hcopied⟩

/-- The data overwrite their own address: two bytes are sent, and two from another address copied
out. -/
theorem msgrcv_reads_elsewhere :
    ((runEvents fire ⟨newmq zeroBytes 4096, [], []⟩ [.snd 1 [65, 66], .rcv 1]).map State.copied) =
      some [([65, 66], [0, 0])] := by
  decide +kernel

end OopsOS.MqPage
