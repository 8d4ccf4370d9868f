import Mathlib
import OopsOS.Computation
import OopsOS.Limits

namespace OopsOS.Pg
set_option autoImplicit true
open Function

/-- `MAXVA` as a page number. -/
abbrev NVPN : Nat := 2 ^ 26

/-- `TRAMPOLINE` and `TRAPFRAME` as page numbers. -/
abbrev TRAMPOLINE : Nat := NVPN - 1
abbrev TRAPFRAME : Nat := NVPN - 2

abbrev SWAP_PAGES : Nat := 512
abbrev SWAP_PBUF_SIZE : Nat := 64

abbrev Page := Nat → UInt8

/-- A page-table entry: its flags, and the frame of a valid or the slot of a swapped page. -/
structure Pte where
  valid : Bool
  read : Bool
  write : Bool
  exec : Bool
  user : Bool
  accessed : Bool
  cow : Bool
  swapped : Bool
  num : Nat
deriving DecidableEq

def Pte.zero : Pte := ⟨false, false, false, false, false, false, false, false, 0⟩

def Pte.toSlot (e : Pte) (slot : Nat) : Pte :=
  { e with valid := false, swapped := true, num := slot }

def Pte.rwxu : Pte := { Pte.zero with read := true, write := true, exec := true, user := true }

/-- The place of a page-table page below the root: of the second or of the third level. -/
inductive Node where
  | mid (i : Nat)
  | low (j : Nat)
deriving DecidableEq

/-- A page table: the frames of its pages, 0 for none, and its leaf entries by page number. -/
structure Table where
  node : Node → Nat
  pte : Nat → Pte

def Table.empty : Table := ⟨fun _ => 0, fun _ => .zero⟩

structure VFile where
  readable : Bool
  writable : Bool
  size : Nat
  byte : Nat → UInt8

structure Vma where
  used : Bool
  addr : Nat
  len : Nat
  shared : Bool
  read : Bool
  write : Bool
  exec : Bool
  vfile : Option VFile
  offset : Nat
  filesz : Nat

structure Proc where
  pagetable : Nat
  sz : Nat
  sp : Nat
  hand : Nat
  killed : Bool
  vma : List Vma

structure Buffered where
  slot : Nat
  frame : Nat

/-- A page that `swapin` has brought back: what it found and what had been swapped out. -/
structure Fetched where
  found : Page
  saved : Page

/-- What depends on other processes and devices. -/
structure Env where
  cpus : List Nat
  refused : List Bool
  low : List Bool
  victims : List (Option ProcSlot)
  writebacks : List Bool
  waits : List Bool
  throttles : List Bool

/-- Memory, the swap area and the processes. `noff` counts spinlocks held; `kernel`, `saved` (bytes
swapped out) and `fetched` (pages brought back) are not read. -/
structure PgState where
  nframes : Nat
  data : Nat → Page
  cnt : Nat → Int
  free : Nat → List Nat
  table : Nat → Table
  live : Nat → Bool
  swapready : Bool
  swapmap : Nat → Bool
  hint : Nat
  disk : Nat → Page
  pbuf : Nat → Option Buffered
  phand : Nat
  proc : ProcSlot → Proc
  cur : ProcSlot
  midsched : Bool
  noff : Nat
  strict : Bool
  env : Env
  kernel : List Nat
  saved : Nat → Nat → Page
  fetched : List Fetched

inductive Panic where
  | kfree
  | walk
  | remap
  | notAligned
  | notLeaf
  | uvmclear
  | wildTable
  | schedLocks
deriving DecidableEq

abbrev PgM := Comp PgState Panic

def PgState.pte (s : PgState) (t vpn : Nat) : Pte := (s.table t).pte vpn

def PgState.setData (s : PgState) (f : Nat) (d : Page) : PgState :=
  { s with data := update s.data f d }

def PgState.setPte (s : PgState) (t vpn : Nat) (e : Pte) : PgState :=
  { s with
    table := update s.table t
      { s.table t with pte := update (s.table t).pte vpn e } }

def PgState.setNode (s : PgState) (t : Nat) (n : Node) (f : Nat) : PgState :=
  { s with
    table := update s.table t
      { s.table t with node := update (s.table t).node n f } }

def PgState.setProc (s : PgState) (p : ProcSlot) (pr : Proc) : PgState :=
  { s with proc := update s.proc p pr }

/-- A frame whose last reference goes is filled with junk and put on the list of a CPU. -/
def PgState.release (s : PgState) (c f : Nat) : PgState :=
  { s with
    cnt := update s.cnt f 0
    data := update s.data f (fun _ => 1)
    free := update s.free c (f :: s.free c) }

/-- The first frame on the list of a CPU gets its first reference and other junk. -/
def PgState.take (s : PgState) (i : Nat) : PgState :=
  { s with
    cnt := update s.cnt ((s.free i).headD 0) 1
    data := update s.data ((s.free i).headD 0) (fun _ => 5)
    free := update s.free i (s.free i).tail }

def PgState.setCnt (s : PgState) (f : Nat) (n : Int) : PgState :=
  { s with cnt := update s.cnt f n }

def PgState.setSlot (s : PgState) (slot : Nat) (used : Bool) : PgState :=
  { s with swapmap := update s.swapmap slot used }

def PgState.mark (s : PgState) (slot : Nat) : PgState :=
  { s with
    swapmap := update s.swapmap slot true
    hint := (slot + 1) % SWAP_PAGES }

def PgState.setDisk (s : PgState) (slot : Nat) (d : Page) : PgState :=
  { s with disk := update s.disk slot d }

def PgState.setBuf (s : PgState) (i : Nat) (b : Option Buffered) : PgState :=
  { s with pbuf := update s.pbuf i b }

def PgState.putBuf (s : PgState) (b : Buffered) : PgState :=
  { s with
    pbuf := update s.pbuf s.phand (some b)
    phand := (s.phand + 1) % SWAP_PBUF_SIZE }

def PgState.addFetched (s : PgState) (x : Fetched) : PgState := { s with fetched := x :: s.fetched }

def PgState.setEnv (s : PgState) (env : Env) : PgState := { s with env := env }

def PgState.setNoff (s : PgState) (n : Nat) : PgState := { s with noff := n }

def PgState.openTable (s : PgState) (t : Nat) : PgState :=
  { s with
    table := update s.table t .empty
    live := update s.live t true }

def PgState.closeTable (s : PgState) (t : Nat) : PgState :=
  { s with
    table := update s.table t .empty
    live := update s.live t false }

def PgState.setSaved (s : PgState) (t vpn : Nat) (d : Page) : PgState :=
  { s with saved := update s.saved t (update (s.saved t) vpn d) }

def PgState.root (s : PgState) (p : ProcSlot) : Nat := (s.proc p).pagetable

def pgRoundUp (a : Nat) : Nat := (a + PGSIZE - 1) / PGSIZE * PGSIZE

def pagesOf (sz : Nat) : Nat := (sz + PGSIZE - 1) / PGSIZE

/-- The next answer of the environment, or the given one when there is none. -/
def answer (view : Env → List α) (rest : Env → Env) (default : α) : PgM α := do
  let s ← get
  set (s.setEnv (rest s.env))
  pure ((view s.env).headD default)

def nextCpu : PgM Nat := do
  let c ← answer Env.cpus (fun e => { e with cpus := e.cpus.tail }) 0
  pure (c % NCPU)

def nextRefused : PgM Bool :=
  answer Env.refused (fun e => { e with refused := e.refused.tail }) false

def nextLow : PgM Bool := answer Env.low (fun e => { e with low := e.low.tail }) false

def nextVictim : PgM (Option ProcSlot) :=
  answer Env.victims (fun e => { e with victims := e.victims.tail }) none

def nextWriteback : PgM Bool :=
  answer Env.writebacks (fun e => { e with writebacks := e.writebacks.tail }) true

def nextWait : PgM Bool := answer Env.waits (fun e => { e with waits := e.waits.tail }) true

def nextThrottle : PgM Bool :=
  answer Env.throttles (fun e => { e with throttles := e.throttles.tail }) false

/-- `sched` from a `sleep`, with no lock but the one that is handed to it. -/
def sleep : PgM Unit := do
  let s ← get
  if s.strict = true ∧ 0 < s.noff then throw .schedLocks else pure ()

def acquire : PgM Unit := modify fun s => s.setNoff (s.noff + 1)

def release : PgM Unit := modify fun s => s.setNoff (s.noff - 1)

def setData (f : Nat) (d : Page) : PgM Unit := modify fun s => s.setData f d

def setPte (t vpn : Nat) (e : Pte) : PgM Unit := modify fun s => s.setPte t vpn e

def setNode (t : Nat) (n : Node) (f : Nat) : PgM Unit := modify fun s => s.setNode t n f

def setProc (p : ProcSlot) (pr : Proc) : PgM Unit := modify fun s => s.setProc p pr

def kfree (f : Nat) : PgM Unit := do
  let s ← get
  if f = 0 ∨ s.nframes < f then throw .kfree
  else if s.cnt f - 1 = 0 then do
    let c ← nextCpu
    modify fun s => s.release c f
  else set (s.setCnt f (s.cnt f - 1))

/-- The CPUs in the order in which `kalloc_try` looks at their lists. -/
def cpuOrder (c : Nat) : List Nat := c :: (List.range NCPU).filter (· ≠ c)

def kallocTry : PgM (Option Nat) := do
  let c ← nextCpu
  let s ← get
  match (cpuOrder c).find? (fun i => (s.free i).isEmpty = false) with
  | none => pure none
  | some i => do
    set (s.take i)
    pure (some ((s.free i).headD 0))

def kaddrefcnt (f : Nat) : PgM Unit := do
  let s ← get
  if f = 0 ∨ s.nframes < f then pure ()
  else set (s.setCnt f (s.cnt f + 1))

/-- `walk` without allocation: the entry of a page, if the page-table pages above it exist. -/
def lookup (t vpn : Nat) : PgM (Option Pte) := do
  let s ← get
  if NVPN ≤ vpn then throw .walk
  else if (s.table t).node (.mid (vpn / 2 ^ 18)) = 0 ∨ (s.table t).node
    (.low (vpn / 2 ^ 9)) = 0 then
    pure none
  else pure (some (s.pte t vpn))

@[irreducible] def slotOrder (hint : Nat) : List Nat := (List.range SWAP_PAGES).map fun i =>
    (hint + i) % SWAP_PAGES

def swapAlloc : PgM (Option Nat) := do
  let s ← get
  match (slotOrder s.hint).find? (fun i => s.swapmap i = false) with
  | none => pure none
  | some slot =>
    set (s.mark slot)
    pure (some slot)

def swapfree (slot : Nat) : PgM Unit :=
  if SWAP_PAGES ≤ slot then pure ()
  else modify fun s => s.setSlot slot false

def bread : PgM Unit := do
  if ← nextWait then sleep else pure ()

def swapWrite (slot f : Nat) : PgM Unit := do
  bread
  sleep
  modify fun s => s.setDisk slot (s.data f)

def swapRead (slot f : Nat) : PgM Unit := do
  bread
  modify fun s => s.setData f (s.disk slot)

def pbufDrop (b : Option Buffered) : PgM Unit :=
  match b with
  | none => pure ()
  | some b => kfree b.frame

def swapPbufPut (slot f : Nat) : PgM Unit := do
  let s ← get
  pbufDrop (s.pbuf s.phand)
  modify fun s => s.putBuf ⟨slot, f⟩

@[irreducible] def PgState.pbufFind (s : PgState) (slot : Nat) : Option Nat :=
  (List.range SWAP_PBUF_SIZE).find? fun i => (s.pbuf i).any fun b => b.slot = slot

def swapPbufGet (slot : Nat) : PgM (Option Nat) := do
  let s ← get
  match s.pbufFind slot with
  | none => pure none
  | some i =>
    set (s.setBuf i none)
    pure ((s.pbuf i).map Buffered.frame)

def swapThrottle : PgM Unit := do
  if ← nextThrottle then sleep else pure ()

/-- The first mapping of a process with an address in it, as `vma_lookup` finds it. -/
def vmaLookup (p : Proc) (va : Nat) : Option Vma :=
  p.vma.find? fun v => v.used && decide (v.addr ≤ va) && decide (va < v.addr + v.len)

inductive Scan where
  | next
  | freed
  | full
deriving DecidableEq

def dropShared (t vpn : Nat) (e : Pte) : PgM Scan := do
  if ← nextWriteback then
    setPte t vpn .zero
    kfree e.num
    swapThrottle
    pure .freed
  else pure .next

def evict (t vpn : Nat) (e : Pte) : PgM Scan := do
  match ← swapAlloc with
  | none => pure .full
  | some slot =>
    swapWrite slot e.num
    modify fun s => s.setSaved t vpn (s.data e.num)
    setPte t vpn (e.toSlot slot)
    swapPbufPut slot e.num
    swapThrottle
    pure .freed

def scanPage (p : ProcSlot) (vpn : Nat) : PgM Scan := do
  let s ← get
  let t := s.root p
  match ← lookup t vpn with
  | none => pure .next
  | some e =>
    if e.valid = true ∧ e.user = true then
      if e.accessed = true then do
        setPte t vpn { e with accessed := false }
        pure .next
      else if s.cnt e.num = 1 then
        if (vmaLookup (s.proc p) (vpn * PGSIZE)).any (·.shared) = true then dropShared t vpn e
        else evict t vpn e
      else pure .next
    else pure .next

def advance (npages vpn : Nat) : Nat := if npages ≤ vpn + 1 then 0 else vpn + 1

def setHand (p : ProcSlot) (vpn : Nat) : PgM Unit := do
  let s ← get
  setProc p { s.proc p with hand := vpn * PGSIZE }

def swapoutLoop (p : ProcSlot) (npages : Nat) : Nat → Nat → PgM Bool
  | 0, _ => pure false
  | n + 1, vpn => do
    match ← scanPage p vpn with
    | .freed => do
      setHand p (advance npages vpn)
      pure true
    | .full => pure false
    | .next => swapoutLoop p npages n (advance npages vpn)

def startPage (npages hand : Nat) : Nat := if npages ≤ hand / PGSIZE then 0 else hand / PGSIZE

def swapout : PgM Bool := do
  let s ← get
  let npages := pagesOf (s.proc s.cur).sz
  if s.swapready = false ∨ 0 < s.noff ∨ npages = 0 then pure false
  else swapoutLoop s.cur npages (npages * 2) (startPage npages (s.proc s.cur).hand)

def swapoutProcLoop (p : ProcSlot) (npages max : Nat) : Nat → Nat → Nat → PgM Nat
  | 0, vpn, swapped => do
    setHand p vpn
    pure swapped
  | n + 1, vpn, swapped =>
    if swapped < max then do
      match ← scanPage p vpn with
      | .freed => swapoutProcLoop p npages max n (advance npages vpn) (swapped + 1)
      | .full => do
        setHand p vpn
        pure swapped
      | .next => swapoutProcLoop p npages max n (advance npages vpn) swapped
    else do
      setHand p vpn
      pure swapped

def swapoutProc (p : ProcSlot) (maxPages : Int) : PgM Int := do
  let s ← get
  let npages := pagesOf (s.proc p).sz
  if s.swapready = false ∨ (s.proc p).pagetable = 0 ∨ 0 < s.noff then pure (-1)
  else if npages = 0 then pure 0
  else do
    let max := if maxPages ≤ 0 then 0x7fffffff else maxPages.toNat
    let swapped ← swapoutProcLoop p npages max (npages * 2) (startPage npages (s.proc p).hand) 0
    pure swapped

def midschedSuspendOne : PgM Bool := do
  let s ← get
  if 0 < s.noff then pure false
  else
    match ← nextVictim with
    | none => pure false
    | some victim =>
      if victim = s.cur then pure false
      else do
        let swapped ← swapoutProc victim (-1)
        pure (decide (0 < swapped))

def suspendIfLow : PgM Unit := do
  let s ← get
  if s.midsched = true ∧ s.noff = 0 then do
    if ← nextLow then do
      let _ ← midschedSuspendOne
      pure ()
    else pure ()
  else pure ()

/-- The loop of `kalloc`. The page buffer takes `SWAP_PBUF_SIZE` pages before a frame becomes free.
-/
def kallocLoop : Nat → PgM (Option Nat)
  | 0 => pure none
  | n + 1 => do
    match ← kallocTry with
    | some f => do
      suspendIfLow
      pure (some f)
    | none => do
      let s ← get
      if 0 < s.noff then pure none
      else if ← swapout then do
        suspendIfLow
        kallocLoop n
      else if s.midsched = true then do
        if ← midschedSuspendOne then kallocLoop n else pure none
      else pure none

/-- `kalloc`, which may also fail for the frames that other processes take. -/
def kalloc : PgM (Option Nat) := do
  if ← nextRefused then pure none else kallocLoop (SWAP_PBUF_SIZE + 2)

end OopsOS.Pg
