import OopsOS.BlockScan
import OopsOS.Computation

namespace OopsOS
set_option autoImplicit true
open Function

inductive Panic where
  | brefInc
  | brefDec
  | brefDecUnderflow
  | brefGet
  | outOfBlocks
  | freeingFreeBlock
  | bmapOutOfRange
  | ilockNoType
  deriving DecidableEq

/-- The file system through the buffer cache. `logged` lists the calls of `log_write`, latest first.
-/
structure FsState where
  blocks : Disk
  ref : Nat → Nat
  hint : Nat
  inode : Nat → Inode
  valid : Nat → Bool
  iref : Nat → Nat
  logged : List Nat

abbrev FsM (α : Type) := Comp FsState Panic α

def bread (b : Nat) : FsM Bytes := do
  return (← get).blocks b

def bstore (b : Nat) (data : Bytes) : FsM Unit :=
  modify fun s => { s with blocks := update s.blocks b data }

def logWrite (b : Nat) : FsM Unit :=
  modify fun s => { s with logged := b :: s.logged }

def bzero (b : Nat) : FsM Unit := do
  bstore b zeroBytes
  logWrite b

def brefInc (b : Nat) : FsM Unit := do
  if b ≥ sb.size then throw .brefInc
  else modify fun s => { s with ref := update s.ref b (s.ref b + 1) }

def brefDec (b : Nat) : FsM Nat := do
  if b ≥ sb.size then throw .brefDec
  else do
    let s ← get
    if s.ref b < 1 then throw .brefDecUnderflow
    else do
      set { s with ref := update s.ref b (s.ref b - 1) }
      return s.ref b - 1

def brefGet (b : Nat) : FsM Nat := do
  if b ≥ sb.size then throw .brefGet
  else return (← get).ref b

def balloc : FsM Nat := do
  let s ← get
  match Alloc.ballocScan sb s.blocks s.hint with
  | none => throw .outOfBlocks
  | some b =>
    let bp ← bread (BBLOCK b)
    bstore (BBLOCK b) (setBit bp (b % BPB))
    logWrite (BBLOCK b)
    bzero b
    brefInc b
    modify fun s => { s with hint := b + 1 }
    return b

def bfree (b : Nat) : FsM Unit := do
  let ref ← brefDec b
  if ref > 0 then return ()
  else do
    let bp ← bread (BBLOCK b)
    if getBit bp (b % BPB) = false then throw .freeingFreeBlock
    else do
      bstore (BBLOCK b) (clearBit bp (b % BPB))
      logWrite (BBLOCK b)

def modifyInode (A : Nat) (f : Inode → Inode) : FsM Unit :=
  modify fun s => { s with inode := update s.inode A (f (s.inode A)) }

def iupdate (A : Nat) : FsM Unit := do
  let ip := (← get).inode A
  let bp ← bread (IBLOCK A)
  bstore (IBLOCK A) (putDinode bp (A % IPB) ip)
  logWrite (IBLOCK A)

def ilock (A : Nat) : FsM Unit := do
  let s ← get
  if s.valid A then return ()
  else do
    let bp ← bread (IBLOCK A)
    let ip := getDinode bp (A % IPB)
    set { s with inode := update s.inode A ip, valid := update s.valid A true }
    if ip.type = 0 then throw .ilockNoType else return ()

/-- A place that holds a block pointer: `ip->addrs[i]`, or entry `j` of the index block `x`. -/
inductive Loc where
  | addr (i : Nat)
  | entry (x j : Nat)

def getPtr (A : Nat) : Loc → FsM Nat
  | .addr i => do
    return ((← get).inode A).addr i
  | .entry x j => do
    return getWord (← bread x) j

/-- Store a block pointer. A changed index block is logged, a changed inode is not. -/
def setPtr (A : Nat) (p : Loc) (v : Nat) : FsM Unit :=
  match p with
  | .addr i => modifyInode A (fun ip => ip.setAddr i v)
  | .entry x j => do
    let bp ← bread x
    bstore x (setWord bp j v)
    logWrite x

/-- The step `if((addr = *p) == 0) *p = addr = balloc()` of `bmap` and `bmap_ensure`. -/
def ensure (A : Nat) (p : Loc) : FsM Nat := do
  let addr ← getPtr A p
  if addr = 0 then do
    let b ← balloc
    setPtr A p b
    return b
  else return addr

def copyOnWrite (A : Nat) (p : Loc) (addr : Nat) : FsM Nat := do
  let ref ← brefGet addr
  if ref > 1 then do
    let newb ← balloc
    let src ← bread addr
    bstore newb src
    logWrite newb
    setPtr A p newb
    bfree addr
    return newb
  else return addr

/-- The place of the pointer to block `bn`, with the index blocks on the way to it. -/
def bmapLoc (A bn : Nat) : FsM Loc :=
  if bn < NDIRECT then return .addr bn
  else
    let bn := bn - NDIRECT
    if bn < NINDIRECT then do
      let x ← ensure A (.addr NDIRECT)
      return .entry x bn
    else
      let bn := bn - NINDIRECT
      if bn < NDINDIRECT then do
        let x ← ensure A (.addr (NDIRECT + 1))
        let y ← ensure A (.entry x (bn / NADDR_PER_BLOCK))
        return .entry y (bn % NADDR_PER_BLOCK)
      else throw .bmapOutOfRange

def bmap (A bn : Nat) (forWrite : Bool) : FsM Nat := do
  let p ← bmapLoc A bn
  let addr ← ensure A p
  if forWrite ∧ addr ≠ 0 then copyOnWrite A p addr else return addr

def bmapNalloc (d : Disk) (ip : Inode) (bn : Nat) : Nat :=
  if bn < NDIRECT then ip.addr bn
  else
    let bn := bn - NDIRECT
    if bn < NINDIRECT then
      let addr := ip.addr NDIRECT
      if addr = 0 then 0 else getWord (d addr) bn
    else
      let bn := bn - NINDIRECT
      if bn < NDINDIRECT then
        let addr := ip.addr (NDIRECT + 1)
        if addr = 0 then 0
        else
          let l1 := getWord (d addr) (bn / NADDR_PER_BLOCK)
          if l1 = 0 then 0 else getWord (d l1) (bn % NADDR_PER_BLOCK)
      else 0

/-- Map a block without allocation: 1 if the inode needs `iupdate`, 0 if not, -1 on failure. -/
def bmapSetExisting (A bn addr : Nat) : FsM Int :=
  if bn < NDIRECT then do
    setPtr A (.addr bn) addr
    return 1
  else
    let bn := bn - NDIRECT
    if bn < NINDIRECT then do
      let b ← getPtr A (.addr NDIRECT)
      if b = 0 then return -1
      else do
        setPtr A (.entry b bn) addr
        return 0
    else
      let bn := bn - NINDIRECT
      if bn < NDINDIRECT then do
        let b ← getPtr A (.addr (NDIRECT + 1))
        if b = 0 then return -1
        else do
          let l1 ← getPtr A (.entry b (bn / NADDR_PER_BLOCK))
          if l1 = 0 then return -1
          else do
            setPtr A (.entry l1 (bn % NADDR_PER_BLOCK)) addr
            return 0
      else return -1

def bmapEnsure (A bn : Nat) : FsM Int :=
  if bn < NDIRECT then return 0
  else
    let bn := bn - NDIRECT
    if bn < NINDIRECT then do
      let b ← getPtr A (.addr NDIRECT)
      let _ ← ensure A (.addr NDIRECT)
      return if b = 0 then 1 else 0
    else
      let bn := bn - NINDIRECT
      if bn < NDINDIRECT then do
        let b ← getPtr A (.addr (NDIRECT + 1))
        let x ← ensure A (.addr (NDIRECT + 1))
        let _ ← ensure A (.entry x (bn / NADDR_PER_BLOCK))
        return if b = 0 then 1 else 0
      else return -1

end OopsOS
