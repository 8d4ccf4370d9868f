import OopsOS.FileOps
import OopsOS.NameCalls

namespace OopsOS
set_option autoImplicit true

inductive FileType where
  | none
  | pipe
  | inode
  | device
  | sock
deriving DecidableEq

structure File where
  type : FileType
  writable : Bool
  ip : Nat
  off : Nat

def sysFtruncate (f : File) (length : Int) : FsM (Int × File) := do
  if length < 0 then return (-1, f)
  else if length.toNat > MAXFILE * BSIZE then return (-1, f)
  else if f.type ≠ .inode then return (-1, f)
  else if f.writable = false then return (-1, f)
  else do
    ilock f.ip
    if ((← get).inode f.ip).type ≠ T_FILE then return (-1, f)
    else do
      itruncTo f.ip length.toNat
      return (0, { f with off := min f.off length.toNat })

/-- `sys_truncate`, where `ip` is the inode that `namei` finds for the path. -/
def sysTruncate (ip : Option Nat) (length : Int) : FsM Int := do
  if length < 0 then return -1
  else if length.toNat > MAXFILE * BSIZE then return -1
  else
    match ip with
    | none => return -1
    | some A => do
      iget A
      ilock A
      if ((← get).inode A).type ≠ T_FILE then do
        iput A
        return -1
      else do
        itruncTo A length.toNat
        iput A
        return 0

def FALLOC_KEEP_SIZE : UInt32 := 0x001
def FALLOC_FL_PUNCH_HOLE : UInt32 := 0x002

def punchMax : Nat := max ((MAXOPBLOCKS - 1 - 2) / 2) 1

def fallocMax : Nat := max ((MAXOPBLOCKS - 1 - 1 - 2) / 2) 1

def punchChunks (A endb : Nat) : Nat → Nat → FsM Int
  | 0, _ => return 0
  | fuel + 1, b =>
    if b < endb then do
      let chunk := min (endb - b) punchMax
      ilock A
      let r ← ipunch A b (b + chunk)
      if r < 0 then return -1
      else punchChunks A endb fuel (b + chunk)
    else return 0

def fallocChunks (A endb target : Nat) (keepSize : Bool) : Nat → Nat → FsM Int
  | 0, _ => return 0
  | fuel + 1, b =>
    if b < endb then do
      let chunk := min (endb - b) fallocMax
      ilock A
      let newsize := min target ((b + chunk) * BSIZE)
      let r ← falloc A b (b + chunk) newsize keepSize
      if r < 0 then return -1
      else fallocChunks A endb target keepSize fuel (b + chunk)
    else return 0

def sysFallocate (f : File) (offset len : Int) (flags : UInt32) : FsM Int := do
  if offset < 0 ∨ len < 0 then return -1
  else if flags &&& ~~~(FALLOC_KEEP_SIZE ||| FALLOC_FL_PUNCH_HOLE) ≠ 0 then return -1
  else if f.type ≠ .inode ∨ ((← get).inode f.ip).type ≠ T_FILE then return -1
  else if f.writable = false then return -1
  else if len = 0 then return 0
  else
    let target := offset.toNat + len.toNat
    if target % 2 ^ 64 < offset.toNat then return -1
    else if target > MAXFILE * BSIZE then return -1
    else
      let startb := offset.toNat / BSIZE
      let endb := (target + BSIZE - 1) / BSIZE
      if flags &&& FALLOC_FL_PUNCH_HOLE ≠ 0 then punchChunks f.ip endb (endb - startb) startb
      else
        fallocChunks f.ip endb target (flags &&& FALLOC_KEEP_SIZE ≠ 0) (endb - startb) startb

structure Handle extends File where
  readable : Bool

def MODE_R : UInt8 := 1

def MODE_W : UInt8 := 2

def Source.drop (src : Source) (i : Nat) : Source :=
  ⟨fun k => src.byte (i + k), fun t m => src.fault (i + t) m⟩

/-- `fileread` of an inode: the bytes copied out, by which the offset moves, or nothing when it
returns -1. -/
def fileread (f : Handle) (copyout : Nat → Nat → Bool) (n : Nat) : FsM (Option (List UInt8)) := do
  if f.readable = false ∨ f.type ≠ .inode then return none
  else do
    ilock f.ip
    let s ← get
    if (s.inode f.ip).mode &&& MODE_R = 0 then return none
    else return some (readi s.blocks (s.inode f.ip) copyout f.off n)

/-- The loop of `sys_readv` with the bytes read so far, by which the offset moves. -/
def readvLoop (f : Handle) (copyout : Nat → Nat → Bool) :
    Nat → List UInt8 → List Nat → FsM (Option (List UInt8))
  | _, got, [] => return some got
  | off, got, len :: lens =>
    if len = 0 then readvLoop f copyout off got lens
    else do
      match ← fileread { f with off := off } copyout len with
      | none => return if 0 < got.length then some got else none
      | some data =>
        if data.length < len then return some (got ++ data)
        else readvLoop f copyout (off + data.length) (got ++ data) lens

def sysReadv (f : Handle) (copyout : Nat → Nat → Bool) (off : Nat) (lens : List Nat) :
    FsM (List UInt8) := do
  let r ← readvLoop f copyout off [] lens
  return r.getD []

def sysPread (f : Handle) (copyout : Nat → Nat → Bool) (count offset : Nat) :
    FsM (List UInt8) := do
  if f.type ≠ .inode ∨ f.readable = false then return []
  else do
    ilock f.ip
    let s ← get
    if (s.inode f.ip).mode &&& MODE_R = 0 then return []
    else return readi s.blocks (s.inode f.ip) copyout offset count

def filewriteLoop (A : Nat) (src : Source) (n : Nat) : Nat → Nat → Nat → FsM (Int × Nat)
  | 0, _, off => return (n, off)
  | fuel + 1, i, off =>
    if i < n then do
      let n1 := min (n - i) writeMax
      ilock A
      if ((← get).inode A).mode &&& MODE_W = 0 then return (-1, off)
      else do
        let r ← writei A (src.drop i) off n1
        if r < 0 then return (-1, off)
        else filewriteLoop A src n fuel (i + n1) (off + r.toNat)
    else return (n, off)

def filewrite (f : Handle) (src : Source) (n : Nat) : FsM (Int × Nat) := do
  if f.writable = false ∨ f.type ≠ .inode then return (-1, f.off)
  else filewriteLoop f.ip src n n 0 f.off

/-- The loop of `sys_writev` over sources of these lengths, with the bytes written so far. -/
def writevLoop (f : Handle) : Nat → Int → List (Source × Nat) → FsM (Int × Nat)
  | off, total, [] => return (total, off)
  | off, total, (src, len) :: iov =>
    if len = 0 then writevLoop f off total iov
    else do
      let (r, off') ← filewrite { f with off := off } src len
      if r < 0 then return (if 0 < total then total else -1, off')
      else if r < len then return (total + r, off')
      else writevLoop f off' (total + r) iov

def sysWritev (f : Handle) (off : Nat) (total : Int) (iov : List (Source × Nat)) : FsM Int := do
  let r ← writevLoop f off total iov
  return r.1

def pwriteLoop (A : Nat) (src : Source) (count offset : Nat) : Nat → Nat → FsM Int
  | 0, total => return total
  | fuel + 1, total =>
    if total < count then do
      let n1 := min (count - total) writeMax
      ilock A
      let r ← pwritePass A (src.drop total) (offset + total) n1
      if r < 0 then return total
      else pwriteLoop A src count offset fuel (total + n1)
    else return total

def sysPwrite (f : Handle) (src : Source) (count offset : Nat) : FsM Int := do
  if f.type ≠ .inode ∨ f.writable = false then return -1
  else do
    let total ← pwriteLoop f.ip src count offset count 0
    return if 0 < total then total else -1

def cloneMax : Nat := max ((MAXOPBLOCKS - 1 - 2) / 2) 1

def lockBoth (src dst : Nat) : FsM Unit :=
  if src < dst then do
    ilock src
    ilock dst
  else do
    ilock dst
    ilock src

def cloneChunks (src dst srcOff dstOff nblocks : Nat) : Nat → Nat → FsM Int
  | 0, _ => return 0
  | fuel + 1, b =>
    if b < nblocks then do
      let chunk := min (nblocks - b) cloneMax
      lockBoth src dst
      let r ← icloneRange src dst (srcOff + b * BSIZE) (dstOff + b * BSIZE) (chunk * BSIZE)
      if r < 0 then return -1
      else cloneChunks src dst srcOff dstOff nblocks fuel (b + chunk)
    else return 0

def sysFclonerange (fsrc fdst : Handle) (srcOff dstOff len : Nat) : FsM Int := do
  let s ← get
  if len = 0 then return 0
  else if srcOff % BSIZE ≠ 0 ∨ dstOff % BSIZE ≠ 0 ∨ len % BSIZE ≠ 0 ∨
      fsrc.type ≠ .inode ∨ fdst.type ≠ .inode ∨
      (s.inode fsrc.ip).type ≠ T_FILE ∨ (s.inode fdst.ip).type ≠ T_FILE ∨
      fsrc.readable = false ∨ fdst.writable = false ∨ fsrc.ip = fdst.ip ∨
      MAXFILE * BSIZE < dstOff + len then return -1
  else do
    ilock fsrc.ip
    if ((← get).inode fsrc.ip).size.toNat < srcOff + len then return -1
    else cloneChunks fsrc.ip fdst.ip srcOff dstOff (len / BSIZE) (len / BSIZE) 0

def sysDedup (src dst : Nat) : FsM Int := do
  if src = dst then return 0
  else do
    lockBoth src dst
    idedup src dst

/-- The end of `sys_open`, with the inode that its path leads to. -/
def openInode (A : Nat) (omode : UInt32) : FsM Handle := do
  ilock A
  let ip := (← get).inode A
  let f : Handle :=
    { type := if ip.type = T_DEVICE then .device else .inode
      writable := Ns.has omode Ns.O_WRONLY || Ns.has omode Ns.O_RDWR
      ip := A
      off := 0
      readable := !Ns.has omode Ns.O_WRONLY }
  if Ns.has omode Ns.O_TRUNC = true ∧ ip.type = T_FILE then do
    itrunc A
    return f
  else return f

/-- A shared mapping of a file, as far as its page faults and its write-back read it. -/
structure Mapping where
  file : Handle
  prot : UInt32
  len : Nat
  offset : Nat
  filesz : Nat

def PROT_READ : UInt32 := 1
def PROT_WRITE : UInt32 := 2

/-- The bytes that `mmap_handler` reads for a load or a store in a page of a mapping. -/
def mmapHandler (vma : Mapping) (pageOff : Nat) (store : Bool) : FsM (List UInt8) := do
  if vma.prot &&& (if store then PROT_WRITE else PROT_READ) = 0 then return []
  else if vma.file.readable = false ∨ store = true ∧ vma.file.writable = false then return []
  else if pageOff < vma.filesz then do
    ilock vma.file.ip
    let s ← get
    return readi s.blocks (s.inode vma.file.ip) (fun _ _ => true) (vma.offset + pageOff)
      (min (vma.filesz - pageOff) 4096)
  else return []

def vmaWriteback (vma : Mapping) (pageOff : Nat) (page : Nat → UInt8) : FsM Int := do
  if vma.file.type ≠ .inode then return -1
  else if vma.prot &&& PROT_WRITE = 0 then return 0
  else if vma.len ≤ pageOff then return 0
  else do
    let n := min 4096 (vma.len - pageOff)
    ilock vma.file.ip
    let r ← writei vma.file.ip (.kernel page) (vma.offset + pageOff) n
    return if r = n then 0 else -1

def R_OK : UInt32 := 4
def W_OK : UInt32 := 2
def X_OK : UInt32 := 1

def sysAccess (A : Nat) (mode : UInt32) : FsM Int := do
  ilock A
  let ip := (← get).inode A
  if mode = 0 then return 0
  else if mode &&& R_OK ≠ 0 ∧ ip.mode &&& 4 = 0 ∨ mode &&& W_OK ≠ 0 ∧ ip.mode &&& 2 = 0 ∨
      mode &&& X_OK ≠ 0 ∧ ip.mode &&& 1 = 0 then return -1
  else return 0

/-- The calls that reach the bytes of a file; `unmap` and `evict` are the writes of a mapping. -/
inductive DataCall where
  | read (f : Handle) (copyout : Nat → Nat → Bool) (n : Nat)
  | readv (f : Handle) (copyout : Nat → Nat → Bool) (lens : List Nat)
  | pread (f : Handle) (copyout : Nat → Nat → Bool) (count offset : Nat)
  | write (f : Handle) (src : Source) (n : Nat)
  | writev (f : Handle) (iov : List (Source × Nat))
  | pwrite (f : Handle) (src : Source) (count offset : Nat)
  | truncate (A : Nat) (length : Int)
  | ftruncate (f : Handle) (length : Int)
  | fallocate (f : Handle) (offset len : Int) (flags : UInt32)
  | fclonerange (fsrc fdst : Handle) (srcOff dstOff len : Nat)
  | dedup (src dst : Nat)
  | «open» (A : Nat) (omode : UInt32)
  | fault (vma : Mapping) (pageOff : Nat) (store : Bool)
  | unmap (vma : Mapping) (src : Source) (n : Nat)
  | evict (vma : Mapping) (pageOff : Nat) (page : Nat → UInt8)
  | access (A : Nat) (mode : UInt32)

def DataCall.exec : DataCall → FsM (List UInt8)
  | read f copyout n => do
    let r ← fileread f copyout n
    return r.getD []
  | readv f copyout lens => sysReadv f copyout f.off lens
  | pread f copyout count offset => sysPread f copyout count offset
  | write f src n => do
    let _ ← filewrite f src n
    return []
  | writev f iov => do
    let _ ← sysWritev f f.off 0 iov
    return []
  | pwrite f src count offset => do
    let _ ← sysPwrite f src count offset
    return []
  | truncate A length => do
    let _ ← sysTruncate (some A) length
    return []
  | ftruncate f length => do
    let _ ← sysFtruncate f.toFile length
    return []
  | fallocate f offset len flags => do
    let _ ← sysFallocate f.toFile offset len flags
    return []
  | fclonerange fsrc fdst srcOff dstOff len => do
    let _ ← sysFclonerange fsrc fdst srcOff dstOff len
    return []
  | dedup src dst => do
    let _ ← sysDedup src dst
    return []
  | «open» A omode => do
    let _ ← openInode A omode
    return []
  | fault vma pageOff store => mmapHandler vma pageOff store
  | unmap vma src n => do
    let _ ← filewrite vma.file src n
    return []
  | evict vma pageOff page => do
    let _ ← vmaWriteback vma pageOff page
    return []
  | access A mode => do
    let _ ← sysAccess A mode
    return []

end OopsOS
