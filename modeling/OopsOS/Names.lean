import OopsOS.Computation
import OopsOS.Layout
import OopsOS.Limits

namespace OopsOS.Ns
set_option autoImplicit true
open Function

abbrev DIRSIZ : Nat := 14
abbrev MAXPATH : Nat := 128
abbrev ROOTINO : Nat := 1
abbrev NDEV : Int16 := 10
abbrev MAX_SYMLINK_DEPTH : Nat := 10

/-- The slots of the system-wide file table, `NFILE` of them. -/
abbrev FileSlot := Fin 100

/-- The slots of the process table, `NPROC` of them. -/
abbrev ProcSlot := Fin 64

/-- The descriptors of a process, `NOFILE` of them. -/
abbrev Fd := Fin 16

inductive InodeType where
  | free
  | dir
  | file
  | device
  | symlink
deriving DecidableEq

abbrev Path := List UInt8

/-- The bytes of a path element, at most `DIRSIZ` of them, as `namecmp` compares them. -/
abbrev Name := List UInt8

def slash : UInt8 := 47

def dot : Name := [46]

def dotdot : Name := [46, 46]

/-- A slot of a directory; inode number 0 marks a free slot. -/
structure Dirent where
  inum : Nat
  name : Name
deriving DecidableEq

def Dirent.empty : Dirent := ⟨0, []⟩

/-- An inode: the slots of a directory and the target of a symbolic link are its content. -/
structure Node where
  type : InodeType
  major : Int16
  minor : Int16
  nlink : Int16
  entries : List Dirent
  target : Option Path
deriving DecidableEq

structure OpenFile where
  ref : Nat
  device : Bool
  ip : Nat
  readable : Bool
  writable : Bool
deriving DecidableEq

/-- The inodes by number, their cache entries, the file table and the processes' references. -/
structure NsState where
  node : Nat → Node
  ref : Nat → Nat
  valid : Nat → Bool
  locked : Nat → Bool
  files : FileSlot → Option OpenFile
  ofile : ProcSlot → Fd → Option FileSlot
  cwd : ProcSlot → Option Nat

inductive Stop where
  | panic (msg : String)
  | deadlock
  | endless
deriving DecidableEq

abbrev NsM := Comp NsState Stop

def NsState.full (s : NsState) : Bool :=
  decide (NINODE ≤ (List.range NINODES).countP (fun i => decide (0 < s.ref i)))

def NsState.setRef (s : NsState) (i n : Nat) : NsState :=
  { s with ref := update s.ref i n }

def NsState.setValid (s : NsState) (i : Nat) (b : Bool) : NsState :=
  { s with valid := update s.valid i b }

def NsState.setLocked (s : NsState) (i : Nat) (b : Bool) : NsState :=
  { s with locked := update s.locked i b }

def NsState.setNode (s : NsState) (i : Nat) (n : Node) : NsState :=
  { s with node := update s.node i n }

def getNode (i : Nat) : NsM Node := do
  let s ← get
  pure (s.node i)

def setNode (i : Nat) (n : Node) : NsM Unit :=
  modify (·.setNode i n)

def iget (i : Nat) : NsM Unit := do
  let s ← get
  if 0 < s.ref i then
    set (s.setRef i (s.ref i + 1))
  else if s.full then
    throw (.panic "iget: no inodes")
  else
    set ((s.setRef i 1).setValid i false)

def idup (i : Nat) : NsM Unit :=
  modify (fun s => s.setRef i (s.ref i + 1))

/-- The lock of an inode that is held can only be held by the calling process. -/
def ilock (i : Nat) : NsM Unit := do
  let s ← get
  if s.ref i < 1 then
    throw (.panic "ilock")
  else if s.locked i then
    throw .deadlock
  else if s.valid i then
    set (s.setLocked i true)
  else if (s.node i).type = .free then
    throw (.panic "ilock: no type")
  else
    set ((s.setLocked i true).setValid i true)

def iunlock (i : Nat) : NsM Unit := do
  let s ← get
  if s.locked i = false ∨ s.ref i < 1 then
    throw (.panic "iunlock")
  else
    set (s.setLocked i false)

def Node.freed (n : Node) : Node :=
  { n with type := .free, entries := [], target := none }

def iput (i : Nat) : NsM Unit := do
  let s ← get
  if s.ref i = 1 ∧ s.valid i = true ∧ (s.node i).nlink = 0 then
    if s.locked i then
      throw .deadlock
    else
      set (((s.setNode i (s.node i).freed).setValid i false).setRef i (s.ref i - 1))
  else
    set (s.setRef i (s.ref i - 1))

def iunlockput (i : Nat) : NsM Unit := do
  iunlock i
  iput i

def NsState.firstFree (s : NsState) : Option Nat :=
  (List.range' 1 (NINODES - 1)).find? (fun i => decide ((s.node i).type = .free))

def ialloc (type : InodeType) : NsM Nat := do
  let s ← get
  match s.firstFree with
  | some i =>
    setNode i { type := type, major := 0, minor := 0, nlink := 0, entries := [], target := none }
    iget i
    pure i
  | none => throw (.panic "ialloc: no inodes")

def slotOf (es : List Dirent) (name : Name) : Option Nat :=
  es.findIdx? (fun e => decide (e.inum ≠ 0 ∧ e.name = name))

def inumAt (es : List Dirent) (k : Nat) : Nat :=
  (es[k]?.getD .empty).inum

def dirlookup (dp : Nat) (name : Name) : NsM (Option (Nat × Nat)) := do
  let d ← getNode dp
  if d.type ≠ .dir then
    throw (.panic "dirlookup not DIR")
  else
    match slotOf d.entries name with
    | some k =>
      iget (inumAt d.entries k)
      pure (some (inumAt d.entries k, k))
    | none => pure none

/-- Writing the slot at an index, behind the last one when the index is the length. -/
def putSlot (es : List Dirent) (k : Nat) (e : Dirent) : List Dirent :=
  if k < es.length then es.set k e else es ++ [e]

def writeSlot (dp k : Nat) (e : Dirent) : NsM Unit := do
  let d ← getNode dp
  setNode dp { d with entries := putSlot d.entries k e }

def freeSlot (es : List Dirent) : Nat :=
  es.findIdx (fun e => decide (e.inum = 0))

def dirlink (dp : Nat) (name : Name) (inum : Nat) : NsM Bool := do
  match ← dirlookup dp name with
  | some (ip, _) =>
    iput ip
    pure false
  | none =>
    let d ← getNode dp
    writeSlot dp (freeSlot d.entries) ⟨inum, name⟩
    pure true

def skipelem (path : Path) : Option (Name × Path) :=
  match path.dropWhile (· == slash) with
  | [] => none
  | s => some ((s.takeWhile (· != slash)).take DIRSIZ,
      (s.dropWhile (· != slash)).dropWhile (· == slash))

def elements : Nat → Path → List Name
  | 0, _ => []
  | n + 1, path =>
    match skipelem path with
    | none => []
    | some (name, rest) => name :: elements n rest

/-- All elements of a path: each has at least one byte. -/
def namesOf (path : Path) : List Name := elements path.length path

def namexLoop (parent : Bool) : Nat → List Name → NsM (Option (Nat × Name))
  | ip, [] =>
    if parent then do
      iput ip
      pure none
    else
      pure (some (ip, []))
  | ip, name :: rest => do
    ilock ip
    let n ← getNode ip
    if n.type ≠ .dir then
      iunlockput ip
      pure none
    else if parent ∧ rest = [] then
      iunlock ip
      pure (some (ip, name))
    else
      match ← dirlookup ip name with
      | none =>
        iunlockput ip
        pure none
      | some (next, _) =>
        iunlockput ip
        namexLoop parent next rest

def startOf (p : ProcSlot) (path : Path) : NsM Nat :=
  if path.head? = some slash then do
    iget ROOTINO
    pure ROOTINO
  else do
    let s ← get
    match s.cwd p with
    | some i =>
      idup i
      pure i
    | none => throw (.panic "idup")

def namex (p : ProcSlot) (parent : Bool) (path : Path) : NsM (Option (Nat × Name)) := do
  let ip ← startOf p path
  namexLoop parent ip (namesOf path)

def namei (p : ProcSlot) (path : Path) : NsM (Option Nat) := do
  match ← namex p false path with
  | some (ip, _) => pure (some ip)
  | none => pure none

def nameiparent (p : ProcSlot) (path : Path) : NsM (Option (Nat × Name)) :=
  namex p true path

def addLink (i : Nat) (d : Int16) : NsM Unit := do
  let n ← getNode i
  setNode i { n with nlink := n.nlink + d }

def newNode (type : InodeType) (major minor : Int16) : NsM Nat := do
  let ip ← ialloc type
  ilock ip
  let n ← getNode ip
  setNode ip { n with major := major, minor := minor, nlink := 1, type := type }
  pure ip

def addParentLink (type : InodeType) (dp : Nat) (d : Int16) : NsM Unit :=
  if type = .dir then addLink dp d else pure ()

def linkDots (type : InodeType) (dp ip : Nat) : NsM Unit :=
  if type = .dir then do
    addLink dp 1
    if ← dirlink ip dot ip then
      if ← dirlink ip dotdot dp then
        pure ()
      else
        throw (.panic "create dots")
    else
      throw (.panic "create dots")
  else
    pure ()

def create (p : ProcSlot) (path : Path) (type : InodeType) (major minor : Int16) :
    NsM (Option Nat) := do
  match ← nameiparent p path with
  | none => pure none
  | some (dp, name) =>
    ilock dp
    match ← dirlookup dp name with
    | some (ip, _) =>
      iunlockput dp
      ilock ip
      let n ← getNode ip
      if type = .file ∧ (n.type = .file ∨ n.type = .device) then
        pure (some ip)
      else
        iunlockput ip
        pure none
    | none =>
      let ip ← newNode type major minor
      linkDots type dp ip
      if ← dirlink dp name ip then
        iunlockput dp
        pure (some ip)
      else
        throw (.panic "create: dirlink")

def createExclusive (p : ProcSlot) (path : Path) (type : InodeType) (major minor : Int16) :
    NsM (Option Nat) := do
  match ← nameiparent p path with
  | none => pure none
  | some (dp, name) =>
    ilock dp
    match ← dirlookup dp name with
    | some (ip, _) =>
      iput ip
      iunlockput dp
      pure none
    | none =>
      let ip ← newNode type major minor
      if ← dirlink dp name ip then
        iunlockput dp
        pure (some ip)
      else
        throw (.panic "create_exclusive: dirlink")

end OopsOS.Ns
