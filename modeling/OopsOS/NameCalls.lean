import OopsOS.Names
import Mathlib.Logic.Relation

namespace OopsOS.Ns
set_option autoImplicit true
open Function

def O_RDONLY : UInt32 := 0x000
def O_WRONLY : UInt32 := 0x001
def O_RDWR : UInt32 := 0x002
def O_NOFOLLOW : UInt32 := 0x004
def O_CREATE : UInt32 := 0x200
def O_TRUNC : UInt32 := 0x400

def has (omode flag : UInt32) : Bool := omode &&& flag != 0

def argstr (path : Path) : Bool := decide (path.length < MAXPATH)

def linkBad (ip : Nat) : NsM Int := do
  ilock ip
  addLink ip (-1)
  iunlockput ip
  pure (-1)

def sysLink (p : ProcSlot) (old new : Path) : NsM Int := do
  if ¬ (argstr old ∧ argstr new) then
    pure (-1)
  else
    match ← namei p old with
    | none => pure (-1)
    | some ip =>
      ilock ip
      let n ← getNode ip
      if n.type = .dir then
        iunlockput ip
        pure (-1)
      else
        addLink ip 1
        iunlock ip
        match ← nameiparent p new with
        | none => linkBad ip
        | some (dp, name) =>
          ilock dp
          if ← dirlink dp name ip then
            iunlockput dp
            iput ip
            pure 0
          else
            iunlockput dp
            linkBad ip

def isdirempty (es : List Dirent) : Bool :=
  (es.drop 2).all (fun e => decide (e.inum = 0))

def setDotdot (dir parent : Nat) : NsM Bool := do
  let n ← getNode dir
  match n.entries[1]? with
  | none => pure false
  | some e =>
    if e.name = dotdot then
      writeSlot dir 1 ⟨parent, e.name⟩
      pure true
    else
      pure false

/-- The loop of `dir_is_descendant`; a walk longer than the number of inodes never ends. -/
def descendantLoop (inum : Nat) : Nat → Nat → NsM Bool
  | 0, _ => throw .endless
  | n + 1, cur => do
    ilock cur
    if cur = inum then
      iunlockput cur
      pure true
    else
      let parent ← dirlookup cur dotdot
      iunlockput cur
      match parent with
      | none => pure false
      | some (up, _) =>
        if up = cur then
          iput up
          pure false
        else
          descendantLoop inum n up

def dirIsDescendant (start inum : Nat) : NsM Bool := do
  idup start
  descendantLoop inum (NINODES + 1) start

def sysUnlink (p : ProcSlot) (path : Path) : NsM Int := do
  if ¬ argstr path then
    pure (-1)
  else
    match ← nameiparent p path with
    | none => pure (-1)
    | some (dp, name) =>
      ilock dp
      if name = dot ∨ name = dotdot then
        iunlockput dp
        pure (-1)
      else
        match ← dirlookup dp name with
        | none =>
          iunlockput dp
          pure (-1)
        | some (ip, off) =>
          ilock ip
          let n ← getNode ip
          if n.nlink < 1 then
            throw (.panic "unlink: nlink < 1")
          else if n.type = .dir ∧ isdirempty n.entries = false then
            iunlockput ip
            iunlockput dp
            pure (-1)
          else
            writeSlot dp off .empty
            addParentLink n.type dp (-1)
            iunlockput dp
            addLink ip (-1)
            iunlockput ip
            pure 0

def renameOver (olddp newdp ip ip2 offOld offNew : Nat) : NsM Int := do
  let n ← getNode ip
  let n2 ← getNode ip2
  if n.type = .dir ∧ (n2.type ≠ .dir ∨ isdirempty n2.entries = false) then
    pure (-1)
  else if n.type ≠ .dir ∧ n2.type = .dir then
    pure (-1)
  else if ip2 = ip then
    writeSlot olddp offOld .empty
    addLink ip (-1)
    pure 0
  else
    let d ← getNode newdp
    writeSlot newdp offNew ⟨ip, (d.entries[offNew]?.getD .empty).name⟩
    if n2.nlink < 1 then
      throw (.panic "rename: target nlink < 1")
    else
      addLink ip2 (-1)
      if n.type = .dir then
        addLink olddp (-1)
        if olddp ≠ newdp then
          if ← setDotdot ip newdp then
            writeSlot olddp offOld .empty
            pure 0
          else
            pure (-1)
        else
          writeSlot olddp offOld .empty
          pure 0
      else
        writeSlot olddp offOld .empty
        pure 0

def renameInto (olddp newdp ip offOld : Nat) (newname : Name) : NsM Int := do
  if olddp = newdp then
    writeSlot olddp offOld ⟨ip, newname⟩
    pure 0
  else if ← dirlink newdp newname ip then
    let n ← getNode ip
    if n.type = .dir then
      addLink newdp 1
      addLink olddp (-1)
      if ← setDotdot ip newdp then
        writeSlot olddp offOld .empty
        pure 0
      else
        pure (-1)
    else
      writeSlot olddp offOld .empty
      pure 0
  else
    pure (-1)

def renameLocked (olddp newdp : Nat) (oldname newname : Name) : NsM Int := do
  match ← dirlookup olddp oldname with
  | none => pure (-1)
  | some (ip, offOld) =>
    ilock ip
    match ← dirlookup newdp newname with
    | some (ip2, offNew) =>
      ilock ip2
      let ret ← renameOver olddp newdp ip ip2 offOld offNew
      iunlockput ip2
      iunlockput ip
      pure ret
    | none =>
      let ret ← renameInto olddp newdp ip offOld newname
      iunlockput ip
      pure ret

def renameAllowed (p : ProcSlot) (old : Path) (newdp : Nat) : NsM Bool := do
  match ← namei p old with
  | none => pure false
  | some ipCheck =>
    ilock ipCheck
    let n ← getNode ipCheck
    iunlock ipCheck
    if n.type = .dir then
      let below ← dirIsDescendant newdp ipCheck
      iput ipCheck
      pure (!below)
    else
      iput ipCheck
      pure true

def lockPair (i j : Nat) : NsM Unit := do
  if i < j then
    ilock i
    ilock j
  else
    ilock j
    ilock i

def isDots (name : Name) : Bool := decide (name = dot ∨ name = dotdot)

def sysRename (p : ProcSlot) (old new : Path) : NsM Int := do
  if ¬ (argstr old ∧ argstr new) then
    pure (-1)
  else if old = new then
    pure 0
  else
    match ← nameiparent p old with
    | none => pure (-1)
    | some (olddp, oldname) =>
      match ← nameiparent p new with
      | none =>
        iput olddp
        pure (-1)
      | some (newdp, newname) =>
        if isDots oldname || isDots newname then
          iput olddp
          iput newdp
          pure (-1)
        else if olddp = newdp then
          ilock olddp
          let ret ← renameLocked olddp newdp oldname newname
          iunlockput olddp
          pure ret
        else if ← renameAllowed p old newdp then
          lockPair olddp newdp
          let ret ← renameLocked olddp newdp oldname newname
          iunlockput olddp
          iunlockput newdp
          pure ret
        else
          iput olddp
          iput newdp
          pure (-1)

def follow (p : ProcSlot) : Nat → Nat → NsM (Option Nat)
  | 0, ip => pure (some ip)
  | n + 1, ip => do
    match (← getNode ip).target with
    | none =>
      iunlockput ip
      pure none
    | some path =>
      iunlockput ip
      match ← namei p path with
      | none => pure none
      | some ip' =>
        ilock ip'
        if (← getNode ip').type = .symlink then
          follow p n ip'
        else
          pure (some ip')

def openFirst (p : ProcSlot) (path : Path) (omode : UInt32) : NsM (Option Nat) := do
  if has omode O_CREATE then
    create p path .file 0 0
  else
    match ← namei p path with
    | none => pure none
    | some ip =>
      ilock ip
      if (← getNode ip).type = .dir ∧ omode ≠ O_RDONLY then
        iunlockput ip
        pure none
      else
        pure (some ip)

def openLast (p : ProcSlot) (ip : Nat) (omode : UInt32) : NsM (Option Nat) := do
  let n ← getNode ip
  if n.type = .device ∧ (n.major < 0 ∨ NDEV ≤ n.major) then
    iunlockput ip
    pure none
  else if n.type = .symlink ∧ has omode O_NOFOLLOW = false then
    match ← follow p MAX_SYMLINK_DEPTH ip with
    | none => pure none
    | some ip' =>
      if (← getNode ip').type = .symlink then
        iunlockput ip'
        pure none
      else
        pure (some ip')
  else
    pure (some ip)

def NsState.freeFile (s : NsState) : Option FileSlot :=
  (List.finRange 100).find? (fun f => (s.files f).isNone)

def NsState.freeFd (s : NsState) (p : ProcSlot) : Option Fd :=
  (List.finRange 16).find? (fun fd => (s.ofile p fd).isNone)

def NsState.install (s : NsState) (p : ProcSlot) (f : FileSlot) (fd : Fd) (file : OpenFile) :
    NsState :=
  { s with
    files := update s.files f (some file)
    ofile := update s.ofile p (update (s.ofile p) fd (some f)) }

def fileFor (ip : Nat) (type : InodeType) (omode : UInt32) : OpenFile where
  ref := 1
  device := decide (type = .device)
  ip := ip
  readable := !has omode O_WRONLY
  writable := has omode O_WRONLY || has omode O_RDWR

def sysOpen (p : ProcSlot) (path : Path) (omode : UInt32) : NsM Int := do
  if ¬ argstr path then
    pure (-1)
  else
    match ← openFirst p path omode with
    | none => pure (-1)
    | some ip0 =>
      match ← openLast p ip0 omode with
      | none => pure (-1)
      | some ip =>
        let s ← get
        match s.freeFile, s.freeFd p with
        | some f, some fd =>
          set (s.install p f fd (fileFor ip (s.node ip).type omode))
          iunlock ip
          pure fd.val
        | _, _ =>
          iunlockput ip
          pure (-1)

def sysMake (p : ProcSlot) (path : Path) (type : InodeType) (major minor : Int16) : NsM Int := do
  if ¬ argstr path then
    pure (-1)
  else
    match ← create p path type major minor with
    | none => pure (-1)
    | some ip =>
      iunlockput ip
      pure 0

def sysMkdir (p : ProcSlot) (path : Path) : NsM Int := sysMake p path .dir 0 0

def sysMknod (p : ProcSlot) (path : Path) (major minor : Int32) : NsM Int :=
  sysMake p path .device major.toInt16 minor.toInt16

def sysSymlink (p : ProcSlot) (target path : Path) : NsM Int := do
  if ¬ (argstr target ∧ argstr path) then
    pure (-1)
  else
    match ← create p path .symlink 0 0 with
    | none => pure (-1)
    | some ip =>
      let n ← getNode ip
      setNode ip { n with target := some target }
      iunlockput ip
      pure 0

def putCwd (p : ProcSlot) : NsM Unit := do
  let s ← get
  match s.cwd p with
  | some i => iput i
  | none => throw (.panic "iput")

def sysChdir (p : ProcSlot) (path : Path) : NsM Int := do
  if ¬ argstr path then
    pure (-1)
  else
    match ← namei p path with
    | none => pure (-1)
    | some ip =>
      ilock ip
      let n ← getNode ip
      if n.type ≠ .dir then
        iunlockput ip
        pure (-1)
      else
        iunlock ip
        putCwd p
        modify (fun s => { s with cwd := update s.cwd p (some ip) })
        pure 0

def sysFclone (p : ProcSlot) (src dst : Path) : NsM Int := do
  if ¬ (argstr src ∧ argstr dst) then
    pure (-1)
  else
    match ← namei p src with
    | none => pure (-1)
    | some ipSrc =>
      ilock ipSrc
      if (← getNode ipSrc).type ≠ .file then
        iunlockput ipSrc
        pure (-1)
      else
        match ← createExclusive p dst .file 0 0 with
        | none =>
          iunlockput ipSrc
          pure (-1)
        | some ipDst =>
          iunlockput ipDst
          iunlockput ipSrc
          pure 0

def sysTruncate (p : ProcSlot) (path : Path) (length : Int) : NsM Int := do
  if ¬ argstr path ∨ length < 0 ∨ (MAXFILE * BSIZE : Nat) < length then
    pure (-1)
  else
    match ← namei p path with
    | none => pure (-1)
    | some ip =>
      ilock ip
      if (← getNode ip).type ≠ .file then
        iunlockput ip
        pure (-1)
      else
        iunlockput ip
        pure 0

/-- `sys_dedup`; the number of blocks shared is not in this model and counts as 0. -/
def sysDedup (p : ProcSlot) (srcpath dstpath : Path) : NsM Int := do
  if ¬ (argstr srcpath ∧ argstr dstpath) then
    pure (-1)
  else if srcpath = dstpath then
    pure 0
  else
    match ← namei p srcpath with
    | none => pure (-1)
    | some src =>
      match ← namei p dstpath with
      | none =>
        iput src
        pure (-1)
      | some dst =>
        if src = dst then
          iput src
          iput dst
          pure 0
        else
          lockPair src dst
          let ret := if (← getNode src).type ≠ .file ∨ (← getNode dst).type ≠ .file then -1 else 0
          iunlockput src
          iunlockput dst
          pure ret

def fileclose (f : FileSlot) : NsM Unit := do
  let s ← get
  match s.files f with
  | none => throw (.panic "fileclose")
  | some file =>
    if 1 < file.ref then
      set { s with files := update s.files f (some { file with ref := file.ref - 1 }) }
    else
      set { s with files := update s.files f none }
      iput file.ip

def sysClose (p : ProcSlot) (fd : Fd) : NsM Int := do
  let s ← get
  match s.ofile p fd with
  | none => pure (-1)
  | some f =>
    set { s with ofile := update s.ofile p (update (s.ofile p) fd none) }
    fileclose f
    pure 0

inductive Call where
  | link (old new : Path)
  | unlink (path : Path)
  | rename (old new : Path)
  | open (path : Path) (omode : UInt32)
  | mkdir (path : Path)
  | mknod (path : Path) (major minor : Int32)
  | symlink (target path : Path)
  | chdir (path : Path)
  | fclone (src dst : Path)
  | truncate (path : Path) (length : Int)
  | dedup (src dst : Path)
  | close (fd : Fd)

def Call.exec (p : ProcSlot) : Call → NsM Int
  | link old new => sysLink p old new
  | unlink path => sysUnlink p path
  | rename old new => sysRename p old new
  | .open path omode => sysOpen p path omode
  | mkdir path => sysMkdir p path
  | mknod path major minor => sysMknod p path major minor
  | symlink target path => sysSymlink p target path
  | chdir path => sysChdir p path
  | fclone src dst => sysFclone p src dst
  | truncate path length => sysTruncate p path length
  | dedup src dst => sysDedup p src dst
  | close fd => sysClose p fd

abbrev Nodes := Nat → Node

/-- The inode a path leads to, or the directory of its last element and that element. -/
def resolve (N : Nodes) (parent : Bool) : Nat → List Name → Option (Nat × Name)
  | i, [] => if parent then none else some (i, [])
  | i, name :: rest =>
    if (N i).type ≠ .dir then
      none
    else if parent ∧ rest = [] then
      some (i, name)
    else
      match slotOf (N i).entries name with
      | none => none
      | some k => resolve N parent (inumAt (N i).entries k) rest

def visits (N : Nodes) (parent : Bool) : Nat → List Name → List Nat
  | _, [] => []
  | i, name :: rest =>
    if (N i).type ≠ .dir ∨ parent ∧ rest = [] then
      [i]
    else
      match slotOf (N i).entries name with
      | none => [i]
      | some k => i :: visits N parent (inumAt (N i).entries k) rest

def NsState.start (s : NsState) (p : ProcSlot) (path : Path) : Option Nat :=
  if path.head? = some slash then some ROOTINO else s.cwd p

def NsState.find (s : NsState) (p : ProcSlot) (parent : Bool) (path : Path) :
    Option (Nat × Name) :=
  (s.start p path).bind (fun i => resolve s.node parent i (namesOf path))

def NsState.passes (s : NsState) (p : ProcSlot) (parent : Bool) (path : Path) : List Nat :=
  ((s.start p path).map (fun i => visits s.node parent i (namesOf path))).getD []

/-- The inodes on the way of a process along a path, with the one it starts from. -/
def NsState.walk (s : NsState) (p : ProcSlot) (path : Path) : List Nat :=
  (s.start p path).toList ++ s.passes p false path

def Names (N : Nodes) (d i : Nat) : Prop :=
  (N d).type = .dir ∧ ∃ name k, slotOf (N d).entries name = some k ∧ inumAt (N d).entries k = i

def putEntry (N : Nodes) (d k : Nat) (e : Dirent) : Nodes :=
  update N d { N d with entries := putSlot (N d).entries k e }

def relink (N : Nodes) (i : Nat) (δ : Int16) : Nodes :=
  update N i { N i with nlink := (N i).nlink + δ }

def linkName (N : Nodes) (d : Nat) (name : Name) (i : Nat) : Nodes :=
  putEntry N d (freeSlot (N d).entries) ⟨i, name⟩

def fresh (type : InodeType) (major minor : Int16) : Node where
  type := type
  major := major
  minor := minor
  nlink := 1
  entries := []
  target := none

def dotted (N : Nodes) (type : InodeType) (dp ip : Nat) : Nodes :=
  if type = .dir then linkName (linkName (relink N dp 1) ip dot ip) ip dotdot dp else N

def relinkParent (N : Nodes) (type : InodeType) (dp : Nat) (δ : Int16) : Nodes :=
  if type = .dir then relink N dp δ else N

def made (N : Nodes) (dp ip : Nat) (name : Name) (n : Node) : Nodes :=
  linkName (dotted (update N ip n) n.type dp ip) dp name ip

def unlinked (N : Nodes) (dp k ip : Nat) : Nodes :=
  relink (relinkParent (putEntry N dp k .empty) (N ip).type dp (-1)) ip (-1)

def replaced (N : Nodes) (olddp newdp ip ip2 k k2 : Nat) : Nodes :=
  let N₁ := relink (putEntry N newdp k2 ⟨ip, ((N newdp).entries[k2]?.getD .empty).name⟩) ip2 (-1)
  let N₂ := relinkParent N₁ (N ip).type olddp (-1)
  let N₃ := if (N ip).type = .dir ∧ olddp ≠ newdp then putEntry N₂ ip 1 ⟨newdp, dotdot⟩ else N₂
  putEntry N₃ olddp k .empty

def moved (N : Nodes) (olddp newdp ip k : Nat) (newname : Name) : Nodes :=
  let N₁ := linkName N newdp newname ip
  let N₂ := if (N ip).type = .dir then
      putEntry (relink (relink N₁ newdp 1) olddp (-1)) ip 1 ⟨newdp, dotdot⟩
    else N₁
  putEntry N₂ olddp k .empty

def descends (N : Nodes) (inum : Nat) : Nat → Nat → Option Bool
  | 0, _ => none
  | n + 1, cur =>
    if cur = inum then
      some true
    else
      match slotOf (N cur).entries dotdot with
      | none => some false
      | some k =>
        if inumAt (N cur).entries k = cur then some false
        else descends N inum n (inumAt (N cur).entries k)

structure Entry (N : Nodes) (d : Nat) (name : Name) (k i : Nat) : Prop where
  dir : (N d).type = .dir
  proper : isDots name = false
  slot : slotOf (N d).entries name = some k
  inum : inumAt (N d).entries k = i

/-- What a call can do to the inodes, in places that have a property. -/
inductive Step (P : Nat → Prop) (N : Nodes) : Nodes → Prop
  | make (hP : P dp) (hdp : (N dp).type = .dir) (hname : slotOf (N dp).entries name = none)
      (hip : (N ip).type = .free) (hpos : 0 < ip) (hlt : ip < NINODES) (ht : type ≠ .free) :
      Step P N (made N dp ip name (fresh type major minor))
  | link (hP : P dp) (hdp : (N dp).type = .dir) (hname : slotOf (N dp).entries name = none)
      (hip : (N ip).type ≠ .free) (hdir : (N ip).type ≠ .dir)
      (hfrom : P ip ∨ ∃ d, P d ∧ Names N d ip) :
      Step P N (linkName (relink N ip 1) dp name ip)
  | unlink (he : Entry N dp name k ip) (hne : dp ≠ ip) (hip : (N ip).type ≠ .free)
      (hlinks : 1 ≤ (N ip).nlink)
      (hempty : (N ip).type = .dir → isdirempty (N ip).entries = true) :
      Step P N (unlinked N dp k ip)
  | rename (hP : P dp) (he : Entry N dp name k ip) (hnew : slotOf (N dp).entries newname = none)
      (hp : isDots newname = false) : Step P N (putEntry N dp k ⟨ip, newname⟩)
  | replace (hP : P newdp) (he : Entry N olddp name k ip) (he2 : Entry N newdp newname k2 ip2)
      (hne : ip ≠ ip2) (holddp : olddp ≠ ip ∧ olddp ≠ ip2) (hnewdp : newdp ≠ ip ∧ newdp ≠ ip2)
      (hip : (N ip).type ≠ .free) (hip2 : (N ip2).type ≠ .free)
      (hdir : (N ip).type = .dir → (N ip2).type = .dir ∧ isdirempty (N ip2).entries = true)
      (hfile : (N ip).type ≠ .dir → (N ip2).type ≠ .dir)
      (hlinks : 1 ≤ (N ip2).nlink)
      (hdots : (N ip).type = .dir → olddp ≠ newdp → ∃ up, (N ip).entries[1]? = some ⟨up, dotdot⟩)
      (hbelow : (N ip).type = .dir → olddp ≠ newdp →
        descends N ip (NINODES + 1) newdp = some false) :
      Step P N (replaced N olddp newdp ip ip2 k k2)
  | move (hP : P newdp) (he : Entry N olddp name k ip) (hnewdp : (N newdp).type = .dir)
      (hnew : slotOf (N newdp).entries newname = none) (hp : isDots newname = false)
      (hne : olddp ≠ newdp) (hold : olddp ≠ ip) (hip : newdp ≠ ip) (hfree : (N ip).type ≠ .free)
      (hdots : (N ip).type = .dir → ∃ up, (N ip).entries[1]? = some ⟨up, dotdot⟩)
      (hbelow : (N ip).type = .dir → descends N ip (NINODES + 1) newdp = some false) :
      Step P N (moved N olddp newdp ip k newname)
  | broken (he : Entry N olddp name k ip) (hdir : (N ip).type = .dir)
      (hdots : ∀ up, (N ip).entries[1]? ≠ some ⟨up, dotdot⟩) : Step P N N'

inductive Settle (N : Nodes) : Nodes → Prop
  | target (ht : (N ip).type = .symlink) :
      Settle N (update N ip { N ip with target := some path })
  | free (hn : (N i).nlink = 0) : Settle N (update N i (N i).freed)

def Settles : Nodes → Nodes → Prop := Relation.ReflTransGen Settle

def Effects (P : Nat → Prop) (N M : Nodes) : Prop := ∃ M', (M' = N ∨ Step P N M') ∧ Settles M' M

end OopsOS.Ns
