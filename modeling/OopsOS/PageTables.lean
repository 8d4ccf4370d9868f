import OopsOS.Paging

namespace OopsOS.Pg
set_option autoImplicit true

/-- A page-table page on the way to an entry, allocated if there is none. -/
def walkNode (t : Nat) (n : Node) : PgM Bool := do
  let s ← get
  if (s.table t).node n ≠ 0 then pure true
  else
    match ← kalloc with
    | none => pure false
    | some f => do
      setData f (fun _ => 0)
      setNode t n f
      pure true

def walkAlloc (t vpn : Nat) : PgM Bool := do
  if NVPN ≤ vpn then throw .walk
  else if ← walkNode t (.mid (vpn / 2 ^ 18)) then walkNode t (.low (vpn / 2 ^ 9))
  else pure false

def mappages (t vpn f : Nat) (perm : Pte) : PgM Bool := do
  if ← walkAlloc t vpn then do
    let s ← get
    if (s.pte t vpn).valid = true then throw .remap
    else do
      setPte t vpn { perm with valid := true, num := f }
      pure true
  else pure false

/-- The end of `swapin`, with the frame that holds the page. -/
def swapinFrame (t vpn slot f : Nat) : PgM Unit := do
  swapfree slot
  modify fun s => s.addFetched ⟨s.data f, s.saved t vpn⟩
  let s ← get
  setPte t vpn { s.pte t vpn with swapped := false, valid := true, num := f }
  swapThrottle

def swapin (t vpn : Nat) : PgM Int := do
  let s ← get
  if s.swapready = false then pure (-1)
  else
    match ← lookup t vpn with
    | none => pure 1
    | some e =>
      if e.swapped = false then pure 1
      else
        match ← swapPbufGet e.num with
        | some f => do
          swapinFrame t vpn e.num f
          pure 0
        | none => do
          match ← kalloc with
          | none => pure (-1)
          | some f => do
            swapRead e.num f
            swapinFrame t vpn e.num f
            pure 0

def Pte.userFrame (e : Pte) : Option Nat :=
  if e.valid = true ∧ e.user = true then some e.num else none

def walkaddr (t vpn : Nat) : PgM (Option Nat) := do
  if NVPN ≤ vpn then pure none
  else
    match ← lookup t vpn with
    | none => pure none
    | some e =>
      if e.valid = true then pure e.userFrame
      else if e.swapped = true then do
        if (← swapin t vpn) = 0 then do
          let s ← get
          pure (s.pte t vpn).userFrame
        else pure none
      else pure none

def unmapPage (t vpn : Nat) (doFree : Bool) : PgM Unit := do
  match ← lookup t vpn with
  | none => pure ()
  | some e =>
    if e.valid = false then do
      if doFree = true ∧ e.swapped = true then do
        swapfree e.num
        setPte t vpn .zero
      else setPte t vpn .zero
    else if { e with num := 0 } = { Pte.zero with valid := true } then throw .notLeaf
    else if doFree = true then do
      kfree e.num
      setPte t vpn .zero
    else setPte t vpn .zero

def uvmunmap (t va npages : Nat) (doFree : Bool) : PgM Unit :=
  if va % PGSIZE ≠ 0 then throw .notAligned
  else loop (va / PGSIZE) npages () fun vpn _ => unmapPage t vpn doFree

def uvmcreate : PgM (Option Nat) := do
  match ← kalloc with
  | none => pure none
  | some f => do
    setData f (fun _ => 0)
    modify fun s => s.openTable f
    pure (some f)

def uvmdealloc (t oldsz newsz : Nat) : PgM Nat := do
  if oldsz ≤ newsz then pure oldsz
  else if pagesOf newsz < pagesOf oldsz then do
    uvmunmap t (pgRoundUp newsz) (pagesOf oldsz - pagesOf newsz) true
    pure newsz
  else pure newsz

def uvmallocLoop (t start : Nat) : Nat → Nat → PgM Bool
  | 0, _ => pure true
  | n + 1, vpn => do
    match ← kalloc with
    | none => do
      let _ ← uvmdealloc t (vpn * PGSIZE) (start * PGSIZE)
      pure false
    | some f => do
      setData f (fun _ => 0)
      if ← mappages t vpn f .rwxu then uvmallocLoop t start n (vpn + 1)
      else do
        kfree f
        let _ ← uvmdealloc t (vpn * PGSIZE) (start * PGSIZE)
        pure false

def uvmalloc (t oldsz newsz : Nat) : PgM (Option Nat) := do
  if newsz < oldsz then pure (some oldsz)
  else do
    if ← uvmallocLoop t (pagesOf oldsz) (pagesOf newsz - pagesOf oldsz) (pagesOf oldsz) then
      pure (some newsz)
    else pure none

def Pte.pointer (e : Pte) : Bool := e.valid && !(e.read || e.write || e.exec)

/-- `freewalk` of a page-table page of the third level. Leaf entries in it are ignored. -/
def freeLow (t j : Nat) : PgM Unit := do
  let s ← get
  let f := (s.table t).node (.low j)
  if f = 0 then pure ()
  else if (List.range 512).any (fun k => (s.pte t (j * 512 + k)).pointer) = true then
    throw .wildTable
  else do
    setNode t (.low j) 0
    kfree f

def freeMid (t i : Nat) : PgM Unit := do
  let s ← get
  let f := (s.table t).node (.mid i)
  if f = 0 then pure ()
  else do
    loop (i * 512) 512 () fun j _ => freeLow t j
    setNode t (.mid i) 0
    kfree f

def freewalk (t : Nat) : PgM Unit := do
  loop 0 512 () fun i _ => freeMid t i
  modify fun s => s.closeTable t
  kfree t

def uvmfree (t sz : Nat) : PgM Unit := do
  uvmunmap t 0 (pagesOf sz) true
  freewalk t

/-- `proc_pagetable`. The frame 0 stands for the trampoline, which is not allocated. -/
def procPagetable (trapframe : Nat) : PgM (Option Nat) := do
  match ← uvmcreate with
  | none => pure none
  | some t => do
    if ← mappages t TRAMPOLINE 0 { Pte.zero with read := true, exec := true } then do
      if ← mappages t TRAPFRAME trapframe { Pte.zero with read := true, write := true } then
        pure (some t)
      else do
        uvmunmap t (TRAMPOLINE * PGSIZE) 1 false
        uvmfree t 0
        pure none
    else do
      uvmfree t 0
      pure none

def procFreepagetable (t sz : Nat) : PgM Unit := do
  uvmunmap t (TRAMPOLINE * PGSIZE) 1 false
  uvmunmap t (TRAPFRAME * PGSIZE) 1 false
  uvmfree t sz

def swapcopy (t vpn : Nat) (src : Pte) : PgM Bool := do
  let s ← get
  if s.swapready = false then pure false
  else
    match ← swapAlloc with
    | none => pure false
    | some slot => do
      bread
      bread
      sleep
      modify fun s => s.setDisk slot (s.disk src.num)
      if ← walkAlloc t vpn then do
        setPte t vpn (src.toSlot slot)
        pure true
      else do
        swapfree slot
        pure false

def Pte.share (e : Pte) : Pte :=
  if e.write = true then { e with cow := true, write := false } else e

def shareEntry (new vpn : Nat) (e : Pte) : PgM Bool := do
  if ← mappages new vpn e.num e then do
    kaddrefcnt e.num
    pure true
  else pure false

def copyPage (old new vpn : Nat) : PgM Bool := do
  match ← lookup old vpn with
  | none => pure true
  | some e =>
    if e.valid = false then
      if e.swapped = true then do
        modify fun s => s.setSaved new vpn (s.saved old vpn)
        swapcopy new vpn e
      else pure true
    else do
      setPte old vpn e.share
      shareEntry new vpn e.share

def uvmcopyLoop (old new : Nat) : Nat → Nat → PgM Bool
  | 0, _ => pure true
  | n + 1, vpn => do
    if ← copyPage old new vpn then uvmcopyLoop old new n (vpn + 1)
    else do
      uvmunmap new 0 vpn true
      pure false

def uvmcopy (old new sz : Nat) : PgM Bool := uvmcopyLoop old new (pagesOf sz) 0

def sharePage (old new vpn : Nat) : PgM Bool := do
  match ← lookup old vpn with
  | none => pure true
  | some e =>
    if e.valid = true then shareEntry new vpn e
    else if e.swapped = true then do
      if (← swapin old vpn) < 0 then pure false
      else do
        let s ← get
        if (s.pte old vpn).valid = true then shareEntry new vpn (s.pte old vpn) else pure true
    else pure true

def uvmshareLoop (old new : Nat) : Nat → Nat → PgM Bool
  | 0, _ => pure true
  | n + 1, vpn => do
    if ← sharePage old new vpn then uvmshareLoop old new n (vpn + 1)
    else do
      uvmunmap new 0 vpn true
      pure false

def uvmshare (old new sz : Nat) : PgM Bool := uvmshareLoop old new (pagesOf sz) 0

def uvmclear (t vpn : Nat) : PgM Unit := do
  match ← lookup t vpn with
  | none => throw .uvmclear
  | some e => setPte t vpn { e with user := false }

def cowpage (t vpn : Nat) : PgM Bool := do
  if NVPN ≤ vpn then pure false
  else
    match ← lookup t vpn with
    | none => pure false
    | some e => pure (e.valid && e.cow)

def cowCopy (t vpn f : Nat) : PgM (Option Nat) := do
  match ← kalloc with
  | none => pure none
  | some mem => do
    let s ← get
    setData mem (s.data f)
    let e := s.pte t vpn
    setPte t vpn { e with valid := false }
    if ← mappages t vpn mem { e with write := true, cow := false } then do
      kfree f
      pure (some mem)
    else do
      kfree mem
      setPte t vpn { e with valid := true }
      pure none

def cowalloc (t vpn : Nat) : PgM (Option Nat) := do
  match ← walkaddr t vpn with
  | none => pure none
  | some f => do
    let s ← get
    if s.cnt f = 1 then do
      setPte t vpn { s.pte t vpn with write := true, cow := false }
      pure (some f)
    else cowCopy t vpn f

def vmaCovering (p : Proc) (va : Nat) : Option Vma :=
  p.vma.find? fun v => v.used && decide (v.addr ≤ va) &&
    decide (va ≤ (v.addr + v.len + 2 ^ 64 - 1) % 2 ^ 64)

inductive Cause where
  | exec
  | load
  | store
deriving DecidableEq

def Vma.allows (v : Vma) : Cause → Bool
  | .exec => v.exec
  | .load => v.read
  | .store => v.write

def Vma.perm (v : Vma) : Pte :=
  { Pte.zero with read := v.read, write := v.write, exec := v.exec, user := true }

def Vma.bytes (v : Vma) (va : Nat) : Page := fun i =>
  let pageOff := (va - v.addr) / PGSIZE * PGSIZE
  let off := (v.offset + pageOff) % 2 ^ 32
  match v.vfile with
  | none => 0
  | some vf => if pageOff + i < v.filesz ∧ i < PGSIZE ∧ off + i < vf.size then vf.byte (off + i)
    else 0

def Vma.fillable (v : Vma) (cause : Cause) : Bool :=
  match v.vfile with
  | none => true
  | some vf => vf.readable && !(decide (cause = .store) && v.shared && !vf.writable)

def mapFresh (t vpn f : Nat) (d : Page) (perm : Pte) : PgM Bool := do
  setData f d
  if ← mappages t vpn f perm then pure true
  else do
    kfree f
    pure false

def readFile (v : Vma) (va : Nat) : PgM Unit :=
  if v.vfile.isSome = true ∧ (va - v.addr) / PGSIZE * PGSIZE < v.filesz then bread else pure ()

def mmapHandler (va : Nat) (cause : Cause) : PgM Int := do
  let s ← get
  if NVPN ≤ va / PGSIZE then pure (-1)
  else
    match vmaCovering (s.proc s.cur) va with
    | none => pure 1
    | some v =>
      if v.allows cause = false ∨ v.fillable cause = false then pure (-1)
      else
        match ← kalloc with
        | none => pure (-1)
        | some f => do
          readFile v va
          if ← mapFresh (s.root s.cur) (va / PGSIZE) f (v.bytes va) v.perm then pure 0
          else pure (-1)

/-- `PGROUNDUP(sp) - 1 < va && va < sz`, in 64-bit arithmetic. -/
def lazyRange (sp sz va : Nat) : Bool :=
  decide (((sp + PGSIZE - 1) % 2 ^ 64 / PGSIZE * PGSIZE + 2 ^ 64 - 1) % 2 ^ 64 < va) &&
    decide (va < sz)

def lazyAlloc (t va : Nat) : PgM Bool := do
  match ← kalloc with
  | none => pure false
  | some f => mapFresh t (va / PGSIZE) f (fun _ => 0) .rwxu

def ensureUserPage (t va : Nat) (cause : Cause) : PgM Bool := do
  let s ← get
  if s.root s.cur ≠ t then pure false
  else do
    let r ← mmapHandler va cause
    if r = 0 then pure true
    else if r < 0 then pure false
    else if lazyRange (s.proc s.cur).sp (s.proc s.cur).sz va = true then lazyAlloc t va
    else pure false

/-- `copyin` and `copyout` prepare a user page: its frame, `none` for a failure. -/
def preparePage (t va : Nat) (cause : Cause) : PgM (Option Nat) := do
  match ← walkaddr t (va / PGSIZE) with
  | some f => pure (some f)
  | none => do
    if ← ensureUserPage t va cause then walkaddr t (va / PGSIZE) else pure none

def outPage (t va : Nat) : PgM (Option Nat) := do
  match ← walkaddr t (va / PGSIZE) with
  | some f => do
    if ← cowpage t (va / PGSIZE) then cowalloc t (va / PGSIZE) else pure (some f)
  | none => do
    if ← ensureUserPage t va .store then do
      let f ← walkaddr t (va / PGSIZE)
      if ← cowpage t (va / PGSIZE) then cowalloc t (va / PGSIZE) else pure f
    else pure none

def argaddr (va : Nat) : PgM Bool := do
  if va = 0 then pure true
  else do
    let s ← get
    match ← walkaddr (s.root s.cur) (va / PGSIZE) with
    | some _ => pure true
    | none => do
      let r ← mmapHandler va .load
      if r = 0 then pure true
      else if r < 0 then pure false
      else if lazyRange (s.proc s.cur).sp (s.proc s.cur).sz va = true then
        lazyAlloc (s.root s.cur) va
      else pure false

def kill : PgM Unit := do
  let s ← get
  setProc s.cur { s.proc s.cur with killed := true }

def killUnless (ok : Bool) : PgM Unit := if ok = true then pure () else kill

/-- The branch of `usertrap` for a page that is neither swapped nor copy-on-write. -/
def faultAbsent (va : Nat) (cause : Cause) : PgM Unit := do
  let s ← get
  let r ← mmapHandler va cause
  if r = 0 then pure ()
  else if r < 0 then kill
  else if lazyRange (s.proc s.cur).sp (s.proc s.cur).sz va = true then do
    killUnless (← lazyAlloc (s.root s.cur) va)
  else kill

def pageFault (va : Nat) (cause : Cause) : PgM Unit := do
  let s ← get
  let t := s.root s.cur
  if NVPN ≤ va / PGSIZE then kill
  else do
    let r ← swapin t (va / PGSIZE)
    if r = 0 then pure ()
    else if r < 0 then kill
    else if ← cowpage t (va / PGSIZE) then
      if (s.proc s.cur).sz ≤ va then kill
      else do killUnless (← cowalloc t (va / PGSIZE)).isSome
    else faultAbsent va cause

end OopsOS.Pg
