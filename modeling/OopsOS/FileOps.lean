import OopsOS.Inodes

namespace OopsOS
set_option autoImplicit true
open Function

def setSize (A v : Nat) : FsM Unit :=
  modifyInode A (fun ip => { ip with size := UInt32.ofNat v })

def freePtr (b : Nat) : FsM Unit :=
  if b ≠ 0 then bfree b else return ()

def freeEntries (x n : Nat) : FsM Unit :=
  loop 0 n () fun j _ => do
    let bp ← bread x
    freePtr (getWord bp j)

def freeIndirectBlock (x : Nat) : FsM Unit :=
  if x = 0 then return ()
  else do
    freeEntries x NADDR_PER_BLOCK
    bfree x

def freeAt (A : Nat) (p : Loc) : FsM Unit := do
  let a ← getPtr A p
  if a ≠ 0 then do
    bfree a
    setPtr A p 0
  else return ()

def itruncSingle (A : Nat) : FsM Unit := do
  let x ← getPtr A (.addr NDIRECT)
  if x ≠ 0 then do
    freeEntries x NINDIRECT
    bfree x
    setPtr A (.addr NDIRECT) 0
  else return ()

def itruncDouble (A : Nat) : FsM Unit := do
  let y ← getPtr A (.addr (NDIRECT + 1))
  if y ≠ 0 then do
    loop 0 NADDR_PER_BLOCK () fun i _ => do
      let bp ← bread y
      let a := getWord bp i
      if a ≠ 0 then do
        freeEntries a NADDR_PER_BLOCK
        bfree a
      else return ()
    bfree y
    setPtr A (.addr (NDIRECT + 1)) 0
  else return ()

def itrunc (A : Nat) : FsM Unit := do
  loop 0 NDIRECT () fun i _ => freeAt A (.addr i)
  itruncSingle A
  itruncDouble A
  setSize A 0
  iupdate A

def addrBlockEmpty (a : Bytes) (n : Nat) : Bool := (List.range n).all fun i => getWord a i == 0

def logIf (c : Bool) (x : Nat) : FsM Unit :=
  if c then logWrite x else return ()

def clearEntry (x j : Nat) : FsM Unit := do
  let bp ← bread x
  bstore x (setWord bp j 0)

def dropEntries (x lo : Nat) : FsM Bool :=
  loop lo (NADDR_PER_BLOCK - lo) false fun j changed => do
    let bp ← bread x
    let a := getWord bp j
    if a ≠ 0 then do
      bfree a
      clearEntry x j
      return true
    else return changed

def truncSingle (A nb : Nat) : FsM Unit := do
  let x ← getPtr A (.addr NDIRECT)
  if nb ≤ NDIRECT then
    if x ≠ 0 then do
      freeIndirectBlock x
      setPtr A (.addr NDIRECT) 0
    else return ()
  else if x ≠ 0 then do
    let changed ← dropEntries x (nb - NDIRECT)
    let bp ← bread x
    let empty := addrBlockEmpty bp NINDIRECT
    logIf (changed && !empty) x
    if empty then do
      bfree x
      setPtr A (.addr NDIRECT) 0
    else return ()
  else return ()

/-- The part of `itrunc_to` for the second-level block with the new end of the file. -/
def truncSecond (y keep2 keep1 : Nat) : FsM Bool := do
  let bp ← bread y
  let a := getWord bp keep2
  if keep2 < NADDR_PER_BLOCK ∧ a ≠ 0 then
    if keep1 = 0 then do
      freeIndirectBlock a
      clearEntry y keep2
      return true
    else do
      let changed1 ← dropEntries a keep1
      let bp1 ← bread a
      let empty1 := addrBlockEmpty bp1 NADDR_PER_BLOCK
      logIf (changed1 && !empty1) a
      if empty1 then do
        bfree a
        clearEntry y keep2
        return true
      else return false
  else return false

def truncDouble (A nb : Nat) : FsM Unit := do
  let y ← getPtr A (.addr (NDIRECT + 1))
  if nb ≤ NDIRECT + NINDIRECT then
    if y ≠ 0 then do
      loop 0 NADDR_PER_BLOCK () fun i _ => do
        let bp ← bread y
        freeIndirectBlock (getWord bp i)
      bfree y
      setPtr A (.addr (NDIRECT + 1)) 0
    else return ()
  else if y ≠ 0 then do
    let dkeep := nb - (NDIRECT + NINDIRECT)
    let keep2 := dkeep / NADDR_PER_BLOCK
    let keep1 := dkeep % NADDR_PER_BLOCK
    let changed ← loop (keep2 + 1) (NADDR_PER_BLOCK - (keep2 + 1)) false fun i changed => do
      let bp ← bread y
      let a := getWord bp i
      if a ≠ 0 then do
        freeIndirectBlock a
        clearEntry y i
        return true
      else return changed
    let changed' ← truncSecond y keep2 keep1
    let bp ← bread y
    let empty := addrBlockEmpty bp NADDR_PER_BLOCK
    logIf ((changed || changed') && !empty) y
    if empty then do
      bfree y
      setPtr A (.addr (NDIRECT + 1)) 0
    else return ()
  else return ()

def itruncTo (A newsize : Nat) : FsM Unit := do
  let ip := (← get).inode A
  if newsize ≥ ip.size.toNat then do
    setSize A newsize
    iupdate A
  else do
    let nb := (newsize + BSIZE - 1) % 2 ^ 32 / BSIZE
    loop nb (NDIRECT - nb) () fun i _ => freeAt A (.addr i)
    truncSingle A nb
    truncDouble A nb
    setSize A newsize
    iupdate A

def punchBlock (A bn : Nat) : FsM Bool :=
  if bn < NDIRECT then do
    let a ← getPtr A (.addr bn)
    if a ≠ 0 then do
      bfree a
      setPtr A (.addr bn) 0
      return true
    else return false
  else if bn < NDIRECT + NINDIRECT then do
    let x ← getPtr A (.addr NDIRECT)
    if x = 0 then return false
    else do
      freeAt A (.entry x (bn - NDIRECT))
      let bp ← bread x
      if addrBlockEmpty bp NINDIRECT then do
        bfree x
        setPtr A (.addr NDIRECT) 0
        return true
      else return false
  else if bn < NDIRECT + NINDIRECT + NDINDIRECT then do
    let dbn := bn - NDIRECT - NINDIRECT
    let y ← getPtr A (.addr (NDIRECT + 1))
    if y = 0 then return false
    else do
      let l1 ← getPtr A (.entry y (dbn / NADDR_PER_BLOCK))
      if l1 = 0 then return false
      else do
        freeAt A (.entry l1 (dbn % NADDR_PER_BLOCK))
        let bp1 ← bread l1
        if addrBlockEmpty bp1 NADDR_PER_BLOCK then do
          bfree l1
          setPtr A (.entry y (dbn / NADDR_PER_BLOCK)) 0
          let bp ← bread y
          if addrBlockEmpty bp NADDR_PER_BLOCK then do
            bfree y
            setPtr A (.addr (NDIRECT + 1)) 0
            return true
          else return false
        else return false
  else return false

def ipunch (A startb endb : Nat) : FsM Int := do
  let ip := (← get).inode A
  if ip.type ≠ T_FILE then return -1
  else do
    let update ← loop startb (endb - startb) false fun bn update => do
      let changed ← punchBlock A bn
      return update || changed
    if update then iupdate A
    return 0

/-- The source of a copy, with the number of bytes of a chunk copied before a page fault. -/
structure Source where
  byte : Nat → UInt8
  fault : Nat → Nat → Option Nat

def Source.kernel (byte : Nat → UInt8) : Source := ⟨byte, fun _ _ => none⟩

def blockData (d : Disk) (b : Nat) : Bytes := if b = 0 then zeroBytes else d b

/-- The loop of `readi`; `copyout` tells which chunks reach their destination. -/
def readiLoop (d : Disk) (ip : Inode) (copyout : Nat → Nat → Bool) (n : Nat) :
    Nat → Nat → Nat → List UInt8
  | 0, _, _ => []
  | fuel + 1, tot, off =>
    if tot < n then
      let m := min (n - tot) (BSIZE - off % BSIZE)
      if copyout tot m then
        (List.range m).map (fun i => blockData d (bmapNalloc d ip (off / BSIZE)) (off % BSIZE + i))
          ++ readiLoop d ip copyout n fuel (tot + m) (off + m)
      else []
    else []

/-- Read data from an inode: the bytes copied out, whose number is the value returned. -/
def readi (d : Disk) (ip : Inode) (copyout : Nat → Nat → Bool) (off n : Nat) : List UInt8 :=
  if off > ip.size.toNat ∨ (off + n) % 2 ^ 32 < off then []
  else
    let n := if (off + n) % 2 ^ 32 > ip.size.toNat then ip.size.toNat - off else n
    readiLoop d ip copyout n n 0 off

def writeiLoop (A : Nat) (src : Source) (n : Nat) : Nat → Nat → Nat → FsM Nat
  | 0, _, off => return off
  | fuel + 1, tot, off =>
    if tot < n then do
      let b ← bmap A (off / BSIZE) true
      let m := min (n - tot) (BSIZE - off % BSIZE)
      let bp ← bread b
      match src.fault tot m with
      | some k => do
        bstore b (copyIn bp (off % BSIZE) (min k m) (fun i => src.byte (tot + i)))
        return off
      | none => do
        bstore b (copyIn bp (off % BSIZE) m (fun i => src.byte (tot + i)))
        logWrite b
        writeiLoop A src n fuel (tot + m) (off + m)
    else return off

/-- The number of bytes that the loop of `writei` stores, up to the first fault. -/
def Source.stored (src : Source) (n : Nat) : Nat → Nat → Nat → Nat
  | 0, _, _ => 0
  | fuel + 1, tot, off =>
    if tot < n then
      let m := min (n - tot) (BSIZE - off % BSIZE)
      match src.fault tot m with
      | some k => min k m
      | none => m + src.stored n fuel (tot + m) (off + m)
    else 0

def writei (A : Nat) (src : Source) (off n : Nat) : FsM Int := do
  let ip := (← get).inode A
  if off > ip.size.toNat ∨ (off + n) % 2 ^ 32 < off then return -1
  else if (off + n) % 2 ^ 32 > MAXFILE * BSIZE then return -1
  else do
    let off' ← writeiLoop A src n n 0 off
    if n > 0 then do
      let ip := (← get).inode A
      if off' > ip.size.toNat then setSize A off'
      iupdate A
    return n

/-- One pass of the loop of `sys_pwrite`, which extends the file before it writes. -/
def pwritePass (A : Nat) (src : Source) (off n : Nat) : FsM Int := do
  let ip := (← get).inode A
  if (off + n) % 2 ^ 32 > ip.size.toNat then do
    setSize A ((off + n) % 2 ^ 32)
    iupdate A
  writei A src off n

def addLink (A : Nat) : FsM Unit := do
  modifyInode A fun ip => { ip with nlink := ip.nlink + 1 }
  iupdate A

def dropLink (A : Nat) : FsM Unit := do
  modifyInode A fun ip => { ip with nlink := ip.nlink - 1 }
  iupdate A

def falloc (A startb endb newsize : Nat) (keepSize : Bool) : FsM Int := do
  if newsize > MAXFILE * BSIZE then return -1
  else do
    loop startb (endb - startb) () fun b _ => do
      let _ ← bmap A b false
      return ()
    let ip := (← get).inode A
    if ¬ keepSize ∧ newsize > ip.size.toNat then do
      setSize A newsize
      iupdate A
    else if keepSize then iupdate A
    return 0

def shareEntries (x n : Nat) : FsM Unit :=
  loop 0 n () fun j _ => do
    let bp ← bread x
    if getWord bp j ≠ 0 then brefInc (getWord bp j) else return ()

def shareIndex (x y : Nat) : FsM Unit := do
  let bp ← bread x
  bstore y bp
  shareEntries y NADDR_PER_BLOCK
  logWrite y

def cloneDirect (src dst i : Nat) : FsM Unit := do
  let a ← getPtr src (.addr i)
  setPtr dst (.addr i) a
  if a ≠ 0 then brefInc a else return ()

def cloneSingle (src dst : Nat) : FsM Unit := do
  let x ← getPtr src (.addr NDIRECT)
  if x ≠ 0 then do
    let newInd ← balloc
    setPtr dst (.addr NDIRECT) newInd
    shareIndex x newInd
  else return ()

def cloneSecond (y newDind i : Nat) : FsM Unit := do
  let a := getWord (← bread y) i
  if a = 0 then return ()
  else do
    let newL1 ← balloc
    let bp ← bread newDind
    bstore newDind (setWord bp i newL1)
    shareIndex a newL1

def cloneDouble (src dst : Nat) : FsM Unit := do
  let y ← getPtr src (.addr (NDIRECT + 1))
  if y ≠ 0 then do
    let newDind ← balloc
    setPtr dst (.addr (NDIRECT + 1)) newDind
    bstore newDind zeroBytes
    loop 0 NADDR_PER_BLOCK () fun i _ => cloneSecond y newDind i
    logWrite newDind
  else return ()

def iclone (src dst : Nat) : FsM Int := do
  let s ← get
  if (s.inode src).type ≠ T_FILE ∨ (s.inode dst).type ≠ T_FILE then return -1
  else do
    modifyInode dst fun ip =>
      { ip with mode := (s.inode src).mode, size := (s.inode src).size }
    loop 0 NDIRECT () fun i _ => cloneDirect src dst i
    cloneSingle src dst
    cloneDouble src dst
    iupdate dst
    return 0

/-- The loop body of `iclone_range`: whether the inode changed, or nothing on failure. -/
def icloneBlock (src dst sbn dbn : Nat) : FsM (Option Bool) := do
  let st ← get
  let s := bmapNalloc st.blocks (st.inode src) sbn
  let d := bmapNalloc st.blocks (st.inode dst) dbn
  if s = 0 then
    if d ≠ 0 then do
      let r ← bmapSetExisting dst dbn 0
      if r < 0 then return none
      else do
        bfree d
        return some (r = 1)
    else return some false
  else if d = s then return some false
  else do
    brefInc s
    let r ← bmapEnsure dst dbn
    if r < 0 then do
      let _ ← brefDec s
      return none
    else do
      let r' ← bmapSetExisting dst dbn s
      if r' < 0 then do
        let _ ← brefDec s
        return none
      else do
        freePtr d
        return some (r = 1 ∨ r' = 1)

def icloneRange (src dst srcOff dstOff len : Nat) : FsM Int := do
  let s ← get
  if (s.inode src).type ≠ T_FILE ∨ (s.inode dst).type ≠ T_FILE then return -1
  else do
    let res ← loop 0 (len / BSIZE) (some false) fun bn acc =>
      match acc with
      | none => return none
      | some update => do
        let r ← icloneBlock src dst (srcOff / BSIZE + bn) (dstOff / BSIZE + bn)
        return r.map (fun u => update || u)
    match res with
    | none => return -1
    | some update => do
      let ip := (← get).inode dst
      if (dstOff + len) % 2 ^ 32 > ip.size.toNat then do
        setSize dst ((dstOff + len) % 2 ^ 32)
        iupdate dst
      else if update then iupdate dst
      return 0

def sameBlock (a b : Bytes) : Bool := (List.range BSIZE).all fun i => a i == b i

/-- The loop body of `idedup`: whether the block was shared and whether the inode changed. -/
def idedupBlock (src dst bn : Nat) : FsM (Option (Bool × Bool)) := do
  let st ← get
  let s := bmapNalloc st.blocks (st.inode src) bn
  let d := bmapNalloc st.blocks (st.inode dst) bn
  if s = 0 ∨ d = 0 ∨ s = d then return some (false, false)
  else if ¬ sameBlock (st.blocks s) (st.blocks d) then return some (false, false)
  else do
    brefInc s
    let r ← bmapSetExisting dst bn s
    if r < 0 then do
      let _ ← brefDec s
      return none
    else do
      bfree d
      return some (true, r = 1)

/-- Share the blocks of `dst` that equal the same block of `src`. Returns how many are newly shared.
-/
def idedup (src dst : Nat) : FsM Int := do
  let s ← get
  if (s.inode src).type ≠ T_FILE ∨ (s.inode dst).type ≠ T_FILE then return -1
  else if src = dst then return 0
  else do
    let blocksOf (A : Nat) := ((s.inode A).size.toNat + BSIZE - 1) % 2 ^ 32 / BSIZE
    let res ← loop 0 (min (blocksOf src) (blocksOf dst)) (some (0, false)) fun bn acc =>
      match acc with
      | none => return none
      | some (shared, update) => do
        let r ← idedupBlock src dst bn
        return r.map (fun p => (if p.1 then shared + 1 else shared, update || p.2))
    match res with
    | none => return -1
    | some (shared, update) => do
      if update then iupdate dst
      return shared

def iget (A : Nat) : FsM Unit :=
  modify fun s => { s with iref := update s.iref A (s.iref A + 1) }

/-- Drop a reference. An inode without links and other references is freed. -/
def iput (A : Nat) : FsM Unit := do
  let s ← get
  if s.iref A = 1 ∧ s.valid A ∧ (s.inode A).nlink = 0 then do
    itrunc A
    modifyInode A (fun ip => { ip with type := 0 })
    iupdate A
    modify fun s => { s with valid := update s.valid A false }
  modify fun s => { s with
    iref := update s.iref A (s.iref A - 1)
    valid := if s.iref A = 1 then update s.valid A false else s.valid }

end OopsOS
