import OopsOS.Computation
import OopsOS.Layout

namespace OopsOS
set_option autoImplicit true

/-- The device and the memory while the log is written; `fuel` counts the writes to power failure.
-/
structure Machine where
  disk : Disk
  cache : Disk
  lh : List Nat
  fuel : Nat

abbrev LogM (α : Type) := Comp Machine Disk α

def readBuf (b : Nat) : LogM Bytes := do
  return (← get).cache b

def Machine.written (m : Machine) (b : Nat) (data : Bytes) : Machine :=
  { m with
    disk := Function.update m.disk b data
    cache := Function.update m.cache b data
    fuel := m.fuel - 1 }

def bwrite (b : Nat) (data : Bytes) : LogM Unit := do
  let m ← get
  if m.fuel = 0 then throw m.disk else set (m.written b data)

def putBlocks (hb : Bytes) (i : Nat) : List Nat → Bytes
  | [] => hb
  | b :: bs => putBlocks (setWord hb (i + 1) b) (i + 1) bs

def putHead (hb : Bytes) (lh : List Nat) : Bytes := putBlocks (setWord hb 0 lh.length) 0 lh

/-- The number of passes of `for(i = 0; i < lh->n; i++)`, for the signed `n` of the header. -/
def headCount (hb : Bytes) : Nat := if getWord hb 0 < 2 ^ 31 then getWord hb 0 else 0

def getHead (hb : Bytes) : List Nat := (List.range (headCount hb)).map fun i => getWord hb (i + 1)

def installTrans : LogM Unit := do
  let lh := (← get).lh
  loop 0 lh.length () fun tail _ => do
    let lbuf ← readBuf (sb.logstart + tail + 1)
    bwrite (lh.getD tail 0) lbuf

def readHead : LogM Unit := do
  let hb ← readBuf sb.logstart
  modify fun m => { m with lh := getHead hb }

def writeHead : LogM Unit := do
  let hb ← readBuf sb.logstart
  bwrite sb.logstart (putHead hb (← get).lh)

def clearHead : LogM Unit :=
  modify fun m => { m with lh := [] }

def recoverFromLog : LogM Unit := do
  readHead
  installTrans
  clearHead
  writeHead

def writeLog : LogM Unit := do
  let lh := (← get).lh
  loop 0 lh.length () fun tail _ => do
    let data ← readBuf (lh.getD tail 0)
    bwrite (sb.logstart + tail + 1) data

def commit : LogM Unit := do
  let lh := (← get).lh
  if lh.length > 0 then do
    writeLog
    writeHead
    installTrans
    clearHead
    writeHead
  else return ()

def Machine.powerOn (d : Disk) (fuel : Nat) : Machine := ⟨d, d, [], fuel⟩

/-- The disk after a computation if power fails after `k` block writes. -/
def stopAfter (k : Nat) (c : LogM Unit) (m : Machine) : Disk :=
  match c { m with fuel := k } with
  | .ok (_, m') => m'.disk
  | .error d => d

def interrupted (d : Disk) (ks : List Nat) : Disk :=
  ks.foldl (fun d k => stopAfter k recoverFromLog (.powerOn d 0)) d

def InLog (b : Nat) : Prop := sb.logstart ≤ b ∧ b < sb.logstart + sb.nlog

instance : DecidablePred InLog := fun _ => inferInstanceAs (Decidable (_ ∧ _))

theorem getWord_putBlocks (hb : Bytes) (i j : Nat) (bs : List Nat) (hbs : ∀ b ∈ bs, b < 2 ^ 32) :
    getWord (putBlocks hb i bs) j =
      if i < j ∧ j ≤ i + bs.length then bs.getD (j - (i + 1)) 0 else getWord hb j := by
  induction bs generalizing hb i with
  | nil => rw [if_neg (by simp only [List.length_nil]; omega), putBlocks]
  | cons b bs ih =>
    rw [putBlocks, ih _ _ fun x hx => hbs x (List.mem_cons_of_mem _ hx),
      getWord_setWord_eq _ _ _ (hbs b List.mem_cons_self)]
    simp only [List.length_cons]
    by_cases hj : j = i + 1
    · rw [if_neg (by omega), if_pos hj, if_pos (by omega), hj, Nat.sub_self]
      rfl
    · by_cases hlt : i + 1 < j ∧ j ≤ i + 1 + bs.length
      · rw [if_pos hlt, if_pos (by omega), show j - (i + 1) = j - (i + 1 + 1) + 1 by omega]
        rfl
      · rw [if_neg hlt, if_neg hj, if_neg (by omega)]

theorem headCount_putHead (hb : Bytes) (lh : List Nat) (hlen : lh.length < 2 ^ 31)
    (hlh : ∀ b ∈ lh, b < 2 ^ 32) : headCount (putHead hb lh) = lh.length := by
  have hword : getWord (putHead hb lh) 0 = lh.length := by
    rw [putHead, getWord_putBlocks _ _ _ _ hlh, if_neg (by omega), getWord_setWord,
      Nat.mod_eq_of_lt (by omega)]
  rw [headCount, hword, if_pos hlen]

theorem getHead_putHead (hb : Bytes) (lh : List Nat) (hlen : lh.length < 2 ^ 31)
    (hlh : ∀ b ∈ lh, b < 2 ^ 32) : getHead (putHead hb lh) = lh := by
  apply List.ext_getElem
  · rw [getHead, List.length_map, List.length_range, headCount_putHead hb lh hlen hlh]
  · intro i h1 h2
    simp only [getHead, List.getElem_map, List.getElem_range]
    rw [putHead, getWord_putBlocks _ _ _ _ hlh, if_pos (by omega)]
    exact List.getD_eq_getElem _ _ h2

end OopsOS
