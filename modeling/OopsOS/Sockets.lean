import Mathlib.Data.Fintype.Basic
import Mathlib.Data.List.FinRange

namespace OopsOS.Net
set_option autoImplicit true
open Function

abbrev NFILE : Nat := 100

/-- What a page holds as a socket. `rxq` are its mbufs, none if its head is no pointer to one. -/
structure Sock where
  raddr : UInt32
  lport : UInt16
  rport : UInt16
  rxq : Option (List Nat)

inductive FdType where
  | none
  | sock (si : Nat)
  | other
deriving DecidableEq

structure File where
  ref : Nat
  type : FdType

inductive Touch where
  | kalloc (pa : Nat)
  | access (pa : Nat)
  | kfree (pa : Nat)
deriving DecidableEq

/-- The sockets by page and the file table. `trace` is not of the kernel: what a call does with
pages. -/
structure State where
  sockets : List Nat
  sock : Nat → Sock
  file : Fin NFILE → File
  trace : List Touch

/-- The junk with which `kfree` fills a page. -/
def junk : Sock := ⟨0x01010101, 0x0101, 0x0101, none⟩

def State.touch (s : State) (t : Touch) : State := { s with trace := s.trace ++ [t] }

def State.setFile (s : State) (f : Fin NFILE) (file : File) : State :=
  { s with file := update s.file f file }

def State.kfree (s : State) (pa : Nat) : State :=
  { s.touch (.kfree pa) with sock := update s.sock pa junk }

def State.filealloc (s : State) : Option (Fin NFILE) := (List.finRange NFILE).find? fun f =>
    (s.file f).ref = 0

def State.drain (s : State) (si : Nat) (ms : List Nat) : State :=
  ms.foldl (fun s m => (s.touch (.access si)).kfree m) s

/-- `sockclose`, which does not return if it follows a head that is no pointer. -/
def State.sockclose (s : State) (si : Nat) : State × Bool :=
  let s := { s with sockets := s.sockets.erase si }.touch (.access si)
  match (s.sock si).rxq with
  | none => (s, false)
  | some ms => ((s.drain si ms).kfree si, true)

def State.fileclose (s : State) (f : Fin NFILE) : State × Bool :=
  let ff := s.file f
  if ff.ref < 1 then (s, false)
  else if 1 < ff.ref then (s.setFile f { ff with ref := ff.ref - 1 }, true)
  else
    match ff.type with
    | .sock si => (s.setFile f ⟨0, .none⟩).sockclose si
    | _ => (s.setFile f ⟨0, .none⟩, true)

def State.bad (s : State) (si : Option Nat) (f : Fin NFILE) : State × Option Int :=
  let r := (si.elim s s.kfree).fileclose f
  (r.1, if r.2 = true then some (-1) else none)

def Sock.is (x : Sock) (raddr : UInt32) (lport rport : UInt16) : Bool :=
  x.raddr = raddr && x.lport = lport && x.rport = rport

/-- A new socket goes to the head of the list, if there is none with its address and ports. -/
def State.link (s : State) (f : Fin NFILE) (si : Nat) (raddr : UInt32) (lport rport : UInt16) :
    State × Option Int :=
  if s.sockets.any fun p => (s.sock p).is raddr lport rport then s.bad (some si) f
  else ({ s.touch (.access si) with sockets := si :: s.sockets }, some 0)

def State.initSock (s : State) (f : Fin NFILE) (si : Nat) (raddr : UInt32) (lport rport : UInt16) :
    State :=
  { (s.touch (.access si)).setFile f ⟨1, .sock si⟩ with
    sock := update s.sock si ⟨raddr, lport, rport, some []⟩ }

/-- `sockalloc`, where `page` is what `kalloc` gives; no result if it does not return. -/
def State.sockalloc (s : State) (page : Option Nat) (raddr : UInt32) (lport rport : UInt16) :
    State × Option Int :=
  match s.filealloc with
  | none => ({ s with trace := [] }, some (-1))
  | some f =>
    let s := { s.setFile f { s.file f with ref := 1 } with trace := [] }
    match page with
    | none => s.bad none f
    | some si => ((s.touch (.kalloc si)).initSock f si raddr lport rport).link f si raddr lport
      rport

/-- The call returned -1 and left no trace: its pages were freed once, and not used after that. -/
structure Clean (s s' : State) (r : Option Int) : Prop where
  failed : r = some (-1)
  sockets : s'.sockets = s.sockets
  sock : ∀ p ∈ s.sockets, s'.sock p = s.sock p
  free : ∀ f, (s'.file f).ref = 0 ↔ (s.file f).ref = 0
  once : ∀ pa, .kalloc pa ∈ s'.trace → s'.trace.count (.kfree pa) = 1
  unused : ∀ pa before after, s'.trace = before ++ .kfree pa :: after → .access pa ∉ after

variable {s : State} {f : Fin NFILE} {page : Option Nat} {si : Nat} {raddr : UInt32}
  {lport rport : UInt16}

theorem bad_none (h : s.file f = ⟨1, .none⟩) :
    s.bad none f = (s.setFile f ⟨0, .none⟩, some (-1)) := by
  simp [State.bad, State.fileclose, h]

/-- The file has the type `FD_SOCK` already, and `sockclose` reads the page after `kfree`. -/
theorem bad_some (h : s.file f = ⟨1, .sock si⟩) : (s.bad (some si) f).2 = none := by
  simp [State.bad, State.kfree, State.touch, State.fileclose, State.sockclose, State.setFile, h,
    junk]

theorem Clean.of_untouched {file : Fin NFILE → File}
    (h : ∀ f, (file f).ref = 0 ↔ (s.file f).ref = 0) :
    Clean s { s with file := file, trace := [] } (some (-1)) where
  failed := rfl
  sockets := rfl
  sock _ _ := rfl
  free := h
  once := nofun
  unused _ before _ he := absurd he.symm (by simp)

/-- A failed call leaves no trace exactly if it had no file or page; one that succeeds makes the
only such socket. -/
theorem sockalloc_clean_iff (hfree : ∀ f, (s.file f).ref = 0 → (s.file f).type = .none) :
    let r := s.sockalloc page raddr lport rport
    (r.2 = some 0 → (r.1.sockets.filter fun p => (r.1.sock p).is raddr lport rport).length = 1) ∧
      (r.2 ≠ some 0 → (Clean s r.1 r.2 ↔ s.filealloc = none ∨ page = none)) := by
  cases halloc : s.filealloc with
  | none =>
    simp only [State.sockalloc, halloc]
    exact ⟨nofun, fun _ => iff_of_true (.of_untouched fun _ => Iff.rfl) (.inl trivial)⟩
  | some f =>
    have href : (s.file f).ref = 0 := by simpa using List.find?_some halloc
    cases page with
    | none =>
      simp only [State.sockalloc, halloc]
      rw [bad_none (by simp [State.setFile, hfree f href])]
      refine ⟨nofun, fun _ => iff_of_true (.of_untouched fun f' => ?_) (.inr trivial)⟩
      by_cases hf : f' = f
      · simp [hf, href]
      · simp [update_of_ne hf, State.setFile]
    | some si =>
      simp only [State.sockalloc, halloc, State.link]
      split
      · rw [bad_some (by simp [State.initSock, State.setFile])]
        exact ⟨nofun, fun _ => iff_of_false (fun hc => nomatch hc.failed) (by simp)⟩
      · next hnew =>
        refine ⟨fun _ => ?_, fun hne => absurd rfl hne⟩
        simp only [List.any_eq_true, not_exists, not_and, Bool.not_eq_true] at hnew
        rw [List.filter_cons_of_pos, List.filter_eq_nil_iff.2 fun p hp => by
          simpa [State.touch] using hnew p hp]
        · rfl
        · simp [State.initSock, State.touch, Sock.is]

/-- One socket, in the page 1, and no open file. -/
def oneSock : State := ⟨[1], fun _ => ⟨1, 2, 3, some []⟩, fun _ => ⟨0, .none⟩, []⟩

theorem sockalloc_clean_no_page : Clean oneSock (oneSock.sockalloc none 4 2 3).1
    (oneSock.sockalloc none 4 2 3).2 :=
  ((sockalloc_clean_iff fun _ _ => rfl).2 (by decide)).2 (.inr rfl)

/-- Address and ports are in use: the page is read after it was freed, and the call does not return.
-/
theorem sockalloc_uses_freed : (oneSock.sockalloc (some 2) 1 2 3).2 = none ∧
    (oneSock.sockalloc (some 2) 1 2 3).1.trace = [.kalloc 2, .access 2, .kfree 2, .access 2] := by
  decide

end OopsOS.Net
