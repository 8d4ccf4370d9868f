import Mathlib
import OopsOS.Limits

namespace OopsOS

inductive ProcState where
  | unused
  | live
  | zombie
deriving DecidableEq

/-- The process table; `init` is in slot 0, and a thread has its leader in `pthread`. -/
structure Procs where
  state : ProcSlot → ProcState
  parent : ProcSlot → Option ProcSlot
  pthread : ProcSlot → Option ProcSlot

def Procs.unusedSlot (t : Procs) : Option ProcSlot :=
  (List.finRange NPROC).find? fun p => t.state p = .unused

def Procs.start (t : Procs) (p : ProcSlot) (parent pthread : Option ProcSlot) : Procs :=
  ⟨Function.update t.state p .live, Function.update t.parent p parent,
    Function.update t.pthread p pthread⟩

def Procs.vacate (t : Procs) (p : ProcSlot) : Procs :=
  ⟨Function.update t.state p .unused, Function.update t.parent p none,
    Function.update t.pthread p none⟩

def Procs.tgroupLeader (t : Procs) (p : ProcSlot) : ProcSlot := (t.pthread p).getD p

def Procs.deadChild (t : Procs) (p : ProcSlot) : Option ProcSlot :=
  (List.finRange NPROC).find? fun q => t.parent q = some p ∧ t.state q = .zombie

def Procs.deadThread (t : Procs) (p : ProcSlot) : Option ProcSlot :=
  (List.finRange NPROC).find? fun q => t.pthread q = some p ∧ t.state q = .zombie

/-- `exit` without threads: the process becomes a zombie, its children go to `init`. -/
def Procs.exit (t : Procs) (p : ProcSlot) : Procs :=
  ⟨Function.update t.state p .zombie, fun q => if t.parent q = some p then some 0 else t.parent q,
    t.pthread⟩

def Procs.boot : Procs := ⟨fun p => if p = 0 then .live else .unused, fun _ => none, fun _ => none⟩

variable {t : Procs} {p q : ProcSlot}

theorem Procs.unused_of_unusedSlot (h : t.unusedSlot = some p) : t.state p = .unused := by
  have hfound := List.find?_some h
  exact of_decide_eq_true hfound

theorem Procs.zombie_of_deadChild (h : t.deadChild p = some q) : t.state q = .zombie := by
  have hfound := List.find?_some h
  exact (of_decide_eq_true hfound).2

theorem Procs.used_of_zombie (h : t.state p = .zombie) : t.state p ≠ .unused := by
  rw [h]
  decide

end OopsOS
