import OopsOS.Traces
import Mathlib.Logic.Function.Basic

namespace OopsOS.Alarms
set_option autoImplicit true
open Function

inductive Reg where
  | epc | ra | sp | gp | tp | t0 | t1 | t2 | s0 | s1 | a0 | a1 | a2 | a3 | a4 | a5 | a6 | a7
  | s2 | s3 | s4 | s5 | s6 | s7 | s8 | s9 | s10 | s11 | t3 | t4 | t5 | t6
  deriving DecidableEq

abbrev Frame := Reg → UInt64

/-- A process with its alarm. The kernel does not save the interrupted registers. -/
structure Proc where
  trapframe : Frame
  alarm_trapframe : Frame
  alarm_interval : Int32
  alarm_ticks : Int32
  alarm_handler : UInt64
  alarm_goingoff : Bool
  interrupted : Option Frame

/-- A trap of the process with the registers `f`, a timer tick, or a system call. -/
inductive Event where
  | user (f : Frame)
  | tick
  | sigalarm (ok : Bool)
  | sigreturn
  | other (f : Frame)

def Proc.usertrap (p : Proc) : Proc :=
  if p.alarm_interval ≠ 0 then
    let p := { p with alarm_ticks := p.alarm_ticks - 1 }
    if p.alarm_ticks ≤ 0 ∧ p.alarm_goingoff = false then
      { p with
        alarm_ticks := p.alarm_interval
        alarm_trapframe := p.trapframe
        trapframe := update p.trapframe .epc p.alarm_handler
        alarm_goingoff := true
        interrupted := some p.trapframe }
    else p
  else p

def Proc.ecall (p : Proc) : Frame := update p.trapframe .epc (p.trapframe .epc + 4)

def Proc.sigalarm (p : Proc) : Proc :=
  { p with
    alarm_interval := (p.trapframe .a0).toUInt32.toInt32
    alarm_handler := p.trapframe .a1
    alarm_ticks := (p.trapframe .a0).toUInt32.toInt32 }

def Proc.sigreturn (p : Proc) : Proc :=
  { p with trapframe := p.alarm_trapframe, alarm_goingoff := false, interrupted := none }

def Proc.result (p : Proc) (ret : UInt64) : Proc :=
  { p with trapframe := update p.trapframe .a0 ret }

def fire (p : Proc) : Event → Option Proc
  | .user f => some { p with trapframe := f }
  | .tick => some p.usertrap
  | .sigalarm ok =>
    let p := { p with trapframe := p.ecall }
    some (if ok then p.sigalarm.result 0 else p.result (-1))
  | .sigreturn => some (({ p with trapframe := p.ecall } : Proc).sigreturn.result 0)
  | .other f => some { p with trapframe := f }

/-- A handler that ends restores the registers and is not entered while active; without one,
`sigreturn` changes only `a0`. -/
def Transparent (p : Proc) : Event → Prop
  | .sigreturn => ∀ p', fire p .sigreturn = some p' →
    match p.interrupted with
    | some f => p'.trapframe = f
    | none => ∀ r, r ≠ .a0 → p'.trapframe r = p.ecall r
  | .tick => ∀ p', fire p .tick = some p' → p.interrupted ≠ none → p'.trapframe = p.trapframe
  | _ => True

/-- The process was interrupted with `a0 = 0`; with no handler, the frame left is that of the call.
-/
def Harmless (p : Proc) : Event → Prop
  | .sigreturn =>
    match p.interrupted with
    | some f => f .a0 = 0
    | none => ∀ r, r ≠ .a0 → p.alarm_trapframe r = p.ecall r
  | _ => True

structure Saved (p : Proc) : Prop where
  active : p.alarm_goingoff = p.interrupted.isSome
  frame : ∀ f, p.interrupted = some f → p.alarm_trapframe = f

variable {p p' : Proc} {e : Event}

theorem Saved.usertrap (h : Saved p) : Saved p.usertrap := by
  unfold Proc.usertrap
  split
  · dsimp only
    split
    · exact ⟨rfl, fun f hf => Option.some.inj hf⟩
    · exact ⟨h.active, h.frame⟩
  · exact h

theorem Saved.fire (h : Saved p) (hf : fire p e = some p') : Saved p' := by
  cases e with
  | tick =>
    cases hf
    exact h.usertrap
  | sigreturn =>
    cases hf
    exact ⟨rfl, nofun⟩
  | sigalarm ok =>
    cases hf
    split <;> exact ⟨h.active, h.frame⟩
  | user f | other f =>
    cases hf
    exact ⟨h.active, h.frame⟩

theorem Saved.usertrap_active (h : Saved p) (hi : p.interrupted ≠ none) :
    p.usertrap.trapframe = p.trapframe := by
  have hactive : p.alarm_goingoff = true := h.active.trans (Option.isSome_iff_ne_none.2 hi)
  unfold Proc.usertrap
  split
  · dsimp only
    rw [if_neg fun hc => Bool.false_ne_true (hc.2.symm.trans hactive)]
  · rfl

theorem Saved.transparent_iff (h : Saved p) : Transparent p e ↔ Harmless p e := by
  cases e with
  | tick =>
    refine iff_of_true (fun p' hf hi => ?_) trivial
    cases hf
    exact h.usertrap_active hi
  | sigreturn =>
    have hret : Transparent p .sigreturn ↔
        match p.interrupted with
        | some f => update p.alarm_trapframe .a0 0 = f
        | none => ∀ r, r ≠ .a0 → update p.alarm_trapframe .a0 0 r = p.ecall r :=
      ⟨fun ht => ht _ rfl, fun ht p' hf => by cases hf; exact ht⟩
    rw [hret, Harmless]
    cases hi : p.interrupted with
    | some f =>
      dsimp only
      rw [h.frame f hi, update_eq_self_iff, eq_comm]
    | none => exact forall₂_congr fun r hr => by rw [update_of_ne hr]
  | user | sigalarm | other => exact Iff.rfl

/-- Handlers are transparent exactly if those that end had interrupted at `a0 = 0`, and no other
`sigreturn` finds another frame. -/
theorem alarms_transparent_iff (h : Saved p) (es : List Event) :
    Along fire Transparent p es ↔ Along fire Harmless p es :=
  Along.congr (fun _ _ _ h _ => h.transparent_iff) (fun _ _ _ h => h.fire) h

/-- A process with an alarm at the next tick, in a computation with `a0 = x`. -/
def ready (x : UInt64) : Proc :=
  ⟨fun r => if r = .a0 then x else 0, fun _ => 0, 1, 1, 4096, false, none⟩

theorem ready_saved (x : UInt64) : Saved (ready x) := ⟨rfl, fun _ hf => by cases hf⟩

theorem alarms_transparent_ready : Along fire Transparent (ready 0) [.tick, .sigreturn] := by
  refine (alarms_transparent_iff (ready_saved 0) _).2 fun p hp =>
    ⟨trivial, fun _ _ => ⟨?_, trivial⟩⟩
  cases hp
  exact rfl

/-- The value of `a0` is lost. -/
theorem alarm_clobbers : Saved (ready 7) ∧ ¬ Along fire Transparent
    (ready 7) [.tick, .sigreturn] := by
  refine ⟨ready_saved 7, fun h => ?_⟩
  have hframe := ((h _ rfl).2 _ rfl).1 _ rfl
  have ha0 : (0 : UInt64) = 7 := congrFun hframe .a0
  exact absurd ha0 (by decide)

end OopsOS.Alarms
