import Mathlib.Data.Fintype.Basic
import Mathlib.Data.List.FinRange
import OopsOS.Traces

namespace OopsOS.Jobs
set_option autoImplicit true
open Function

abbrev JOB_MAX : Nat := 16

/-- A child of the shell; `gone` are those that were reaped and the pids that are not used. -/
inductive Child where
  | running
  | zombie
  | gone
deriving DecidableEq

inductive Phase where
  | top
  | prompt
  | waiting (p : Nat)
deriving DecidableEq

structure State where
  child : Nat → Child
  jobs : Fin JOB_MAX → Option Nat
  phase : Phase

def State.jobsAdd (s : State) (p : Nat) (cmd : String) : State :=
  if p = 0 ∨ cmd = "" then s else
    match (List.finRange JOB_MAX).find? fun i => s.jobs i = none with
    | none => s
    | some i => { s with jobs := update s.jobs i (some p) }

/-- `jobs_reap` and the report that follows it. -/
def State.jobsReap (s : State) : State :=
  { s with
    child := fun p => if s.child p = .zombie ∧ ∃ i, s.jobs i = some p then .gone else s.child p
    jobs := fun i => (s.jobs i).filter fun p => s.child p = .running }

def State.set (s : State) (p : Nat) (x : Child) (phase : Phase) : State :=
  { s with child := update s.child p x, phase := phase }

inductive Event where
  | exit (p : Nat)
  | prompt
  | builtin (jobs : Bool)
  | line (background : Bool) (cmd : String) (p : Nat)
  | wait (p : Nat)

/-- A child exits, or `main` goes on. -/
def fire (s : State) : Event → Option State
  | .exit p => if s.child p = .running then some (s.set p .zombie s.phase) else none
  | .prompt => if s.phase = .top then some { s.jobsReap with phase := .prompt } else none
  | .builtin jobs =>
    if s.phase = .prompt then some { if jobs then s.jobsReap else s with phase := .top } else none
  | .line background cmd p =>
    if s.phase = .prompt ∧ s.child p = .gone then
      some (if background then (s.set p .running .top).jobsAdd p cmd else s.set p .running
        (.waiting p))
    else none
  | .wait p =>
    if s.phase ≠ .top ∧ s.phase ≠ .prompt ∧ s.child p = .zombie then some (s.set p .gone .top)
      else none

def Reported (s : State) : Event → Prop
  | .prompt | .builtin true => ∀ i p, s.jobs i = some p → s.jobsReap.jobs i = none →
    s.child p ≠ .running
  | _ => True

/-- The wait for a foreground command ends when it has exited, and the prompt leaves no zombie. -/
def Waited (s : State) : Event → Prop
  | .wait _ => ∀ p, s.phase = .waiting p → s.child p ≠ .running
  | .prompt => ∀ p, s.jobsReap.child p ≠ .zombie
  | _ => True

/-- `wait` finds the foreground command, and a background command has a name and finds room. -/
def Own (s : State) : Event → Prop
  | .wait p => s.phase = .waiting p
  | .line true cmd p => p ≠ 0 ∧ cmd ≠ "" ∧ ∃ i, s.jobs i = none
  | _ => True

variable {s s' : State} {e : Event} {p : Nat}

def Tracked (s : State) : Prop := ∀ p, s.child p ≠ .gone → (∃ i, s.jobs i = some p) ∨
    s.phase = .waiting p

theorem Tracked.set {x : Child} {phase : Phase} (h : Tracked s)
    (hp : x ≠ .gone → (∃ i, s.jobs i = some p) ∨ phase = .waiting p)
    (hphase : ∀ q, q ≠ p → s.phase = .waiting q → phase = .waiting q) : Tracked (s.set p x phase) :=
  (forall_update_iff s.child fun q x => x ≠ .gone → (∃ i, s.jobs i = some q) ∨ phase = .waiting q).2
    ⟨hp, fun q hq hx => (h q hx).imp_right (hphase q hq)⟩

theorem Tracked.jobsAdd (h : Tracked s) (hprompt : s.phase = .prompt) {cmd : String}
    (hown : Own s (.line true cmd p)) : Tracked ((s.set p .running .top).jobsAdd p cmd) := by
  obtain ⟨hp, hcmd, j, hj⟩ := hown
  rw [State.jobsAdd, if_neg (by simp [hp, hcmd])]
  split
  · next hfull =>
    exact absurd (decide_eq_true hj) (List.find?_eq_none.1 hfull j (List.mem_finRange j))
  · next i hi =>
    have hi : (s.set p .running .top).jobs i = none :=
      of_decide_eq_true (List.find?_some (a := i) hi)
    refine (forall_update_iff s.child fun q x => x ≠ .gone →
      (∃ k, update s.jobs i (some p) k = some q) ∨ _).2
      ⟨fun _ => .inl ⟨i, update_self ..⟩, fun q _ hq => .inl ?_⟩
    obtain ⟨k, hk⟩ := (h q hq).resolve_right (by simp [hprompt])
    have hki : k ≠ i := fun hki => Option.some_ne_none q ((hki ▸ hk).symm.trans hi)
    exact ⟨k, by rw [update_of_ne hki, hk]⟩

theorem Tracked.jobsReap (h : Tracked s) (hphase : ∀ q, s.phase ≠ .waiting q)
    (hp : s.jobsReap.child p ≠ .gone) : s.child p = .running ∧ ∃ i, s.jobsReap.jobs i = some p := by
  simp only [State.jobsReap] at hp ⊢
  split at hp
  · exact absurd rfl hp
  · next hz =>
    obtain ⟨i, hi⟩ := (h p hp).resolve_right (hphase p)
    have hrun : s.child p = .running := by
      cases hc : s.child p with
      | running => rfl
      | zombie => exact absurd ⟨hc, i, hi⟩ hz
      | gone => exact absurd hc hp
    exact ⟨hrun, i, by simp [hi, hrun]⟩

theorem Tracked.fire (h : Tracked s) (hown : Own s e) (hf : fire s e = some s') : Tracked s' := by
  cases e with
  | exit p =>
    obtain ⟨hrun, rfl⟩ := of_guarded hf
    exact h.set (fun _ => h p (by simp [hrun])) fun _ _ => id
  | prompt =>
    obtain ⟨htop, rfl⟩ := of_guarded hf
    exact fun p hp => .inl (h.jobsReap (by simp [htop]) hp).2
  | builtin jobs =>
    obtain ⟨hprompt, rfl⟩ := of_guarded hf
    cases jobs with
    | false => exact fun p hp => (h p hp).imp_right (by simp [hprompt])
    | true => exact fun p hp => .inl (h.jobsReap (by simp [hprompt]) hp).2
  | line background cmd p =>
    obtain ⟨⟨hprompt, -⟩, rfl⟩ := of_guarded hf
    cases background with
    | false => exact h.set (fun _ => .inr rfl) (by simp [hprompt])
    | true => exact h.jobsAdd hprompt hown
  | wait p =>
    obtain ⟨-, rfl⟩ := of_guarded hf
    exact h.set (absurd rfl ·) fun q hq hw => absurd (hown.symm.trans hw) (by simpa using hq.symm)

theorem Tracked.waited (h : Tracked s) (hown : Own s e) (hf : Jobs.fire s e = some s') :
    Waited s e := by
  cases e with
  | prompt =>
    obtain ⟨htop, -⟩ := of_guarded hf
    intro p hz
    have hrun := (h.jobsReap (p := p) (by simp [htop]) (by simp [hz])).1
    simp [State.jobsReap, hrun] at hz
  | wait p =>
    obtain ⟨⟨-, -, hz⟩, -⟩ := of_guarded hf
    intro q hq
    cases hq.symm.trans hown
    simp [hz]
  | exit | builtin | line => trivial

theorem reported (s : State) (e : Event) : Reported s e := by
  have hreport (i p) (hp : s.jobs i = some p) (hnone : s.jobsReap.jobs i = none) :
    s.child p ≠ .running := by
    simpa [State.jobsReap, hp] using hnone
  cases e with
  | prompt => exact hreport
  | builtin jobs => cases jobs with
    | false => trivial
    | true => exact hreport
  | exit | line | wait => trivial

def boot : State := ⟨fun _ => .gone, fun _ => none, .top⟩

/-- Jobs are reported after they exit. If `wait` finds the foreground commands, the shell waits and
reaps. -/
theorem shell_waits (es : List Event) : Along fire Reported boot es ∧
    (Along fire Own boot es → Along fire Waited boot es) :=
  ⟨.of_forall reported boot es, fun h => h.steps (I := Tracked)
    (fun _ _ _ h hown hf => h.waited hown hf)
    (fun _ _ _ h hown hf => h.fire hown hf) fun _ hlive => absurd rfl hlive⟩

theorem shell_waits_job : Along fire Waited boot
    [.prompt, .line true "a" 1, .prompt, .line false "b" 2, .exit 2, .wait 2, .exit 1, .prompt] :=
  (shell_waits _).2 (by simp [Along, fire, Own, boot, State.jobsReap, State.set, State.jobsAdd])

/-- `a` exits while the shell waits for `b`: it prints its prompt, and does not reap `b`. -/
theorem background_exit_ends_wait :
    (∃ s, runEvents fire boot [.prompt, .line true "a" 1, .prompt, .line false "b" 2, .exit 1] =
      some s ∧
      ¬ Waited s (.wait 1) ∧ ∃ s',
        runEvents fire s [.wait 1, .prompt, .exit 2, .builtin true, .prompt,
        .builtin true, .prompt] = some s' ∧ s'.child 2 = .zombie) :=
  ⟨_, rfl, fun h => h 2 rfl rfl, _, rfl, by decide⟩

end OopsOS.Jobs
