import Mathlib.Logic.Function.Basic
import OopsOS.Traces
import OopsOS.WaitGraphs

namespace OopsOS
set_option autoImplicit true
open Function

open Relation

/-- What a program does next: it comes to a lock, with the place after it, releases one, or goes on.
-/
inductive Act (L P D : Type) where
  | acquire (x : L) (c : P)
  | release (x : L) (c : P) (d : D)
  | goto (c : P) (d : D)

def Act.next {L P D : Type} : Act L P D → P
  | acquire _ c | release _ c _ | goto c _ => c

/-- CPUs that run a program with spinlocks and shared data; a CPU may spin for a lock. -/
structure SpinState (L P D : Type) where
  holder : L → Option Nat
  spins : Nat → Option L
  place : Nat → P
  data : D

/-- A CPU starts at a place, or makes a step, on a value that is not modelled. -/
inductive SpinEvent (P : Type) where
  | start (a : Nat) (c : P)
  | step (a : Nat) (ok : Bool)
deriving DecidableEq

def SpinEvent.steps {P : Type} (a n : Nat) : List (SpinEvent P) := List.replicate n (.step a true)

namespace SpinState

variable {L P D : Type} {act : D → P → Bool → Option (Act L P D)} {s s' : SpinState L P D} {a : Nat}
  {e : SpinEvent P} {es : List (SpinEvent P)} {x : L}

def Awaits (s : SpinState L P D) (a b : Nat) : Prop := ∃ x, s.spins a = some x ∧ s.holder x = some b

/-- No cycle of CPUs each of which holds a lock for which the one before it spins. -/
def Live (s : SpinState L P D) : Prop := Acyclic s.Awaits

/-- A CPU has the lock `x` and spins for `y`. -/
def Needs (s : SpinState L P D) (x y : L) : Prop := ∃ a, s.holder x = some a ∧ s.spins a = some y

theorem live_iff_needs : s.Live ↔ Acyclic s.Needs := ⟨Acyclic.comp_swap, Acyclic.comp_swap⟩

theorem live_of_spins (h : ∀ a, s.spins a = none) : s.Live := by
  intro a ha
  obtain ⟨b, ⟨x, hx, -⟩, -⟩ := exists_next ha
  simp [h] at hx

theorem Live.request_iff {p : Nat → P} (h : s.Live) (ha : s.spins a = none) :
    Live { s with spins := update s.spins a (some x), place := p } ↔
      ∀ b, s.holder x = some b → ¬ ReflTransGen s.Awaits b a := by
  refine h.edge_iff fun b c => ?_
  by_cases hba : b = a
  · simp [Awaits, hba, ha]
  · simp [Awaits, hba]

/-- A CPU does not come to a lock whose holder waits, through others, for one of its own. -/
def Ordered (act : D → P → Bool → Option (Act L P D)) (s : SpinState L P D) : SpinEvent P → Prop
  | .start _ _ => True
  | .step a ok => ∀ x c, s.spins a = none → act s.data (s.place a) ok = some (.acquire x c) →
      ∀ b, s.holder x = some b → ¬ ReflTransGen s.Awaits b a

variable [DecidableEq L] {Entry : P → P → Prop} [∀ c c', Decidable (Entry c c')]

theorem Live.get (h : s.Live) : Live
    { s with holder := update s.holder x (some a), spins := update s.spins a none } := by
  refine h.of_ends fun b c hbc => ?_
  obtain ⟨y, hy, hc⟩ := hbc
  by_cases hba : b = a
  · simp [hba] at hy
  · by_cases hyx : y = x
    · right
      simp only [hyx, update_self, Option.some.injEq] at hc
      intro d hd
      obtain ⟨z, hz, -⟩ := hd
      simp [← hc] at hz
    · left
      exact ⟨y, by simpa [hba] using hy, by simpa [hyx] using hc⟩

theorem Live.release {p : Nat → P} {d : D} (h : s.Live) :
    Live { s with holder := update s.holder x none, place := p, data := d } := by
  refine h.mono fun b c hbc => ?_
  obtain ⟨y, hy, hc⟩ := hbc
  by_cases hyx : y = x
  · simp [hyx] at hc
  · exact ⟨y, hy, by simpa [hyx] using hc⟩

def step (act : D → P → Bool → Option (Act L P D)) (s : SpinState L P D) (a : Nat) (ok : Bool) :
    Option (SpinState L P D) :=
  match s.spins a with
  | some x =>
    if s.holder x = none then
      some { s with holder := update s.holder x (some a), spins := update s.spins a none }
    else none
  | none =>
    match act s.data (s.place a) ok with
    | none => none
    | some (.acquire x c) =>
      some { s with spins := update s.spins a (some x), place := update s.place a c }
    | some (.release x c d) =>
      some { s with holder := update s.holder x none, place := update s.place a c, data := d }
    | some (.goto c d) => some { s with place := update s.place a c, data := d }

/-- `Entry c c'` says that a CPU at `c` that does not spin may start at `c'`. -/
def fire (act : D → P → Bool → Option (Act L P D))
    (Entry : P → P → Prop) [∀ c c', Decidable (Entry c c')]
    (s : SpinState L P D) : SpinEvent P → Option (SpinState L P D)
  | .start a c =>
    if s.spins a = none ∧ Entry (s.place a) c then some { s with place := update s.place a c }
      else none
  | .step a ok => s.step act a ok

theorem Live.fire_iff (h : s.Live) (hf : fire act Entry s e = some s') : s'.Live ↔
    Ordered act s e := by
  cases e with
  | start a c =>
    obtain ⟨-, rfl⟩ := of_guarded hf
    exact iff_of_true h trivial
  | step a ok =>
    simp only [fire, step] at hf
    split at hf
    · next ha =>
      obtain ⟨-, rfl⟩ := of_guarded hf
      exact iff_of_true h.get fun x c hnone => by simp [ha] at hnone
    · next ha =>
      split at hf
      · cases hf
      · next x c hact =>
        cases hf
        rw [h.request_iff ha]
        simp [Ordered, ha, hact]
      · next hact =>
        cases hf
        exact iff_of_true h.release fun x c _ hacq => by simp [hact] at hacq
      · next hact =>
        cases hf
        exact iff_of_true h fun x c _ hacq => by simp [hact] at hacq

/-- A CPU that spins after a step was spinning at its place, or has come to the acquisition. -/
theorem spins_cases {b : Nat} (hf : fire act Entry s e = some s') (hb : s'.spins b = some x) :
    s.spins b = some x ∧ s'.place b = s.place b ∨ s.spins b = none ∧
      ∃ ok, e = .step b ok ∧ act s.data (s.place b) ok = some (.acquire x (s'.place b)) := by
  cases e with
  | start a c =>
    obtain ⟨⟨ha, -⟩, rfl⟩ := of_guarded hf
    grind
  | step a ok =>
    simp only [fire, step] at hf
    split at hf
    · obtain ⟨-, rfl⟩ := of_guarded hf
      grind
    · split at hf <;> cases hf <;> grind

theorem holder_cases {b : Nat} (hf : fire act Entry s e = some s') (hb : s'.spins b ≠ none)
    (hx : s'.holder x = some b) : s.holder x = some b := by
  cases e with
  | start a c =>
    obtain ⟨-, rfl⟩ := of_guarded hf
    exact hx
  | step a ok =>
    simp only [fire, step] at hf
    split at hf
    · obtain ⟨-, rfl⟩ := of_guarded hf
      grind
    · split at hf <;> cases hf <;> grind

/-- What the starts and the actions of the program keep, a step keeps. -/
theorem fire_invariant {I : (Nat → P) → D → Prop}
    (hstart : ∀ a c, Entry (s.place a) c → I (update s.place a c) s.data)
    (hacquire : ∀ a ok x c, act s.data (s.place a) ok = some (.acquire x c) →
      I (update s.place a c) s.data)
    (hrelease : ∀ a ok x c d, act s.data (s.place a) ok = some (.release x c d) →
      I (update s.place a c) d)
    (hgoto : ∀ a ok c d, act s.data (s.place a) ok = some (.goto c d) → I (update s.place a c) d)
    (h : I s.place s.data) (hf : fire act Entry s e = some s') : I s'.place s'.data := by
  cases e with
  | start a c =>
    obtain ⟨hc, rfl⟩ := of_guarded hf
    exact hstart a c hc.2
  | step a ok =>
    simp only [fire, step] at hf
    split at hf
    · obtain ⟨-, rfl⟩ := of_guarded hf
      exact h
    · split at hf
      · cases hf
      · next hact =>
        cases hf
        exact hacquire a ok _ _ hact
      · next hact =>
        cases hf
        exact hrelease a ok _ _ _ hact
      · next hact =>
        cases hf
        exact hgoto a ok _ _ hact

/-- The locks that a CPU has at each place of a program, the last one first. -/
structure Follows (act : D → P → Bool → Option (Act L P D)) (Entry : P → P → Prop)
    (locks : P → List L) : Prop where
  start : ∀ c c', Entry c c' → locks c' = locks c
  acquire : ∀ d c ok x c', act d c ok = some (.acquire x c') → locks c' = x :: locks c
  release : ∀ d c ok x c' d', act d c ok = some (.release x c' d') →
    ∀ y ∈ locks c, y ≠ x → y ∈ locks c'
  goto : ∀ d c ok c' d', act d c ok = some (.goto c' d') → locks c ⊆ locks c'

/-- The locks that a CPU may have: it spins for the first one of its place. -/
def has (locks : P → List L) (s : SpinState L P D) (a : Nat) : List L :=
  if s.spins a = none then locks (s.place a) else (locks (s.place a)).tail

/-- A spinning CPU has come to its place by an acquisition, with at most the locks of its place. -/
structure Holds (act : D → P → Bool → Option (Act L P D)) (locks : P → List L)
    (s : SpinState L P D) : Prop where
  spins : ∀ a x, s.spins a = some x → ∃ d c ok, act d c ok = some (.acquire x (s.place a))
  holder : ∀ a x, s.holder x = some a → x ∈ s.has locks a

omit [DecidableEq L] in
theorem Holds.of_idle {locks : P → List L} (hs : ∀ a, s.spins a = none)
    (hh : ∀ x, s.holder x = none) :
    Holds act locks s := ⟨by simp [hs], by simp [hh]⟩

omit [DecidableEq L] in
theorem Holds.holder_ne {locks : P → List L} (h : Holds act locks s) (ha : s.spins a = none)
    (hnone : locks (s.place a) = []) : s.holder x ≠ some a := by
  intro hx
  have hmem := h.holder a x hx
  simp [has, ha, hnone] at hmem

variable {locks : P → List L} (hl : Follows act Entry locks)
include hl

omit [DecidableEq L] [∀ c c', Decidable (Entry c c')] in
theorem Holds.before {y : L} (h : Holds act locks s) (hy : s.holder y = some a)
    (hx : s.spins a = some x) :
    ∃ d c ok c', s.place a = c' ∧ act d c ok = some (.acquire x c') ∧ y ∈ locks c := by
  obtain ⟨d, c, ok, hact⟩ := h.spins a x hx
  have hmem := h.holder a y hy
  rw [has, if_neg (by simp [hx]), hl.acquire _ _ _ _ _ hact, List.tail_cons] at hmem
  exact ⟨d, c, ok, _, rfl, hact, hmem⟩

theorem Holds.fire (h : Holds act locks s) (hf : fire act Entry s e = some s') :
    Holds act locks s' := by
  constructor
  · intro b y hb
    obtain ⟨hy, hplace⟩ | ⟨-, ok, -, hact⟩ := spins_cases hf hb
    · exact hplace ▸ h.spins b y hy
    · exact ⟨_, _, _, hact⟩
  intro b y hb
  have hholder := h.holder
  simp only [has] at hholder ⊢
  cases e with
  | start a c =>
    obtain ⟨⟨ha, hc⟩, rfl⟩ := of_guarded hf
    have heq := hl.start _ _ hc
    grind
  | step a ok =>
    simp only [SpinState.fire, step] at hf
    split at hf
    · next x ha =>
      obtain ⟨hfree, rfl⟩ := of_guarded hf
      obtain ⟨d, c, ok', hact⟩ := h.spins a x ha
      have heq := hl.acquire _ _ _ _ _ hact
      by_cases hba : b = a <;> grind
    · next ha =>
      split at hf
      · cases hf
      · next x c hact =>
        cases hf
        have heq := hl.acquire _ _ _ _ _ hact
        grind
      · next x c d hact =>
        cases hf
        have hsub := hl.release _ _ _ _ _ _ hact
        grind
      · next c d hact =>
        cases hf
        have hsub := hl.goto _ _ _ _ _ hact
        grind

end SpinState

end OopsOS
