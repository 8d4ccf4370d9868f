import OopsOS.Rings
import OopsOS.Traces

namespace OopsOS.Pipes
set_option autoImplicit true
open Function

def PIPESIZE : Nat := 512

/-- Where a process is in `pipewrite`, with the bytes stored, or in `piperead`. -/
inductive Pc where
  | idle
  | writing (buf : List UInt8) (i : Nat) (mine : List UInt8) (asleep : Bool)
  | waiting (n : Nat) (asleep : Bool)
  | reading (n : Nat) (i : Nat)

def Pc.wakeReader : Pc → Pc
  | waiting n _ => waiting n false
  | c => c

def Pc.wakeWriter : Pc → Pc
  | writing buf i mine _ => writing buf i mine false
  | c => c

structure Write where
  buf : List UInt8
  result : Int
  mine : List UInt8

/-- A pipe, the processes that use it, and the bytes stored and taken so far. -/
structure State (P : Type) where
  ring : Ring
  readopen : Bool
  writeopen : Bool
  freed : Bool
  lock : Option P
  killed : P → Bool
  pc : P → Pc
  stored : List UInt8
  taken : List UInt8
  returned : List Write

inductive Event (P : Type) where
  | write (p : P) (buf : List UInt8)
  | read (p : P) (n : Nat)
  | run (p : P)
  | kill (p : P)
  | close (writable : Bool)

variable {P : Type} [DecidableEq P] {s s' : State P} {p : P} {buf mine : List UInt8} {i n : Nat}
  {e : Event P} {es : List (Event P)}

def State.setPc (s : State P) (p : P) (c : Pc) : State P := { s with pc := update s.pc p c }

def State.wakeReaders (s : State P) : State P := { s with pc := fun q => (s.pc q).wakeReader }

def State.wakeWriters (s : State P) : State P := { s with pc := fun q => (s.pc q).wakeWriter }

def State.wrote (s : State P) (p : P) (w : Write) : State P :=
  { s.setPc p .idle with lock := none, returned := w :: s.returned }

def State.pipewrite (s : State P) (p : P) (buf : List UInt8) (i : Nat) (mine : List UInt8) :
    State P :=
  match buf[i]? with
  | none => s.wakeReaders.wrote p ⟨buf, i, mine⟩
  | some ch =>
    if s.ring.w = s.ring.r + UInt32.ofNat PIPESIZE then
      if s.readopen = false ∨ s.killed p then s.wrote p ⟨buf, -1, mine⟩
      else { s.wakeReaders.setPc p (.writing buf i mine true) with lock := none }
    else { s.setPc p (.writing buf (i + 1) (mine ++ [ch]) false) with
      ring := s.ring.put PIPESIZE ch, stored := s.stored ++ [ch], lock := some p }

def State.pipewait (s : State P) (p : P) (n : Nat) : State P :=
  if s.ring.r = s.ring.w ∧ s.writeopen then
    if s.killed p then { s.setPc p .idle with lock := none }
    else { s.setPc p (.waiting n true) with lock := none }
  else { s.setPc p (.reading n 0) with lock := some p }

def State.piperead (s : State P) (p : P) (n i : Nat) : State P :=
  if i < n ∧ s.ring.r ≠ s.ring.w then
    { s.setPc p (.reading n (i + 1)) with
      ring := s.ring.pop, taken := s.taken ++ [s.ring.front PIPESIZE], lock := some p }
  else { s.wakeWriters.setPc p .idle with lock := none }

def State.pipeclose (s : State P) (writable : Bool) : State P :=
  let s := if writable then { s.wakeReaders with writeopen := false }
    else { s.wakeWriters with readopen := false }
  { s with freed := s.freed || (!s.readopen && !s.writeopen) }

def fire (s : State P) : Event P → Option (State P)
  | .write p buf =>
    match s.freed, s.pc p with
    | false, .idle => some (s.setPc p (.writing buf 0 [] false))
    | _, _ => none
  | .read p n =>
    match s.freed, s.pc p with
    | false, .idle => some (s.setPc p (.waiting n false))
    | _, _ => none
  | .run p =>
    if s.freed = false ∧ (s.lock = none ∨ s.lock = some p) then
      match s.pc p with
      | .writing buf i mine false => some (s.pipewrite p buf i mine)
      | .waiting n false => some (s.pipewait p n)
      | .reading n i => some (s.piperead p n i)
      | _ => none
    else none
  | .kill p =>
    some { s.setPc p (s.pc p).wakeReader.wakeWriter with killed := update s.killed p true }
  | .close writable => if s.freed = false ∧ s.lock = none then some (s.pipeclose writable) else none

/-- The bytes taken are the first ones stored, and `pipewrite` has stored as many as it says. -/
structure State.Fifo (s : State P) : Prop where
  bounded : (s.ring.w - s.ring.r).toNat ≤ PIPESIZE
  ordered : s.taken <+: s.stored
  exact : ∀ w ∈ s.returned, 0 < w.result → w.mine = w.buf.take w.result.toNat ∧
    w.result ≤ w.buf.length

def Pc.Exact : Pc → Prop
  | writing buf i mine _ => mine = buf.take i ∧ i ≤ buf.length
  | _ => True

theorem Pc.Exact.wakeReader {c : Pc} (h : c.Exact) : c.wakeReader.Exact := by cases c <;> exact h

theorem Pc.Exact.wakeWriter {c : Pc} (h : c.Exact) : c.wakeWriter.Exact := by cases c <;> exact h

structure Inv (s : State P) : Prop where
  holds : ∃ q, s.ring.Holds PIPESIZE q ∧ s.stored = s.taken ++ q
  calls : ∀ p, (s.pc p).Exact
  returned : ∀ w ∈ s.returned, 0 < w.result →
    w.mine = w.buf.take w.result.toNat ∧ w.result ≤ w.buf.length

theorem Inv.setPc (h : Inv s) (hc : c.Exact) : Inv (s.setPc p c) :=
  ⟨h.holds, forall_update_iff _ (fun _ => Pc.Exact) |>.2 ⟨hc, fun q _ => h.calls q⟩, h.returned⟩

omit [DecidableEq P] in
theorem Inv.wakeReaders (h : Inv s) : Inv s.wakeReaders :=
  ⟨h.holds, fun p => (h.calls p).wakeReader, h.returned⟩

omit [DecidableEq P] in
theorem Inv.wakeWriters (h : Inv s) : Inv s.wakeWriters :=
  ⟨h.holds, fun p => (h.calls p).wakeWriter, h.returned⟩

theorem Inv.pipewrite (h : Inv s) (hp : s.pc p = .writing buf i mine false) :
    Inv (s.pipewrite p buf i mine) := by
  obtain ⟨rfl, hi⟩ : mine = buf.take i ∧ i ≤ buf.length := by simpa [hp, Pc.Exact] using h.calls p
  unfold State.pipewrite
  cases hch : buf[i]? with
  | none =>
    have h' := (h.wakeReaders).setPc (p := p) (c := .idle) trivial
    exact ⟨h'.holds, h'.calls, List.forall_mem_cons.2 ⟨fun _ => ⟨rfl, Int.ofNat_le.2 hi⟩,
      h.returned⟩⟩
  | some ch =>
    obtain ⟨hlt, rfl⟩ := List.getElem?_eq_some_iff.1 hch
    dsimp only
    split
    · split
      · have h' := h.setPc (p := p) (c := .idle) trivial
        exact ⟨h'.holds, h'.calls, List.forall_mem_cons.2 ⟨nofun, h.returned⟩⟩
      · have h' := h.wakeReaders.setPc (p := p) (c := .writing buf i (buf.take i) true) ⟨rfl, hi⟩
        exact ⟨h'.holds, h'.calls, h'.returned⟩
    · next hfull =>
      have h' := h.setPc (p := p) (c := .writing buf (i + 1) (buf.take i ++ [buf[i]]) false)
        ⟨List.take_append_getElem hlt, hlt⟩
      obtain ⟨q, hq, he⟩ := h.holds
      rw [hq.full_iff (by decide)] at hfull
      have hput := congrArg (· ++ [buf[i]]) he
      rw [List.append_assoc] at hput
      exact ⟨⟨_, hq.put (by decide) (lt_of_le_of_ne hq.room hfull), hput⟩, h'.calls, h'.returned⟩

theorem Inv.pipewait (h : Inv s) : Inv (s.pipewait p n) := by
  have h' (c : Pc) (hc : c.Exact) (l : Option P) : Inv { s.setPc p c with lock := l } :=
    ⟨h.holds, (h.setPc hc).calls, h.returned⟩
  unfold State.pipewait
  split
  · split
    · exact h' .idle trivial none
    · exact h' (.waiting n true) trivial none
  · exact h' (.reading n 0) trivial (some p)

theorem Inv.piperead (h : Inv s) : Inv (s.piperead p n i) := by
  unfold State.piperead
  split
  · next hmore =>
    have h' := h.setPc (p := p) (c := .reading n (i + 1)) trivial
    obtain ⟨q, hq, he⟩ := h.holds
    cases q with
    | nil => exact absurd ((hq.empty_iff (by decide)).2 rfl) hmore.2
    | cons c q =>
      refine ⟨⟨q, hq.pop (by decide), ?_⟩, h'.calls, h'.returned⟩
      show s.stored = s.taken ++ [s.ring.front PIPESIZE] ++ q
      rw [hq.front_eq, he, List.append_assoc, List.singleton_append]
  · have h' := h.wakeWriters.setPc (p := p) (c := .idle) trivial
    exact ⟨h'.holds, h'.calls, h'.returned⟩

omit [DecidableEq P] in
theorem Inv.pipeclose (h : Inv s) (writable : Bool) : Inv (s.pipeclose writable) := by
  cases writable with
  | false => exact ⟨h.holds, h.wakeWriters.calls, h.returned⟩
  | true => exact ⟨h.holds, h.wakeReaders.calls, h.returned⟩

theorem Inv.fire (h : Inv s) (hf : fire s e = some s') : Inv s' := by
  cases e with
  | write p buf =>
    simp only [Pipes.fire] at hf
    split at hf
    · cases hf
      exact h.setPc ⟨rfl, Nat.zero_le _⟩
    · cases hf
  | read p n =>
    simp only [Pipes.fire] at hf
    split at hf
    · cases hf
      exact h.setPc trivial
    · cases hf
  | run p =>
    simp only [Pipes.fire, Option.ite_none_right_eq_some] at hf
    obtain ⟨-, hf⟩ := hf
    split at hf
    · next hp =>
      cases hf
      exact h.pipewrite hp
    · cases hf
      exact h.pipewait
    · cases hf
      exact h.piperead
    · cases hf
  | kill p =>
    cases hf
    have h' := h.setPc (p := p) (h.calls p).wakeReader.wakeWriter
    exact ⟨h'.holds, h'.calls, h'.returned⟩
  | close writable =>
    obtain ⟨-, rfl⟩ := of_guarded hf
    exact h.pipeclose writable

structure Started (s : State P) : Prop where
  empty : s.ring.r = s.ring.w
  stored : s.stored = []
  taken : s.taken = []
  returned : s.returned = []
  idle : ∀ p, s.pc p = .idle

omit [DecidableEq P] in
theorem Started.inv (h : Started s) : Inv s :=
  ⟨⟨[], Ring.holds_nil h.empty, by rw [h.stored, h.taken]; rfl⟩, fun p => by rw [h.idle]; trivial,
    by rw [h.returned]; nofun⟩

end OopsOS.Pipes
