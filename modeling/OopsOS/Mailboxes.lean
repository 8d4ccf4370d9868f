import Mathlib

namespace OopsOS
set_option autoImplicit true

inductive Side where
  | put
  | take
deriving DecidableEq

/-- A queue with one channel for its senders and its receiver. Each message put in or taken out owes
a wakeup. -/
structure Mailbox (P : Type) where
  count : Nat
  awake : Set P
  asleep : Set P
  waiting : Prop
  owed : Option Side

namespace Mailbox

variable {P : Type} [LinearOrder P] {N : Nat} {r : P} {m m' : Mailbox P}

/-- The senders that a wakeup finds before the receiver. -/
def before (m : Mailbox P) (r : P) : Set P := m.asleep ∩ Set.Iio r

/-- A wakeup goes to the first process that sleeps. -/
inductive Step (N : Nat) (r : P) (m : Mailbox P) : Mailbox P → Prop
  | start {q : P} : Step N r m { m with awake := insert q m.awake }
  | park {q : P} (hq : q ∈ m.awake) (hfull : N ≤ m.count) (howed : m.owed = none) :
    Step N r m { m with awake := m.awake \ {q}, asleep := insert q m.asleep }
  | put {q : P} (hq : q ∈ m.awake) (howed : m.owed = none) :
    Step N r m { m with count := m.count + 1, awake := m.awake \ {q}, owed := some .put }
  | take (hpos : 0 < m.count) (hwait : ¬ m.waiting) (howed : m.owed = none) :
    Step N r m { m with count := m.count - 1, owed := some .take }
  | wait (hempty : m.count = 0) (hfew : (m.before r).ncard < N) (howed : m.owed = none) :
    Step N r m { m with waiting := True }
  | wake {q : P} (hq : q ∈ m.asleep) (hnew : q ∉ m.awake) (hfirst : m.waiting → q < r)
    (howed : m.owed ≠ none) :
    Step N r m { m with awake := insert q m.awake, asleep := m.asleep \ {q}, owed := none }
  | rouse (hwait : m.waiting) (howed : m.owed ≠ none) :
    Step N r m { m with waiting := False, owed := none }
  | miss (hnone : m.asleep = ∅) (hwait : ¬ m.waiting) (howed : m.owed ≠ none) :
    Step N r m { m with owed := none }

def Stuck (N : Nat) (m : Mailbox P) : Prop :=
  m.waiting ∧ 0 < m.count ∨ m.asleep.Nonempty ∧ m.count < N

/-- While senders sleep, messages and awake senders fill the queue; while the receiver does, not. -/
structure Served (N : Nat) (r : P) (m : Mailbox P) : Prop where
  crowd : m.asleep.Nonempty → N ≤ m.count + m.awake.ncard + if m.owed = some .take then 1 else 0
  few : m.waiting → m.count + (m.before r).ncard < N + if m.owed = some .put then 1 else 0
  next : m.waiting → 0 < m.count → m.awake.Nonempty ∨ m.owed = some .put
  quiet : m.waiting → m.owed ≠ some .take

theorem Served.not_stuck (h : Served N r m) (hnone : m.awake = ∅) (howed : m.owed = none) :
    ¬ m.Stuck N := by
  rintro (⟨hwait, hpos⟩ | ⟨hasleep, hroom⟩)
  · have hnext := h.next hwait hpos
    simp [hnone, howed] at hnext
  · have hcrowd := h.crowd hasleep
    simp only [hnone, howed, Set.ncard_empty, reduceCtorEq, if_false] at hcrowd
    omega

theorem Served.step [Finite P] (h : Served N r m) (hs : Step N r m m') : Served N r m' := by
  obtain ⟨hcrowd, hfew, hnext, hquiet⟩ := h
  cases hs with
  | @start q =>
    have hle := Set.ncard_le_ncard (Set.subset_insert q m.awake)
    refine ⟨fun hne => ?_, hfew, fun _ _ => .inl ⟨q, .inl rfl⟩, hquiet⟩
    exact (hcrowd hne).trans (by gcongr)
  | park hq hfull howed =>
    have hnot : ¬ m.waiting := fun hwait => by
      have := hfew hwait
      simp only [howed, reduceCtorEq, if_false] at this
      omega
    refine ⟨fun _ => by simp only; omega, fun hwait => absurd hwait hnot,
      fun hwait => absurd hwait hnot, hquiet⟩
  | @put q hq howed =>
    have hcard := Set.ncard_sdiff_singleton_add_one hq
    refine ⟨fun hne => ?_, fun hwait => ?_, fun _ _ => .inr rfl, fun _ => by simp⟩
    · have := hcrowd hne
      simp only [howed, reduceCtorEq, if_false] at this ⊢
      grind
    · have := hfew hwait
      simp only [howed, reduceCtorEq, if_false, if_true, before] at this ⊢
      omega
  | take hpos hwait howed =>
    refine ⟨fun hne => ?_, fun h => absurd h hwait, fun h => absurd h hwait,
      fun h => absurd h hwait⟩
    have := hcrowd hne
    simp only [howed, reduceCtorEq, if_false, if_true] at this ⊢
    omega
  | wait hempty hlt howed =>
    refine ⟨hcrowd, fun _ => ?_, fun _ hpos => ?_, fun _ => by simp [howed]⟩
    · simp only [hempty, before] at hlt ⊢
      omega
    · exact absurd hempty (Nat.pos_iff_ne_zero.1 hpos)
  | @wake q hq hnew hfirst howed =>
    have hcard := Set.ncard_insert_of_notMem hnew
    refine ⟨fun hne => ?_, fun hwait => ?_, fun _ _ => .inl ⟨q, .inl rfl⟩, fun _ => by simp⟩
    · have := hcrowd ⟨q, hq⟩
      simp only [reduceCtorEq, if_false, hcard]
      split at this <;> omega
    · have hlt := hfew hwait
      have hmem : q ∈ m.before r := ⟨hq, hfirst hwait⟩
      have hdiff : (m.asleep \ {q}) ∩ Set.Iio r = m.before r \ {q} := by
        ext x
        simp only [before, Set.mem_inter_iff, Set.mem_sdiff]
        tauto
      have hone := Set.ncard_sdiff_singleton_add_one hmem
      simp only [before, hdiff, reduceCtorEq, if_false] at hlt ⊢
      split at hlt <;> simp only [before] at hone <;> omega
  | rouse hwait howed =>
    refine ⟨fun hne => ?_, False.elim, False.elim, False.elim⟩
    have := hcrowd hne
    simp only [hquiet hwait, reduceCtorEq, if_false] at this ⊢
    exact this
  | miss hnone hwait howed =>
    exact ⟨fun hne => absurd hnone hne.ne_empty, fun h => absurd h hwait, fun h => absurd h hwait,
      fun h => absurd h hwait⟩

end Mailbox

end OopsOS
