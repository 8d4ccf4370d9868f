import OopsOS.Log
import Mathlib.Algebra.BigOperators.Group.Finset.Basic
import Mathlib.Algebra.Order.BigOperators.Group.Finset
import Mathlib.Logic.Relation

namespace OopsOS
set_option autoImplicit true
open Function

inductive LogPanic where
  | tooBigTransaction
  | outsideOfTrans
  | committing
  deriving DecidableEq

structure Log where
  lh : List Nat
  outstanding : Int
  committing : Bool
  deriving DecidableEq

/-- One pass of the loop in `begin_op`; nothing if the process has to sleep. -/
def Log.beginOp (l : Log) : Option Log :=
  if l.committing then none
  else if l.lh.length + (l.outstanding + 1) * MAXOPBLOCKS > LOGSIZE then none
  else some { l with outstanding := l.outstanding + 1 }

def Log.logWrite (l : Log) (b : Nat) : Except LogPanic Log :=
  if l.lh.length ≥ LOGSIZE ∨ l.lh.length ≥ sb.nlog - 1 then .error .tooBigTransaction
  else if l.outstanding < 1 then .error .outsideOfTrans
  else if b ∈ l.lh then .ok l
  else .ok { l with lh := l.lh ++ [b] }

theorem Log.logWrite_ok {l l' : Log} (h : l.logWrite b = .ok l') :
    l.lh.length < sb.nlog - 1 ∧ l'.lh.length ≤ l.lh.length + 1 ∧
      ∀ x, x ∈ l'.lh ↔ x ∈ l.lh ∨ x = b := by
  unfold logWrite at h
  split at h
  · cases h
  · next hbig =>
    have hroom : l.lh.length < sb.nlog - 1 := Nat.lt_of_not_ge fun hge => hbig (.inr hge)
    split at h
    · cases h
    · split at h
      · next hm =>
        cases h
        exact ⟨hroom, Nat.le_succ _, fun x => ⟨.inl, fun hx => hx.elim id fun e => e ▸ hm⟩⟩
      · cases h
        refine ⟨hroom, ?_, fun x => ?_⟩
        · rw [List.length_append, List.length_singleton]
        · rw [List.mem_append, List.mem_singleton]

/-- The first half of `end_op`: the last operation starts the commit. -/
def Log.endOp (l : Log) : Except LogPanic Log :=
  if l.committing then .error .committing
  else .ok { l with outstanding := l.outstanding - 1, committing := l.outstanding - 1 = 0 }

def Log.commitDone (l : Log) : Log := { l with lh := [], committing := false }

/-- The log, the processes in an operation, and the blocks that each of them has logged there. -/
structure LogSys where
  log : Log
  active : Finset Nat
  mine : Nat → Finset Nat

def LogSys.init : LogSys := ⟨⟨[], 0, false⟩, ∅, fun _ => ∅⟩

inductive LogEvent where
  | beginOp (p : Nat)
  | logWrite (p b : Nat)
  | endOp (p : Nat)
  | commit

variable {s s' : LogSys} {p b : Nat}

/-- A step, for processes that log at most `MAXOPBLOCKS` blocks, inside of an operation. -/
def LogSys.fire (s : LogSys) : LogEvent → Option (Except LogPanic LogSys)
  | .beginOp p =>
    if p ∈ s.active then none
    else s.log.beginOp.map fun l =>
      .ok ⟨l, insert p s.active, update s.mine p ∅⟩
  | .logWrite p b =>
    if p ∈ s.active ∧ (insert b (s.mine p)).card ≤ MAXOPBLOCKS then
      some ((s.log.logWrite b).map fun l =>
        { s with log := l, mine := update s.mine p (insert b (s.mine p)) })
    else none
  | .endOp p =>
    if p ∈ s.active then
      some (s.log.endOp.map fun l => { s with log := l, active := s.active.erase p })
    else none
  | .commit =>
    if s.log.committing then some (.ok { s with log := s.log.commitDone }) else none

def LogSys.Reachable (P : LogSys → LogEvent → Prop) : LogSys → Prop :=
  Relation.ReflTransGen (fun s s' => ∃ e, P s e ∧ s.fire e = some (.ok s')) .init

def LogSys.panics (s : LogSys) (e : LogEvent) : Option LogPanic :=
  match s.fire e with
  | some (.error x) => some x
  | _ => none

def LogSys.run (s : LogSys) (P : LogSys → LogEvent → Prop) [∀ s e, Decidable (P s e)] :
    List LogEvent → Option LogSys
  | [] => some s
  | e :: es =>
    if P s e then
      match s.fire e with
      | some (.ok s') => run s' P es
      | _ => none
    else none

theorem LogSys.Reachable.run {P : LogSys → LogEvent → Prop} [∀ s e, Decidable (P s e)]
    (h : Reachable P s) (hrun : s.run P es = some s') : Reachable P s' := by
  induction es generalizing s with
  | nil =>
    cases hrun
    exact h
  | cons e es ih =>
    simp only [LogSys.run] at hrun
    split at hrun
    · next hP =>
      split at hrun
      · next s₁ hfire => exact ih (h.tail ⟨e, hP, hfire⟩) hrun
      · cases hrun
    · cases hrun

def reserved (active : Finset Nat) (mine : Nat → Finset Nat) : Nat :=
  ∑ p ∈ active, (MAXOPBLOCKS - (mine p).card)

def LogSys.Roomy (s : LogSys) : LogEvent → Prop
  | .beginOp _ => s.log.lh.length + (s.log.outstanding + 1) * MAXOPBLOCKS ≤ sb.nlog - 2
  | _ => True

instance (s : LogSys) (e : LogEvent) : Decidable (s.Roomy e) := by
  cases e <;> unfold LogSys.Roomy <;> infer_instance

structure LogSys.Fits (s : LogSys) : Prop where
  count : s.log.outstanding = s.active.card
  idle : s.log.committing = true → s.active = ∅
  own : ∀ p ∈ s.active, (s.mine p).card ≤ MAXOPBLOCKS ∧ ∀ b ∈ s.mine p, b ∈ s.log.lh
  room : s.log.lh.length + reserved s.active s.mine ≤ sb.nlog - 2

theorem LogSys.init_fits : init.Fits :=
  ⟨rfl, (nomatch ·), fun p hp => absurd hp (Finset.notMem_empty p), by decide⟩

theorem reserved_le (active : Finset Nat) (mine : Nat → Finset Nat) :
    reserved active mine ≤ active.card * MAXOPBLOCKS := by
  apply Finset.sum_le_card_nsmul
  intro p _
  exact Nat.sub_le ..

theorem reserved_insert (mine : Nat → Finset Nat) (hp : p ∉ active) :
    reserved (insert p active) (update mine p ∅) = MAXOPBLOCKS + reserved active mine := by
  rw [reserved, Finset.sum_insert hp, update_self]
  congr 1
  apply Finset.sum_congr rfl
  intro q hq
  have hne : q ≠ p := fun e => hp (e ▸ hq)
  rw [update_of_ne hne]

theorem reserved_update (hp : p ∈ active)
    (hold : (mine p).card ≤ MAXOPBLOCKS) (hnew : S.card ≤ MAXOPBLOCKS) :
    reserved active (update mine p S) + S.card =
      reserved active mine + (mine p).card := by
  have hrest : ∑ q ∈ active.erase p, (MAXOPBLOCKS - (update mine p S q).card) =
      ∑ q ∈ active.erase p, (MAXOPBLOCKS - (mine q).card) := by
    apply Finset.sum_congr rfl
    intro q hq
    rw [update_of_ne (Finset.ne_of_mem_erase hq)]
  rw [reserved, reserved, ← Finset.add_sum_erase _ _ hp,
    ← Finset.add_sum_erase active (fun q => MAXOPBLOCKS - (mine q).card) hp, hrest,
    update_self]
  omega

theorem LogSys.Fits.beginOp (h : s.Fits) (hroom : s.Roomy (.beginOp p))
    (hs : s.fire (.beginOp p) = some (.ok s')) : s'.Fits := by
  simp only [fire, Log.beginOp] at hs
  split at hs
  · cases hs
  · next hp =>
    split at hs
    · cases hs
    · next hc =>
      split at hs
      · cases hs
      · cases hs
        have hle := reserved_le s.active s.mine
        have hcount := h.count
        refine ⟨?_, fun hcom => absurd hcom hc, fun q hq => ?_, ?_⟩
        · rw [Finset.card_insert_of_notMem hp, hcount]
          exact (Int.natCast_succ _).symm
        · by_cases he : q = p
          · subst he
            simp only [update_self, Finset.card_empty]
            exact ⟨Nat.zero_le _, fun b hb => absurd hb (Finset.notMem_empty b)⟩
          · simp only [update_of_ne he]
            exact h.own q (Finset.mem_of_mem_insert_of_ne hq he)
        · rw [reserved_insert _ hp]
          change (s.log.lh.length : Int) + (s.log.outstanding + 1) * 10 ≤ 28 at hroom
          change s.log.lh.length + (10 + reserved s.active s.mine) ≤ 28
          change reserved s.active s.mine ≤ s.active.card * 10 at hle
          omega

theorem LogSys.Fits.logWrite (h : s.Fits) (hp : p ∈ s.active)
    (hcard : (insert b (s.mine p)).card ≤ MAXOPBLOCKS) :
    ∃ l, s.log.logWrite b = .ok l ∧ LogSys.Fits { s with
      log := l, mine := update s.mine p (insert b (s.mine p)) } := by
  have hroom := h.room
  have hcount := h.count
  have hpos : 0 < s.active.card := Finset.card_pos.2 ⟨p, hp⟩
  change s.log.lh.length + reserved s.active s.mine ≤ 28 at hroom
  have hbig : ¬ (s.log.lh.length ≥ LOGSIZE ∨ s.log.lh.length ≥ sb.nlog - 1) := by
    change ¬ (s.log.lh.length ≥ 30 ∨ s.log.lh.length ≥ 29)
    omega
  have hout : ¬ s.log.outstanding < 1 := by omega
  have hsum := reserved_update hp (h.own p hp).1 hcard
  have hown (l : Log) (hsub : ∀ x ∈ s.log.lh, x ∈ l.lh) (hb : b ∈ l.lh) (q : Nat)
      (hq : q ∈ s.active) : (update s.mine p (insert b (s.mine p)) q).card ≤ MAXOPBLOCKS ∧
        ∀ x ∈ update s.mine p (insert b (s.mine p)) q, x ∈ l.lh := by
    have hq' := h.own q hq
    by_cases he : q = p
    · subst he
      rw [update_self]
      refine ⟨hcard, fun x hx => ?_⟩
      rcases Finset.mem_insert.1 hx with rfl | hx
      · exact hb
      · exact hsub x (hq'.2 x hx)
    · rw [update_of_ne he]
      exact ⟨hq'.1, fun x hx => hsub x (hq'.2 x hx)⟩
  generalize update s.mine p (insert b (s.mine p)) = mine at hsum hown
  have hmono : (s.mine p).card ≤ (insert b (s.mine p)).card :=
    Finset.card_le_card (Finset.subset_insert b _)
  by_cases hb : b ∈ s.log.lh
  · refine ⟨s.log, by rw [Log.logWrite, if_neg hbig, if_neg hout, if_pos hb], hcount, h.idle,
      hown s.log (fun _ hx => hx) hb, ?_⟩
    change s.log.lh.length + reserved s.active mine ≤ 28
    omega
  · have hnew : b ∉ s.mine p := fun hm => hb ((h.own p hp).2 b hm)
    refine ⟨{ s.log with lh := s.log.lh ++ [b] },
      by rw [Log.logWrite, if_neg hbig, if_neg hout, if_neg hb], hcount, h.idle,
      hown _ (fun x hx => List.mem_append_left _ hx) (List.mem_append_right _ List.mem_cons_self),
      ?_⟩
    rw [Finset.card_insert_of_notMem hnew] at hsum
    change (s.log.lh ++ [b]).length + reserved s.active mine ≤ 28
    rw [List.length_append, List.length_singleton]
    omega

theorem LogSys.Fits.endOp (h : s.Fits) (hp : p ∈ s.active) : ∃ l, s.log.endOp = .ok l ∧
    LogSys.Fits { s with log := l, active := s.active.erase p } := by
  have hidle : ¬ s.log.committing = true := fun hc => by
    rw [h.idle hc] at hp
    exact Finset.notMem_empty p hp
  have hcard := Finset.card_erase_add_one hp
  have hcount := h.count
  refine ⟨_, if_neg hidle, ?_, fun hc => ?_, fun q hq => h.own q (Finset.mem_of_mem_erase hq), ?_⟩
  · change s.log.outstanding - 1 = ((s.active.erase p).card : Int)
    omega
  · have hzero : s.log.outstanding - 1 = 0 := of_decide_eq_true hc
    have hcard' : (s.active.erase p).card = 0 := by omega
    exact Finset.card_eq_zero.1 hcard'
  · have hle : reserved (s.active.erase p) s.mine ≤ reserved s.active s.mine :=
      Finset.sum_le_sum_of_subset (Finset.erase_subset p s.active)
    exact (Nat.add_le_add_left hle _).trans h.room

theorem LogSys.Fits.commit (h : s.Fits) (hc : s.log.committing = true) :
    LogSys.Fits { s with log := s.log.commitDone } := by
  have hactive := h.idle hc
  refine ⟨h.count, fun _ => hactive, fun q hq => ?_, ?_⟩
  · change q ∈ s.active at hq
    rw [hactive] at hq
    exact absurd hq (Finset.notMem_empty q)
  · exact (Nat.add_le_add_right (Nat.zero_le _) _).trans h.room

theorem LogSys.Fits.fire (h : s.Fits) (hr : s.Roomy e)
    (hs : s.fire e = some (.ok s')) : s'.Fits := by
  cases e with
  | beginOp p => exact h.beginOp hr hs
  | logWrite p b =>
    simp only [LogSys.fire] at hs
    split at hs
    · next hc =>
      obtain ⟨l, hl, hfit⟩ := h.logWrite hc.1 hc.2
      rw [hl] at hs
      cases hs
      exact hfit
    · cases hs
  | endOp p =>
    simp only [LogSys.fire] at hs
    split at hs
    · next hp =>
      obtain ⟨l, hl, hfit⟩ := h.endOp hp
      rw [hl] at hs
      cases hs
      exact hfit
    · cases hs
  | commit =>
    simp only [LogSys.fire] at hs
    split at hs
    · next hc =>
      cases hs
      exact h.commit hc
    · cases hs

theorem LogSys.Fits.no_panic (h : s.Fits) (hs : s.fire e = some (.error x)) :
    False := by
  cases e with
  | beginOp p =>
    simp only [LogSys.fire] at hs
    split at hs
    · cases hs
    · cases hb : s.log.beginOp <;> rw [hb] at hs <;> cases hs
  | logWrite p b =>
    simp only [LogSys.fire] at hs
    split at hs
    · next hc =>
      obtain ⟨l, hl, -⟩ := h.logWrite hc.1 hc.2
      rw [hl] at hs
      cases hs
    · cases hs
  | endOp p =>
    simp only [LogSys.fire] at hs
    split at hs
    · next hp =>
      obtain ⟨l, hl, -⟩ := h.endOp hp
      rw [hl] at hs
      cases hs
    · cases hs
  | commit =>
    simp only [LogSys.fire] at hs
    split at hs <;> cases hs

theorem LogSys.Reachable.fits (h : Reachable Roomy s) : s.Fits := by
  induction h with
  | refl => exact init_fits
  | tail _ hstep ih =>
    obtain ⟨e, hr, hs⟩ := hstep
    exact ih.fire hr hs

/-- If operations are admitted only while the log has room for one more write, the log does not
panic. -/
theorem log_admission (h : LogSys.Reachable LogSys.Roomy s) (e : LogEvent) : s.panics e = none := by
  unfold LogSys.panics
  split
  · next hs => exact (h.fits.no_panic hs).elim
  · rfl

def twoOps : List LogEvent :=
  [.beginOp 0, .beginOp 1] ++ (List.range 20).map fun b => .logWrite (b / 10) b

theorem log_admission_twoOps :
    ((LogSys.init.run LogSys.Roomy twoOps).getD .init).panics (.logWrite 0 3) = none := by
  have hsome : (LogSys.init.run LogSys.Roomy twoOps).isSome = true := by decide +kernel
  obtain ⟨s, hs⟩ := Option.isSome_iff_exists.1 hsome
  rw [hs]
  exact log_admission (LogSys.Reachable.run .refl hs) (.logWrite 0 3)

def threeOps : List LogEvent :=
  [.beginOp 0, .beginOp 1, .beginOp 2] ++ (List.range 29).map fun b => .logWrite (b / 10) b

/-- Three operations are admitted to an empty log, but their last block does not fit. -/
theorem log_admission_exceeded : ∃ s p b, LogSys.Reachable (fun _ _ => True) s ∧
    s.panics (.logWrite p b) = some .tooBigTransaction := by
  have hsome : ((LogSys.init.run (fun _ _ => True) threeOps).map fun s =>
      s.panics (.logWrite 2 29)) = some (some .tooBigTransaction) := by decide +kernel
  obtain ⟨s, hs, hpanic⟩ := Option.map_eq_some_iff.1 hsome
  exact ⟨s, 2, 29, LogSys.Reachable.run .refl hs, hpanic⟩

end OopsOS
