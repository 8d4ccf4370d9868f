import Mathlib.Algebra.BigOperators.Group.Finset.Piecewise
import Mathlib.Data.Fintype.Card
import OopsOS.Traces
import OopsOS.Limits

namespace OopsOS
set_option autoImplicit true
open Function

inductive LockKind where
  | sh
  | ex
deriving DecidableEq

def LockKind.code : LockKind → UInt32
  | sh => 1
  | ex => 2

def LOCK_NB : UInt32 := 4

def LOCK_UN : UInt32 := 8

abbrev FileSlot := Fin 100

/-- An inode with its lock and open files. `asleep` are the sleeping calls, `closing` the locks
whose `fileclose` is under way. -/
structure FlockState where
  flockType : Option LockKind
  flockCount : Int
  fds : FileSlot → Bool
  flockHeld : FileSlot → Option LockKind
  asleep : List (FileSlot × LockKind)
  closing : List LockKind

def FlockState.init : FlockState := ⟨none, 0, fun _ => false, fun _ => none, [], []⟩

def FlockState.drop (s : FlockState) : FlockState :=
  match s.flockType with
  | some .sh =>
    if s.flockCount - 1 = 0 then { s with flockCount := s.flockCount - 1, flockType := none }
    else { s with flockCount := s.flockCount - 1 }
  | some .ex => { s with flockType := none, flockCount := 0 }
  | none => s

/-- How a section of `fileflock` ends: with a result, or asleep in the loop for a lock. -/
inductive FlockEnd where
  | ret (r : Int)
  | sleep (k : LockKind)
deriving DecidableEq

/-- The end of `fileflock`: the loop for one kind of lock, and taking the lock. -/
def FlockState.take (s : FlockState) (f : FileSlot) (nonblock : Bool) :
    LockKind → FlockEnd × FlockState
  | .sh =>
    if s.flockType = some .ex then
      if nonblock then (.ret (-1), s) else (.sleep .sh, s)
    else (.ret 0, { s with
      flockType := some .sh
      flockCount := s.flockCount + 1
      flockHeld := update s.flockHeld f (some .sh) })
  | .ex =>
    if s.flockType ≠ none then
      if nonblock then (.ret (-1), s) else (.sleep .ex, s)
    else (.ret 0, { s with
      flockType := some .ex
      flockCount := 1
      flockHeld := update s.flockHeld f (some .ex) })

def FlockState.unheld (s : FlockState) (f : FileSlot) : FlockState :=
  { s.drop with flockHeld := update s.flockHeld f none }

def FlockState.convert (s : FlockState) (f : FileSlot) (op : UInt32) : FlockState :=
  match s.flockHeld f with
  | some k => if k.code ≠ op then s.unheld f else s
  | none => s

def FlockState.fileflock (s : FlockState) (f : FileSlot) (operation : UInt32) :
    FlockEnd × FlockState :=
  let nonblock := operation &&& LOCK_NB ≠ 0
  let op := operation &&& ~~~LOCK_NB
  if op = LOCK_UN then
    if s.flockHeld f = none then (.ret 0, s) else (.ret 0, s.unheld f)
  else if op = LockKind.sh.code then (s.convert f op).take f nonblock .sh
  else if op = LockKind.ex.code then (s.convert f op).take f nonblock .ex
  else (.ret (-1), s.convert f op)

/-- The steps of the processes that have the inode open, each under one lock. -/
inductive FlockEvent where
  | fileopen (f : FileSlot)
  | fileflock (f : FileSlot) (operation : UInt32)
  | wake (f : FileSlot) (k : LockKind)
  | fileclose (f : FileSlot)
  | release (k : LockKind)
  | recycle

def FlockState.fire (s : FlockState) : FlockEvent → Option (FlockState)
  | .fileopen f =>
    if s.fds f then none
    else some { s with
      fds := update s.fds f true
      flockHeld := update s.flockHeld f none }
  | .fileflock f operation =>
    if s.fds f then
      match s.fileflock f operation with
      | (.ret _, s') => some s'
      | (.sleep k, s') => some { s' with asleep := (f, k) :: s'.asleep }
    else none
  | .wake f k =>
    if (f, k) ∈ s.asleep then
      match s.take f false k with
      | (.ret _, s') => some { s' with asleep := s'.asleep.erase (f, k) }
      | (.sleep _, s') => some s'
    else none
  | .fileclose f =>
    if s.fds f ∧ ∀ w ∈ s.asleep, w.1 ≠ f then
      some { s with
        fds := update s.fds f false
        flockHeld := update s.flockHeld f none
        closing := (s.flockHeld f).toList ++ s.closing }
    else none
  | .release k =>
    if k ∈ s.closing then some { s.drop with closing := s.closing.erase k } else none
  | .recycle =>
    if (∀ f, s.fds f = false) ∧ s.closing = [] then
      some { s with flockType := none, flockCount := 0 }
    else none

def FlockState.Retakes (s : FlockState) : FlockEvent → Prop
  | .fileflock f operation =>
    s.flockHeld f = some .sh ∧ operation &&& ~~~LOCK_NB = LockKind.sh.code
  | .wake f k => s.flockHeld f = some .sh ∧ k = .sh
  | _ => False

/-- The open files that hold a lock, with those that are about to give it back. -/
def FlockState.holders (s : FlockState) (k : LockKind) : Nat :=
  (Finset.univ.filter fun f => s.fds f ∧ s.flockHeld f = some k).card + s.closing.count k

structure FlockState.Exact (s : FlockState) : Prop where
  exclusive : s.flockType = some .ex ↔ s.holders .ex = 1 ∧ s.holders .sh = 0
  shared : s.flockType = some .sh ↔ 0 < s.holders .sh ∧ s.holders .ex = 0
  count : s.flockType = some .sh → s.flockCount = s.holders .sh
  free : s.flockType = none → s.flockCount = 0

/-- The type and the counter of a lock fit to the number of holders of each kind. -/
def Balanced (n : LockKind → Nat) (c : Int) : Option LockKind → Prop
  | none => n .sh = 0 ∧ n .ex = 0 ∧ c = 0
  | some .sh => n .ex = 0 ∧ 0 < n .sh ∧ c = n .sh
  | some .ex => n .ex = 1 ∧ n .sh = 0

structure FlockState.Inv (s : FlockState) : Prop where
  balanced : Balanced s.holders s.flockCount s.flockType
  awake : ∀ w ∈ s.asleep, s.fds w.1 = true

theorem FlockState.init_inv : init.Inv := by
  have hnone (k : LockKind) : init.holders k = 0 := by
    simp [holders, init]
  exact ⟨⟨hnone _, hnone _, rfl⟩, fun w hw => absurd hw List.not_mem_nil⟩

theorem FlockState.Inv.exact {s : FlockState} (h : s.Inv) : s.Exact := by
  have hb := h.balanced
  cases ht : s.flockType with
  | none =>
    rw [ht] at hb
    obtain ⟨h1, h2, h3⟩ := hb
    refine ⟨?_, ?_, fun e => ?_, fun _ => h3⟩ <;> rw [ht] at * <;> simp [h1, h2] at *
  | some k =>
    cases k with
    | sh =>
      rw [ht] at hb
      obtain ⟨h1, h2, h3⟩ := hb
      refine ⟨?_, ?_, fun _ => h3, fun e => ?_⟩ <;> rw [ht] at * <;> simp [h1, h2] at *
    | ex =>
      rw [ht] at hb
      obtain ⟨h1, h2⟩ := hb
      refine ⟨?_, ?_, fun e => ?_, fun e => ?_⟩ <;> rw [ht] at * <;> simp [h1, h2] at *

theorem Balanced.type_eq (h : Balanced n c t) (hk : 0 < n k) : t = some k := by
  cases t with
  | none =>
    obtain ⟨h1, h2, -⟩ := h
    cases k <;> omega
  | some t =>
    cases t with
    | sh =>
      obtain ⟨h1, -, -⟩ := h
      cases k with
      | sh => rfl
      | ex => omega
    | ex =>
      obtain ⟨-, h2⟩ := h
      cases k with
      | sh => omega
      | ex => rfl

theorem FlockState.balanced_drop {s : FlockState} {n n' : LockKind → Nat}
    (h : Balanced n s.flockCount s.flockType) (hk : n' k + 1 = n k)
    (hother : ∀ k', k' ≠ k → n' k' = n k') : Balanced n' s.drop.flockCount s.drop.flockType := by
  have ht := h.type_eq (k := k) (by omega)
  rw [ht] at h
  cases k with
  | sh =>
    obtain ⟨h1, h2, h3⟩ := h
    have hex := hother .ex (by decide)
    unfold drop
    rw [ht]
    simp only
    split
    · exact ⟨by omega, by omega, by assumption⟩
    · exact ⟨by omega, by omega, by simp only; omega⟩
  | ex =>
    obtain ⟨h1, h2⟩ := h
    have hsh := hother .sh (by decide)
    unfold drop
    rw [ht]
    exact ⟨by omega, by omega, rfl⟩

variable {s s' : FlockState} {f : FileSlot} {k : LockKind} {v : Option LockKind}

theorem FlockState.drop_same (s : FlockState) : s.drop.fds = s.fds ∧
    s.drop.flockHeld = s.flockHeld ∧ s.drop.asleep = s.asleep ∧ s.drop.closing = s.closing := by
  unfold drop
  split
  · split <;> exact ⟨rfl, rfl, rfl, rfl⟩
  · exact ⟨rfl, rfl, rfl, rfl⟩
  · exact ⟨rfl, rfl, rfl, rfl⟩

theorem card_filter_change {p q : FileSlot → Prop} [DecidablePred p] [DecidablePred q]
    (h : ∀ g, g ≠ f → (q g ↔ p g)) :
    (Finset.univ.filter q).card + (if p f then 1 else 0) =
      (Finset.univ.filter p).card + (if q f then 1 else 0) := by
  have hrest : ∑ g ∈ Finset.univ.erase f, (if q g then 1 else 0) =
      ∑ g ∈ Finset.univ.erase f, (if p g then 1 else 0) := by
    apply Finset.sum_congr rfl
    intro g hg
    simp only [h g (Finset.ne_of_mem_erase hg)]
  rw [Finset.card_filter, Finset.card_filter, ← Finset.add_sum_erase _ _ (Finset.mem_univ f), hrest,
    ← Finset.add_sum_erase _ (fun g => if p g then 1 else 0) (Finset.mem_univ f)]
  omega

theorem FlockState.card_update (s : FlockState) (f : FileSlot) (b : Bool) (v : Option LockKind)
    (k : LockKind) :
    (Finset.univ.filter fun g => update s.fds f b g ∧ update s.flockHeld f v g = some k).card +
        (if s.fds f ∧ s.flockHeld f = some k then 1 else 0) =
      (Finset.univ.filter fun g => s.fds g ∧ s.flockHeld g = some k).card +
        (if b ∧ v = some k then 1 else 0) := by
  have hcard := card_filter_change (f := f) (p := fun g => s.fds g ∧ s.flockHeld g = some k)
    (q := fun g => update s.fds f b g ∧ update s.flockHeld f v g = some k) fun g hg => by
      rw [update_of_ne hg, update_of_ne hg]
  simpa only [update_self] using hcard

theorem FlockState.holders_update (s' : FlockState) (hf : s.fds f = true) (hfds : s'.fds = s.fds)
    (hclosing : s'.closing = s.closing)
    (hheld : s'.flockHeld = update s.flockHeld f v) (k : LockKind) :
    s'.holders k + (if s.flockHeld f = some k then 1 else 0) =
      s.holders k + (if v = some k then 1 else 0) := by
  have hcard := s.card_update f true v k
  rw [← hf, update_eq_self] at hcard
  simp only [hf, true_and] at hcard
  rw [holders, holders, hfds, hclosing, hheld]
  omega

theorem FlockState.holders_pos (hf : s.fds f = true) (hk : s.flockHeld f = some k) :
    0 < s.holders k := by
  have hmem : f ∈ Finset.univ.filter fun g => s.fds g ∧ s.flockHeld g = some k := by
    rw [Finset.mem_filter]
    exact ⟨Finset.mem_univ f, hf, hk⟩
  exact Nat.add_pos_left (Finset.card_pos.2 ⟨f, hmem⟩) _

theorem FlockState.Inv.awake_drop (h : s.Inv) : ∀ w ∈ s.drop.asleep, s.drop.fds w.1 = true := by
  obtain ⟨hfds, -, hasleep, -⟩ := s.drop_same
  rw [hfds, hasleep]
  exact h.awake

theorem FlockState.Inv.unheld (h : s.Inv) (hf : s.fds f = true) (hk : s.flockHeld f = some k) :
    (s.unheld f).Inv := by
  obtain ⟨hfds, -, -, hclosing⟩ := s.drop_same
  have hcount (k' : LockKind) := holders_update (s.unheld f) hf hfds hclosing rfl k'
  refine ⟨s.balanced_drop (k := k) h.balanced ?_ fun k' hne => ?_, fun w hw => ?_⟩
  · have := hcount k
    rw [hk, if_pos rfl, if_neg (by simp)] at this
    exact this
  · have := hcount k'
    rw [hk, if_neg fun e => hne (Option.some.inj e).symm, if_neg (by simp)] at this
    exact this
  · exact h.awake_drop w hw

theorem FlockState.unheld_fds (s : FlockState) (f : FileSlot) : (s.unheld f).fds = s.fds :=
  s.drop_same.1

theorem FlockState.unheld_held (s : FlockState) (f : FileSlot) : (s.unheld f).flockHeld f = none :=
  update_self ..

theorem FlockState.Inv.convert (h : s.Inv) (hf : s.fds f = true) (op : UInt32) :
    (s.convert f op).Inv ∧ (s.convert f op).fds = s.fds := by
  unfold FlockState.convert
  split
  · next k hk =>
    split
    · exact ⟨h.unheld hf hk, s.unheld_fds f⟩
    · exact ⟨h, rfl⟩
  · exact ⟨h, rfl⟩

theorem FlockState.convert_held (s : FlockState) (f : FileSlot) (op : UInt32)
    (hk : (s.convert f op).flockHeld f = some k) : s.flockHeld f = some k ∧ k.code = op := by
  unfold convert at hk
  split at hk
  · next k' hk' =>
    split at hk
    · rw [s.unheld_held f] at hk
      cases hk
    · next hcode =>
      rw [hk'] at hk ⊢
      cases hk
      exact ⟨rfl, not_not.1 hcode⟩
  · next hk' =>
    rw [hk'] at hk
    cases hk

theorem FlockState.take_shared (ht : s.flockType ≠ some .ex) (nonblock : Bool) :
    s.take f nonblock .sh = (.ret 0, { s with
      flockType := some .sh
      flockCount := s.flockCount + 1
      flockHeld := update s.flockHeld f (some .sh) }) := if_neg ht

theorem FlockState.take_exclusive (ht : s.flockType = none) (nonblock : Bool) :
    s.take f nonblock .ex = (.ret 0, { s with
      flockType := some .ex
      flockCount := 1
      flockHeld := update s.flockHeld f (some .ex) }) := if_neg (not_not.2 ht)

theorem FlockState.take_busy (hsh : k = .sh → s.flockType = some .ex)
    (hex : k = .ex → s.flockType ≠ none) (nonblock : Bool) : (s.take f nonblock k).2 = s := by
  cases k with
  | sh =>
    simp only [take, if_pos (hsh rfl)]
    split <;> rfl
  | ex =>
    simp only [take, if_pos (hex rfl)]
    split <;> rfl

theorem Balanced.shared (h : Balanced n c t) (ht : t ≠ some .ex)
    (hk : n' .sh = n .sh + 1) (hother : n' .ex = n .ex) : Balanced n' (c + 1) (some .sh) := by
  cases t with
  | none =>
    obtain ⟨h1, h2, h3⟩ := h
    exact ⟨by omega, by omega, by omega⟩
  | some t =>
    cases t with
    | sh =>
      obtain ⟨h1, h2, h3⟩ := h
      exact ⟨by omega, by omega, by omega⟩
    | ex => exact (ht rfl).elim

theorem FlockState.holders_take (s' : FlockState) (hf : s.fds f = true)
    (hnone : s.flockHeld f = none) (hfds : s'.fds = s.fds) (hclosing : s'.closing = s.closing)
    (hheld : s'.flockHeld = update s.flockHeld f (some k)) :
    s'.holders k = s.holders k + 1 ∧ ∀ k', k' ≠ k → s'.holders k' = s.holders k' := by
  have hcount (k' : LockKind) := holders_update s' hf hfds hclosing hheld k'
  simp only [hnone, reduceCtorEq, ↓reduceIte, Nat.add_zero, Option.some.injEq] at hcount
  refine ⟨?_, fun k' hne => ?_⟩
  · rw [hcount, if_pos rfl]
  · rw [hcount, if_neg fun e => hne e.symm, Nat.add_zero]

theorem FlockState.Inv.take (h : s.Inv) (hf : s.fds f = true) (nonblock : Bool)
    (hnew : k = .sh → s.flockHeld f ≠ some .sh) : (s.take f nonblock k).2.Inv ∧
      (s.take f nonblock k).2.fds = s.fds := by
  have hb := h.balanced
  have hfree (hk : ∀ k', s.flockHeld f = some k' → s.flockType ≠ some k') :
      s.flockHeld f = none := by
    cases hh : s.flockHeld f with
    | none => rfl
    | some k' => exact (hk k' hh (hb.type_eq (holders_pos hf hh))).elim
  cases k with
  | sh =>
    by_cases ht : s.flockType = some .ex
    · rw [take_busy (fun _ => ht) (fun e => by cases e)]
      exact ⟨h, rfl⟩
    · have hnone : s.flockHeld f = none := by
        apply hfree
        intro k' hk'
        cases k' with
        | sh => exact (hnew rfl hk').elim
        | ex => exact ht
      rw [take_shared ht]
      obtain ⟨hsh, hex⟩ := holders_take (k := .sh) { s with
        flockType := some .sh
        flockCount := s.flockCount + 1
        flockHeld := update s.flockHeld f (some .sh) } hf hnone rfl rfl rfl
      exact ⟨⟨hb.shared ht hsh (hex .ex (by decide)), h.awake⟩, rfl⟩
  | ex =>
    by_cases ht : s.flockType = none
    · have hnone : s.flockHeld f = none := by
        apply hfree
        intro k' _ e
        rw [ht] at e
        cases e
      rw [take_exclusive ht]
      rw [ht] at hb
      obtain ⟨h1, h2, -⟩ := hb
      obtain ⟨hex, hsh⟩ := holders_take (k := .ex) { s with
        flockType := some .ex
        flockCount := 1
        flockHeld := update s.flockHeld f (some .ex) } hf hnone rfl rfl rfl
      refine ⟨⟨⟨hex.trans (by rw [h2]), (hsh .sh (by decide)).trans h1⟩, h.awake⟩, rfl⟩
    · rw [take_busy (fun e => by cases e) (fun _ => ht)]
      exact ⟨h, rfl⟩

theorem FlockState.Exact.asleep
    (h : FlockState.Exact { s with asleep := l }) : s.Exact :=
  ⟨h.exclusive, h.shared, h.count, h.free⟩

/-- The lock is exact, and if no file holds one, an exclusive lock can be had at once. -/
def FlockState.Sound (s : FlockState) : Prop :=
  s.Exact ∧ (s.holders .sh = 0 → s.holders .ex = 0 → ∀ f, s.fds f = true →
    (s.fileflock f (LockKind.ex.code ||| LOCK_NB)).1 = .ret 0)

section
variable (h : s.Inv)
include h

theorem FlockState.Inv.fileflock (hf : s.fds f = true) (operation : UInt32)
    (hnew : ¬ s.Retakes (.fileflock f operation)) : (s.fileflock f operation).2.Inv ∧
      (s.fileflock f operation).2.fds = s.fds := by
  unfold FlockState.fileflock
  obtain ⟨hc, hfds⟩ := h.convert hf (operation &&& ~~~LOCK_NB)
  have hf' : (s.convert f (operation &&& ~~~LOCK_NB)).fds f = true := by rw [hfds, hf]
  simp only
  split
  · split
    · exact ⟨h, rfl⟩
    · next hheld =>
      obtain ⟨k, hk⟩ := Option.ne_none_iff_exists'.1 hheld
      exact ⟨h.unheld hf hk, s.unheld_fds f⟩
  · split
    · next hop =>
      rw [← hfds]
      apply hc.take hf'
      intro _ hk
      exact hnew ⟨(s.convert_held f _ hk).1, hop⟩
    · split
      · rw [← hfds]
        exact hc.take hf' _ fun e => by cases e
      · exact ⟨hc, hfds⟩

theorem FlockState.Inv.asleep (l : List (FileSlot × LockKind))
    (hl : ∀ w ∈ l, s.fds w.1 = true) : FlockState.Inv { s with asleep := l } :=
  ⟨h.balanced, hl⟩

theorem FlockState.Inv.fileclose (hf : s.fds f = true)
    (hawake : ∀ w ∈ s.asleep, w.1 ≠ f) : FlockState.Inv { s with
      fds := update s.fds f false
      flockHeld := update s.flockHeld f none
      closing := (s.flockHeld f).toList ++ s.closing } := by
  refine ⟨?_, fun w hw => ?_⟩
  · have hn : FlockState.holders { s with
        fds := update s.fds f false
        flockHeld := update s.flockHeld f none
        closing := (s.flockHeld f).toList ++ s.closing } = s.holders := by
      funext k
      have hcard := s.card_update f false none k
      have hlist : (s.flockHeld f).toList.count k = if s.flockHeld f = some k then 1 else 0 := by
        cases s.flockHeld f with
        | none => rfl
        | some k' => simp [List.count_singleton]
      simp only [hf, true_and, Bool.false_eq_true, false_and, ↓reduceIte] at hcard
      simp only [holders, List.count_append, hlist]
      omega
    rw [hn]
    exact h.balanced
  · exact (update_of_ne (hawake w hw) ..).trans (h.awake w hw)

theorem FlockState.Inv.release (hk : k ∈ s.closing) :
    FlockState.Inv { s.drop with closing := s.closing.erase k } := by
  obtain ⟨hfds, hheld, -, -⟩ := s.drop_same
  have hn (k' : LockKind) : FlockState.holders { s.drop with closing := s.closing.erase k } k' =
      (Finset.univ.filter fun f => s.fds f ∧ s.flockHeld f = some k').card +
        (s.closing.erase k).count k' := by
    rw [holders, hfds, hheld]
  have hpos : 0 < s.closing.count k := List.count_pos_iff.2 hk
  refine ⟨s.balanced_drop (k := k) h.balanced ?_ fun k' hne => ?_, fun w hw => ?_⟩
  · rw [hn, holders, List.count_erase_self]
    omega
  · rw [hn, holders, List.count_erase_of_ne hne]
  · exact h.awake_drop w hw

theorem FlockState.Inv.fileopen (hf : s.fds f = false) : FlockState.Inv { s with
    fds := update s.fds f true
    flockHeld := update s.flockHeld f none } := by
  refine ⟨?_, fun w hw => ?_⟩
  · have hn : FlockState.holders { s with
        fds := update s.fds f true
        flockHeld := update s.flockHeld f none } = s.holders := by
      funext k
      have hcard := s.card_update f true none k
      simp only [hf, Bool.false_eq_true, false_and, reduceCtorEq, and_false,
        ↓reduceIte, Nat.add_zero] at hcard
      rw [holders, holders, hcard]
    rw [hn]
    exact h.balanced
  · have hne : w.1 ≠ f := fun e => by
      have := h.awake w hw
      rw [e, hf] at this
      cases this
    exact (update_of_ne hne ..).trans (h.awake w hw)

theorem FlockState.Inv.fire (hnew : ¬ s.Retakes e) (hs : s.fire e = some s') : s'.Inv := by
  cases e with
  | fileopen f =>
    simp only [FlockState.fire] at hs
    split at hs
    · cases hs
    · next hf =>
      cases hs
      exact h.fileopen (Bool.eq_false_of_not_eq_true hf)
  | fileflock f operation =>
    simp only [FlockState.fire] at hs
    split at hs
    · next hf =>
      obtain ⟨h', hfds⟩ := h.fileflock hf operation hnew
      split at hs
      · next hr =>
        cases hs
        rw [hr] at h'
        exact h'
      · next k s₁ hr =>
        cases hs
        rw [hr] at h' hfds
        apply h'.asleep
        intro w hw
        rcases List.mem_cons.1 hw with rfl | hw
        · exact (congrFun hfds f).trans hf
        · exact h'.awake w hw
    · cases hs
  | wake f k =>
    simp only [FlockState.fire] at hs
    split at hs
    · next hw =>
      obtain ⟨h', hfds⟩ := h.take (h.awake _ hw) false fun e hk => hnew ⟨hk, e⟩
      split at hs
      · next hr =>
        cases hs
        rw [hr] at h'
        exact h'.asleep _ fun w hw => h'.awake w (List.mem_of_mem_erase hw)
      · next hr =>
        cases hs
        rw [hr] at h'
        exact h'
    · cases hs
  | fileclose f =>
    obtain ⟨hf, rfl⟩ := of_guarded hs
    exact h.fileclose hf.1 hf.2
  | release k =>
    obtain ⟨hk, rfl⟩ := of_guarded hs
    exact h.release hk
  | recycle =>
    obtain ⟨hidle, rfl⟩ := of_guarded hs
    have hn (k : LockKind) : s.holders k = 0 := by
      rw [holders, hidle.2]
      simp [hidle.1]
    exact ⟨⟨hn _, hn _, rfl⟩, h.awake⟩

theorem FlockState.Inv.take_again (hf : s.fds f = true) (hk : s.flockHeld f = some .sh)
    (nonblock : Bool) : ∃ s', s.take f nonblock .sh = (.ret 0, s') ∧ ¬ s'.Exact := by
  have hb := h.balanced
  have ht := hb.type_eq (holders_pos hf hk)
  rw [ht] at hb
  refine ⟨_, take_shared (by rw [ht]; decide) nonblock, fun hexact => ?_⟩
  have hcount := hexact.count rfl
  have hsame : update s.flockHeld f (some .sh) = s.flockHeld := by
    rw [← hk, update_eq_self]
  rw [hsame] at hcount
  have hn : s.flockCount + 1 = s.holders .sh := hcount
  have := hb.2.2
  omega

theorem FlockState.Inv.retaken (hold : s.Retakes e) (hs : s.fire e = some s') : ¬ s'.Exact := by
  cases e with
  | fileflock f operation =>
    obtain ⟨hk, hop⟩ := hold
    simp only [FlockState.fire] at hs
    split at hs
    · next hf =>
      obtain ⟨s₁, htake, hnot⟩ := h.take_again hf hk (operation &&& LOCK_NB ≠ 0)
      have hcall : s.fileflock f operation = (.ret 0, s₁) := by
        rw [← htake, FlockState.fileflock, hop]
        simp [FlockState.convert, hk, LockKind.code, LOCK_UN]
      rw [hcall] at hs
      cases hs
      exact hnot
    · cases hs
  | wake f k =>
    obtain ⟨hk, rfl⟩ := hold
    simp only [FlockState.fire] at hs
    split at hs
    · next hw =>
      obtain ⟨s₁, htake, hnot⟩ := h.take_again (h.awake _ hw) hk false
      rw [htake] at hs
      cases hs
      exact fun hexact => hnot hexact.asleep
    · cases hs
  | fileopen f => exact hold.elim
  | fileclose f => exact hold.elim
  | release k => exact hold.elim
  | recycle => exact hold.elim

theorem FlockState.Inv.sound : s.Sound := by
  refine ⟨h.exact, fun hsh hex f hf => ?_⟩
  have hb := h.balanced
  have ht : s.flockType = none := by
    cases ht : s.flockType with
    | none => rfl
    | some k =>
      rw [ht] at hb
      cases k with
      | sh => exact absurd hsh (Nat.ne_of_gt hb.2.1)
      | ex =>
        have := hb.1
        omega
  have hnone : s.flockHeld f = none := by
    cases hk : s.flockHeld f with
    | none => rfl
    | some k =>
      have hpos := holders_pos hf hk
      cases k <;> omega
  have hop : (LockKind.ex.code ||| LOCK_NB) &&& ~~~LOCK_NB = LockKind.ex.code := by decide
  have hsame : s.convert f LockKind.ex.code = s := by rw [FlockState.convert, hnone]
  have hun : LockKind.ex.code ≠ LOCK_UN := by decide
  have hshared : LockKind.ex.code ≠ LockKind.sh.code := by decide
  simp only [FlockState.fileflock, hop, hsame, if_neg hun, if_neg hshared, take_exclusive ht,
    ↓reduceIte]

end

/-- The lock of an inode is exact throughout a run exactly if no holder of a shared lock takes
another. -/
theorem flock_exact_iff (es : List FlockEvent) :
    Always FlockState.fire FlockState.Sound .init es ↔
      Along FlockState.fire (fun s e => ¬ s.Retakes e) .init es :=
  always_iff_along (I := FlockState.Inv) (fun _ h => h.sound)
    (fun _ _ _ h hnew hs => h.fire hnew hs)
    (fun _ _ _ h hold hs hsound => h.retaken (not_not.1 hold) hs hsound.1) FlockState.init_inv

/-- A file takes a shared lock twice and unlocks; no file has a lock, and none gets an exclusive
one. -/
theorem flock_taken_twice : ∃ es s, runEvents FlockState.fire .init es = some s ∧
    s.holders .sh = 0 ∧ s.holders .ex = 0 ∧ s.asleep = [] ∧ s.closing = [] ∧ s.fds 1 = true ∧
    s.flockType = some .sh ∧ s.flockCount = 1 ∧
    (s.fileflock 1 (LockKind.ex.code ||| LOCK_NB)).1 = .ret (-1) := by
  exact ⟨[.fileopen 0, .fileopen 1, .fileflock 0 LockKind.sh.code, .fileflock 0 LockKind.sh.code,
    .fileflock 0 LOCK_UN], exists_of_any (by decide +kernel)⟩

/-- What a failed call should leave alone: the locks of the file and inode, and what others can get.
-/
structure FlockState.LockKept (s s' : FlockState) (f : FileSlot) : Prop where
  held : s'.flockHeld f = s.flockHeld f
  type : s'.flockType = s.flockType
  count : s'.flockCount = s.flockCount
  others : ∀ g, g ≠ f → s'.flockHeld g = s.flockHeld g
  excluded : ∀ g, g ≠ f → ∀ operation, (s.fileflock g operation).1 ≠ .ret 0 →
    (s'.fileflock g operation).1 ≠ .ret 0

theorem FlockState.take_failed (h : (s.take f nonblock k).1 = .ret (-1)) :
    (s.take f nonblock k).2 = s := by
  apply take_busy
  · rintro rfl
    by_contra ht
    rw [take_shared ht] at h
    cases h
  · rintro rfl ht
    rw [take_exclusive ht] at h
    cases h

theorem FlockState.fileflock_failed (h : (s.fileflock f operation).1 = .ret (-1)) :
    (s.fileflock f operation).2 = s.convert f (operation &&& ~~~LOCK_NB) := by
  simp only [FlockState.fileflock] at h ⊢
  split at h
  · split at h <;> cases h
  · next hun =>
    rw [if_neg hun]
    split at h
    · next hsh =>
      rw [if_pos hsh]
      exact take_failed h
    · next hsh =>
      rw [if_neg hsh]
      split at h
      · next hex =>
        rw [if_pos hex]
        exact take_failed h
      · next hex => rw [if_neg hex]

/-- A failed call keeps the locks exactly if the file holds none, or one of the kind it asks for. -/
theorem fileflock_failed_kept_iff (h : (s.fileflock f operation).1 = .ret (-1)) :
    s.LockKept (s.fileflock f operation).2 f ↔
      ∀ k, s.flockHeld f = some k → k.code = operation &&& ~~~LOCK_NB := by
  rw [FlockState.fileflock_failed h]
  constructor
  · intro hkept k hk
    exact (s.convert_held f _ (hkept.held.trans hk)).2
  · intro hsame
    have hs : s.convert f (operation &&& ~~~LOCK_NB) = s := by
      unfold FlockState.convert
      split
      · next k hk => exact if_neg (not_not.2 (hsame k hk))
      · rfl
    rw [hs]
    exact ⟨rfl, rfl, rfl, fun _ _ => rfl, fun _ _ _ h => h⟩

/-- A file that holds an exclusive lock asks for one again without blocking. -/
theorem fileflock_again_kept :
    ∃ s, runEvents FlockState.fire .init [.fileopen 0, .fileflock 0 LockKind.ex.code] = some s ∧
      s.flockHeld 0 = some .ex ∧ (s.fileflock 0 (LockKind.ex.code ||| LOCK_NB)).1 = .ret (-1) ∧
      s.LockKept (s.fileflock 0 (LockKind.ex.code ||| LOCK_NB)).2 0 := by
  obtain ⟨s, hs, hheld, hfail⟩ : ∃ s, runEvents FlockState.fire .init
      [.fileopen 0, .fileflock 0 LockKind.ex.code] = some s ∧ s.flockHeld 0 = some .ex ∧
        (s.fileflock 0 (LockKind.ex.code ||| LOCK_NB)).1 = .ret (-1) :=
    exists_of_any (by decide +kernel)
  refine ⟨s, hs, hheld, hfail, (fileflock_failed_kept_iff hfail).2 fun k hk => ?_⟩
  cases hheld.symm.trans hk
  decide

/-- A holder of a shared lock fails to get an exclusive one and loses its own; the other gets it. -/
theorem fileflock_failed_dropped : ∃ es s s' s'', runEvents FlockState.fire .init es = some s ∧
    s.flockHeld 0 = some .sh ∧ s.flockCount = 2 ∧
    s.fileflock 0 (LockKind.ex.code ||| LOCK_NB) = (.ret (-1), s') ∧
    s'.flockHeld 0 = none ∧ s'.flockCount = 1 ∧
    (s.fileflock 1 (LockKind.ex.code ||| LOCK_NB)).1 = .ret (-1) ∧
    s'.fileflock 1 (LockKind.ex.code ||| LOCK_NB) = (.ret 0, s'') ∧ s''.flockHeld 1 = some .ex := by
  obtain ⟨s, hs, h1, h2, h3, h4, h5, h6, h7, h8⟩ :
    ∃ s, runEvents FlockState.fire .init [.fileopen 0, .fileopen 1,
      .fileflock 0 LockKind.sh.code, .fileflock 1 LockKind.sh.code] = some s ∧
      let r := s.fileflock 0 (LockKind.ex.code ||| LOCK_NB)
      let r' := r.2.fileflock 1 (LockKind.ex.code ||| LOCK_NB)
      s.flockHeld 0 = some .sh ∧ s.flockCount = 2 ∧ r.1 = .ret (-1) ∧ r.2.flockHeld 0 = none ∧
      r.2.flockCount = 1 ∧ (s.fileflock 1 (LockKind.ex.code ||| LOCK_NB)).1 = .ret (-1) ∧
      r'.1 = .ret 0 ∧ r'.2.flockHeld 1 = some .ex := exists_of_any (by decide +kernel)
  exact ⟨_, s, _, _, hs, h1, h2, Prod.ext h3 rfl, h4, h5, h6, Prod.ext h7 rfl, h8⟩

end OopsOS
