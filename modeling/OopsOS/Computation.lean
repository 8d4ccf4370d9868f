import Mathlib.Data.Nat.Basic

namespace OopsOS
set_option autoImplicit true

abbrev Comp (σ ε α : Type) := StateT σ (Except ε) α

variable {σ ε α β : Type} {E : ε → Prop} {m : Comp σ ε α} {s s' : σ} {Q R : α → σ → Prop}
  {I : σ → Prop}

/-- Every run ends in the postcondition or stops for an allowed reason. -/
def wp (E : ε → Prop) (m : Comp σ ε α) (s : σ) (Q : α → σ → Prop) : Prop :=
  match m s with
  | .ok (a, s') => Q a s'
  | .error e => E e

theorem wp_pure (a : α) : wp E (pure a : Comp σ ε α) s Q ↔ Q a s := Iff.rfl

theorem wp_bind {Q : β → σ → Prop} (m : Comp σ ε α) (f : α → Comp σ ε β) :
    wp E (m >>= f) s Q ↔ wp E m s (fun a s' => wp E (f a) s' Q) := by
  change (match Except.bind (m s) (fun p => f p.1 p.2) with
    | .ok (a, s') => Q a s' | .error e => E e) ↔ _
  unfold wp
  cases m s with
  | error e => rfl
  | ok p => rfl

theorem wp_get {Q : σ → σ → Prop} : wp E (get : Comp σ ε σ) s Q ↔ Q s s := Iff.rfl

theorem wp_set {Q : PUnit → σ → Prop} (s' : σ) : wp E (set s' : Comp σ ε PUnit) s Q ↔ Q ⟨⟩ s' :=
  Iff.rfl

theorem wp_modify {Q : PUnit → σ → Prop} (f : σ → σ) : wp E (modify f : Comp σ ε PUnit) s Q ↔
    Q ⟨⟩ (f s) := Iff.rfl

theorem wp_ite [Decidable c] (m m' : Comp σ ε α) :
    wp E (if c then m else m') s Q ↔ if c then wp E m s Q else wp E m' s Q := by
  split <;> rfl

theorem wp_iff : wp E m s Q ↔ (∀ a s', m s = .ok (a, s') → Q a s') ∧ ∀ e, m s = .error e → E e := by
  unfold wp
  cases m s with
  | error e => simp
  | ok p =>
    obtain ⟨a, s'⟩ := p
    simp

section
variable (h : wp E m s Q)
include h

theorem wp.of_ok (hm : m s = .ok (a, s')) : Q a s' := (wp_iff.1 h).1 a s' hm

theorem wp.of_error (hm : m s = .error e) : E e := (wp_iff.1 h).2 e hm

theorem wp.run : wp E m s (fun a s' => m s = .ok (a, s') ∧ Q a s') :=
  wp_iff.2 ⟨fun _ _ hm => ⟨hm, h.of_ok hm⟩, fun _ hm => h.of_error hm⟩

theorem wp.mono (hQ : ∀ a s', Q a s' → R a s') : wp E m s R :=
  wp_iff.2 ⟨fun a s' hm => hQ a s' (h.of_ok hm), fun _ hm => h.of_error hm⟩

theorem wp.inter {E' : ε → Prop} (h' : wp E' m s R) :
    wp (fun e => E e ∧ E' e) m s (fun a s' => Q a s' ∧ R a s') :=
  wp_iff.2 ⟨fun _ _ hm => ⟨h.of_ok hm, h'.of_ok hm⟩, fun _ hm => ⟨h.of_error hm, h'.of_error hm⟩⟩

theorem wp.weaken {E' : ε → Prop} (hE : ∀ e, E e → E' e) : wp E' m s Q :=
  wp_iff.2 ⟨fun _ _ hm => h.of_ok hm, fun e hm => hE e (h.of_error hm)⟩

theorem wp.and (h' : wp E m s R) : wp E m s (fun a s' => Q a s' ∧ R a s') :=
  (h.inter h').weaken fun _ he => he.1

theorem wp.bind {R : β → σ → Prop} (hf : ∀ a s', Q a s' → wp E (f a) s' R) : wp E (m >>= f) s R :=
  (wp_bind m f).2 (h.mono hf)

end

theorem wp.returns (h : wp (fun _ => False) m s Q) : ∃ a s', m s = .ok (a, s') := by
  cases hm : m s with
  | error e => exact (h.of_error hm).elim
  | ok p => exact ⟨p.1, p.2, rfl⟩

theorem wp.exists_both (h : wp (fun _ => False) m s Q) (h' : wp (fun _ => False) m s R) :
    ∃ a s', Q a s' ∧ R a s' := by
  obtain ⟨a, s', hm⟩ := h.returns
  exact ⟨a, s', h.of_ok hm, h'.of_ok hm⟩

def lands (m : Comp σ ε α) (s : σ) (P : α → σ → Bool) : Bool :=
  match m s with
  | .ok (a, s') => P a s'
  | .error _ => false

theorem exists_of_lands (h : lands m s P = true) :
    ∃ a s', m s = .ok (a, s') ∧ P a s' = true := by
  unfold lands at h
  split at h
  · next a s' hm => exact ⟨a, s', hm, h⟩
  · cases h

def yields (m : Comp σ ε α) (s : σ) (P : α → Bool) : Bool :=
  match m s with
  | .ok (a, _) => P a
  | .error _ => false

theorem exists_of_yields (h : yields m s P = true) :
    ∃ a s', m s = .ok (a, s') ∧ P a = true :=
  exists_of_lands (P := fun a _ => P a) h

theorem returns_of_lands [DecidableEq α] {a : α} {P : σ → Prop} [DecidablePred P]
    (h : lands m s (fun r s' => decide (r = a ∧ P s')) = true) :
    ∃ s', m s = .ok (a, s') ∧ P s' := by
  obtain ⟨r, s', hrun, hend⟩ := exists_of_lands h
  obtain ⟨hr, hP⟩ := of_decide_eq_true hend
  exact ⟨s', hr ▸ hrun, hP⟩

theorem returns_of_yields [DecidableEq α] {a : α}
    (h : yields m s (fun r => decide (r = a)) = true) : ∃ s', m s = .ok (a, s') := by
  obtain ⟨r, s', hrun, hr⟩ := exists_of_yields h
  exact ⟨s', of_decide_eq_true hr ▸ hrun⟩

def stops (m : Comp σ ε α) (s : σ) (P : ε → Bool) : Bool :=
  match m s with
  | .ok _ => false
  | .error e => P e

theorem exists_of_stops (h : stops m s P = true) :
    ∃ e, m s = .error e ∧ P e = true := by
  unfold stops at h
  split at h
  · cases h
  · next e hm => exact ⟨e, hm, h⟩

def Maintains (E : ε → Prop) (I : σ → Prop) (m : Comp σ ε α) : Prop :=
  ∀ s, I s → wp E m s (fun _ => I)

theorem Maintains.pure (a : α) : Maintains E I (Pure.pure a : Comp σ ε α) := fun _ h => h

theorem Maintains.get : Maintains E I (MonadState.get : Comp σ ε σ) := fun _ h => h

theorem Maintains.bind {f : α → Comp σ ε β} (h : Maintains E I m)
    (hf : ∀ a, Maintains E I (f a)) : Maintains E I (m >>= f) :=
  fun s hs => (h s hs).bind (fun a s' hs' => hf a s' hs')

theorem Maintains.ite' [Decidable c] {m' : Comp σ ε α} (h : c → Maintains E I m)
    (h' : ¬c → Maintains E I m') : Maintains E I (if c then m else m') := by
  split
  · next hc => exact h hc
  · next hc => exact h' hc

theorem Maintains.ite [Decidable c] {m' : Comp σ ε α} (h : Maintains E I m)
    (h' : Maintains E I m') : Maintains E I (if c then m else m') :=
  .ite' (fun _ => h) fun _ => h'

theorem Maintains.bindOption {m : Comp σ ε (Option α)} {f : Option α → Comp σ ε β}
    (h : Maintains E I m) (hnone : Maintains E I (f none))
    (hsome : ∀ a, Maintains E I (f (some a))) :
    Maintains E I (m >>= f) :=
  h.bind fun r => r.casesOn hnone hsome

def loop (lo : Nat) : Nat → β → (Nat → β → Comp σ ε β) → Comp σ ε β
  | 0, acc, _ => pure acc
  | n + 1, acc, body => do
    let acc' ← body lo acc
    loop (lo + 1) n acc' body

theorem wp_loop (I : Nat → β → σ → Prop) (h0 : I lo acc s)
    (hstep : ∀ i acc s, lo ≤ i → i < lo + n → I i acc s → wp E (body i acc) s (I (i + 1))) :
    wp E (loop lo n acc body) s (I (lo + n)) := by
  induction n generalizing lo acc s with
  | zero => exact h0
  | succ n ih =>
    have hb := hstep lo acc s (Nat.le_refl _) (by omega) h0
    apply hb.bind
    intro acc' s' h
    have hrest := ih h (fun i acc s hlo hi =>
      hstep i acc s (by omega) (by omega))
    rwa [Nat.add_right_comm, Nat.add_assoc] at hrest

theorem Maintains.loop {body : Nat → β → Comp σ ε β}
    (h : ∀ i acc, Maintains E I (body i acc)) : Maintains E I (OopsOS.loop lo n acc body) :=
  fun _ hs => wp_loop (fun _ _ => I) hs fun i acc s _ _ => h i acc s

end OopsOS
