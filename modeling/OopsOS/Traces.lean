import Mathlib.Logic.Relation

namespace OopsOS
set_option autoImplicit true

variable {σ ε : Type} {fire : σ → ε → Option σ} {P R : σ → ε → Prop} {I Q : σ → Prop} {s s' : σ}
  {e : ε} {es : List ε}

/-- Run a machine that is given by a partial step function. -/
def runEvents (fire : σ → ε → Option σ) (s : σ) : List ε → Option σ
  | [] => some s
  | e :: es =>
    match fire s e with
    | some s' => runEvents fire s' es
    | none => none

/-- `Q` holds in every state of a run. -/
def Always (fire : σ → ε → Option σ) (Q : σ → Prop) (s : σ) : List ε → Prop
  | [] => Q s
  | e :: es => Q s ∧ ∀ s', fire s e = some s' → Always fire Q s' es

/-- `P` holds at every step of a run. -/
def Along (fire : σ → ε → Option σ) (P : σ → ε → Prop) (s : σ) : List ε → Prop
  | [] => True
  | e :: es => ∀ s', fire s e = some s' → P s e ∧ Along fire P s' es

/-- The states reached by steps that satisfy `P`. -/
def Reaches (fire : σ → ε → Option σ) (P : σ → ε → Prop) : σ → σ → Prop :=
  Relation.ReflTransGen fun s s' => ∃ e, P s e ∧ fire s e = some s'

theorem of_guarded {c : Prop} [Decidable c] {a b : σ} (h : (if c then some a else none) = some b) :
    c ∧ a = b := by
  simpa using h

theorem Reaches.invariant (hstep : ∀ s e s', I s → P s e → fire s e = some s' → I s')
    (h : Reaches fire P s s') (hs : I s) : I s' := by
  induction h with
  | refl => exact hs
  | tail _ hlast ih =>
    obtain ⟨e, hP, hfire⟩ := hlast
    exact hstep _ e _ ih hP hfire

theorem Reaches.run (h : Along fire P s es) (hrun : runEvents fire s es = some s') :
    Reaches fire P s s' := by
  induction es generalizing s with
  | nil =>
    cases hrun
    exact .refl
  | cons e es ih =>
    simp only [runEvents] at hrun
    split at hrun
    · next s₁ hfire =>
      obtain ⟨hP, hrest⟩ := h s₁ hfire
      exact (ih hrest hrun).head ⟨e, hP, hfire⟩
    · cases hrun

theorem Along.of_mem (h : ∀ e ∈ es, ∀ s, P s e) (s : σ) : Along fire P s es := by
  induction es generalizing s with
  | nil => trivial
  | cons e es ih =>
    intro s' _
    exact ⟨h e List.mem_cons_self s, ih (fun a ha => h a (List.mem_cons_of_mem e ha)) s'⟩

theorem Along.of_forall (h : ∀ s e, P s e) (s : σ) (es : List ε) : Along fire P s es :=
  Along.of_mem (fun e _ s => h s e) s

instance Along.decidable [hP : ∀ s e, Decidable (P s e)] :
    (s : σ) → (es : List ε) → Decidable (Along fire P s es)
  | _, [] => isTrue trivial
  | s, e :: es =>
    match hf : fire s e with
    | none => isTrue fun _ hs' => nomatch hf.symm.trans hs'
    | some s₁ =>
      match hP s e, Along.decidable s₁ es with
      | isTrue h, isTrue h' => isTrue fun _ hs' => Option.some.inj (hf.symm.trans hs') ▸ ⟨h, h'⟩
      | isFalse h, _ => isFalse fun ha => h (ha s₁ hf).1
      | _, isFalse h => isFalse fun ha => h (ha s₁ hf).2

theorem Along.last (h : Along fire P s (es ++ [e])) (hrun : runEvents fire s es = some s')
    (hfire : (fire s' e).isSome = true) : P s' e := by
  induction es generalizing s with
  | nil =>
    cases hrun
    obtain ⟨s₁, hs₁⟩ := Option.isSome_iff_exists.1 hfire
    exact (h s₁ hs₁).1
  | cons a es ih =>
    simp only [runEvents] at hrun
    split at hrun
    · next s₁ hs₁ => exact ih (h s₁ hs₁).2 hrun
    · cases hrun

theorem Always.last (h : Always fire Q s es) (hrun : runEvents fire s es = some s') : Q s' := by
  induction es generalizing s with
  | nil =>
    cases hrun
    exact h
  | cons e es ih =>
    simp only [runEvents] at hrun
    split at hrun
    · next s₁ hs₁ => exact ih (h.2 s₁ hs₁) hrun
    · cases hrun

/-- What an invariant kept by steps with `P` implies holds throughout a run of such steps. -/
theorem Along.always (hQ : ∀ s, I s → Q s)
    (hkeep : ∀ s e s', I s → P s e → fire s e = some s' → I s') (hs : I s)
    (h : Along fire P s es) : Always fire Q s es := by
  induction es generalizing s with
  | nil => exact hQ s hs
  | cons e es ih =>
    refine ⟨hQ s hs, fun s' hfire => ?_⟩
    obtain ⟨hP, hrest⟩ := h s' hfire
    exact ih (hkeep s e s' hs hP hfire) hrest

/-- What is equivalent at the steps that the invariant allows is equivalent along a run. -/
theorem Along.congr (hPR : ∀ s e s', I s → fire s e = some s' → (P s e ↔ R s e))
    (hkeep : ∀ s e s', I s → fire s e = some s' → I s') (hs : I s) :
    Along fire P s es ↔ Along fire R s es := by
  induction es generalizing s with
  | nil => exact Iff.rfl
  | cons e es ih =>
    refine forall_congr' fun s' => imp_congr_right fun hfire => ?_
    exact and_congr (hPR s e s' hs hfire) (ih (hkeep s e s' hs hfire))

theorem Along.and (h : Along fire P s es) (h' : Along fire R s es) :
    Along fire (fun s e => P s e ∧ R s e) s es := by
  induction es generalizing s with
  | nil => trivial
  | cons e es ih =>
    intro s' hfire
    obtain ⟨hP, hrest⟩ := h s' hfire
    obtain ⟨hR, hrest'⟩ := h' s' hfire
    exact ⟨⟨hP, hR⟩, ih hrest hrest'⟩

/-- What the invariant implies of a step with `P` holds at all steps of a run of such steps. -/
theorem Along.steps (hR : ∀ s e s', I s → P s e → fire s e = some s' → R s e)
    (hkeep : ∀ s e s', I s → P s e → fire s e = some s' → I s') (hs : I s)
    (h : Along fire P s es) : Along fire R s es := by
  induction es generalizing s with
  | nil => trivial
  | cons e es ih =>
    intro s' hfire
    obtain ⟨hP, hrest⟩ := h s' hfire
    exact ⟨hR s e s' hs hP hfire, ih (hkeep s e s' hs hP hfire) hrest⟩

/-- Of steps with `R`, those with `P` keep the invariant and the others break `Q`. -/
theorem always_iff_along_of (hQ : ∀ s, I s → Q s)
    (hkeep : ∀ s e s', I s → R s e → P s e → fire s e = some s' → I s')
    (hbreak : ∀ s e s', I s → R s e → ¬ P s e → fire s e = some s' → ¬ Q s') (hs : I s)
    (hrun : Along fire R s es) : Always fire Q s es ↔ Along fire P s es := by
  constructor
  · intro h
    induction es generalizing s with
    | nil => trivial
    | cons e es ih =>
      intro s' hfire
      have hrest := h.2 s' hfire
      have hnow : Q s' := by
        cases es with
        | nil => exact hrest
        | cons => exact hrest.1
      obtain ⟨hR, hrun'⟩ := hrun s' hfire
      have hP : P s e := Classical.byContradiction fun hP => hbreak s e s' hs hR hP hfire hnow
      exact ⟨hP, ih (hkeep s e s' hs hR hP hfire) hrun' hrest⟩
  · intro h
    exact (hrun.and h).always hQ (fun s e s' hs hRP => hkeep s e s' hs hRP.1 hRP.2) hs

/-- Steps with `P` keep the invariant and the others break `Q`. -/
theorem always_iff_along (hQ : ∀ s, I s → Q s)
    (hkeep : ∀ s e s', I s → P s e → fire s e = some s' → I s')
    (hbreak : ∀ s e s', I s → ¬ P s e → fire s e = some s' → ¬ Q s') (hs : I s) :
    Always fire Q s es ↔ Along fire P s es :=
  always_iff_along_of hQ (fun s e s' hs _ => hkeep s e s' hs)
    (fun s e s' hs _ => hbreak s e s' hs) hs
    (Along.of_forall (P := fun _ _ => True) (fun _ _ => trivial) s es)

theorem exists_of_any {o : Option σ} {P : σ → Prop} [DecidablePred P]
    (h : (o.any fun s => decide (P s)) = true) : ∃ s, o = some s ∧ P s := by
  obtain ⟨s, hs, hP⟩ := (Option.any_eq_true ..).1 h
  exact ⟨s, hs, of_decide_eq_true hP⟩

end OopsOS
