import OopsOS.Spaces

namespace OopsOS.Spaces
set_option autoImplicit true

inductive Kind where
  | load
  | store
  | copyout
deriving DecidableEq

/-- A process or thread uses an address, or the kernel copies to it on its behalf. -/
structure Touch where
  kind : Kind
  who : Nat
  va : Nat

def touch (s : State) (e : Touch) : Option State :=
  if e.who < s.n ∧ e.va / PGSIZE < s.pages then
    match e.kind with
    | .load => some (s.bring e.who (e.va / PGSIZE))
    | .store => s.store e.who e.va
    | .copyout => s.copyout e.who e.va
  else none

def Apart (child u m : Nat) : Prop := u = child ∧ m ≠ child ∨ u ≠ child ∧ m = child

variable {s s' : State} {child m u p q f va : Nat} {mode : Mode} {e : Touch} {es : List Touch}

theorem Apart.ne (h : Apart child u m) : u ≠ m := by
  obtain ⟨rfl, hm⟩ | ⟨hu, rfl⟩ := h
  · exact fun heq => hm heq.symm
  · exact hu

def Isolated (child : Nat) (s : State) (e : Touch) : Prop :=
  ∀ s', touch s e = some s' → ∀ u va, u < s.n → Apart child u e.who → s'.view u va = s.view u va

/-- A page that the step writes in place is not in a frame of the other side. -/
def Careful (child : Nat) (s : State) (e : Touch) : Prop :=
  ∀ f mode, s.table e.who (e.va / PGSIZE) = .present f mode →
    (e.kind = .store ∧ mode = .rw ∨ e.kind = .copyout ∧ mode ≠ .cow) →
    ∀ u, u < s.n → Apart child u e.who → (s.table u (e.va / PGSIZE)).frame? ≠ some f

theorem touch_cases (h : touch s e = some s') :
    e.who < s.n ∧ e.va / PGSIZE < s.pages ∧
      (e.kind = .load ∧ s' = s.bring e.who (e.va / PGSIZE) ∨
        ∃ f mode, (s.ready e.who (e.va / PGSIZE)).table e.who (e.va / PGSIZE) = .present f mode ∧
          (e.kind = .store ∧ mode = .rw ∨ e.kind = .copyout) ∧
          s' = (s.ready e.who (e.va / PGSIZE)).write f (e.va % PGSIZE)) := by
  unfold touch at h
  split at h
  · next hin =>
    refine ⟨hin.1, hin.2, ?_⟩
    split at h
    · next hk => exact .inl ⟨hk, (Option.some.inj h).symm⟩
    · next hk =>
      unfold State.store at h
      split at h
      · next f he => exact .inr ⟨f, .rw, he, .inl ⟨hk, rfl⟩, (Option.some.inj h).symm⟩
      · cases h
    · next hk =>
      unfold State.copyout at h
      split at h
      · cases h
      · split at h
        · next f mode he => exact .inr ⟨f, mode, he, .inr hk, (Option.some.inj h).symm⟩
        · cases h
  · cases h

theorem State.Sound.touch (h : s.Sound) (hfire : Spaces.touch s e = some s') : s'.Sound := by
  obtain ⟨hm, hq, ⟨-, rfl⟩ | ⟨f, mode, -, -, rfl⟩⟩ := touch_cases hfire
  · exact h.bring hm hq
  · exact (h.ready hm hq).write _ _

theorem State.Sound.isolated_write (h : s.Sound) (hm : m < s.n) (hq : va / PGSIZE < s.pages)
    (hf : (s.ready m (va / PGSIZE)).table m (va / PGSIZE) = .present f mode) (hu : u < s.n) :
    (∀ va', ((s.ready m (va / PGSIZE)).write f (va % PGSIZE)).view u va' = s.view u va') ↔
      ((s.ready m (va / PGSIZE)).table u (va / PGSIZE)).frame? ≠ some f := by
  have hsound := h.ready hm hq
  have hn := (s.ready_size m (va / PGSIZE)).1
  constructor
  · intro hsame huf
    have hva := hsame va
    rw [State.view_write, if_pos ⟨huf, rfl⟩, ready_stores] at hva
    exact Nat.lt_irrefl _ (view_old h hu hva.symm)
  · intro hother va'
    rw [State.view_write, if_neg, State.view_ready h hm hq hu]
    intro hand
    have hpage : va' / PGSIZE = va / PGSIZE :=
      hsound.apart (hn.symm ▸ hu) (hn.symm ▸ hm) hand.1 (by rw [hf]; rfl)
    exact hother (hpage ▸ hand.1)

theorem isolated_iff (h : s.Sound) (hfire : touch s e = some s') :
    Isolated child s e ↔ Careful child s e := by
  obtain ⟨hm, hq, ⟨hk, rfl⟩ | ⟨f, mode, hf, hk, rfl⟩⟩ := touch_cases hfire
  · refine iff_of_true (fun s₁ hs₁ u va hu _ => ?_) fun f mode _ hkind => ?_
    · obtain rfl := Option.some.inj (hs₁.symm.trans hfire)
      exact State.view_bring h hm hu
    · rw [hk] at hkind
      obtain ⟨hk', -⟩ | ⟨hk', -⟩ := hkind
      · cases hk'
      · cases hk'
  · have hsee : Isolated child s e ↔ ∀ u, u < s.n → Apart child u e.who →
        ((s.ready e.who (e.va / PGSIZE)).table u (e.va / PGSIZE)).frame? ≠ some f := by
      constructor
      · exact fun hiso u hu hap =>
          (h.isolated_write hm hq hf hu).1 fun va => hiso _ hfire u va hu hap
      · intro hother s₁ hs₁ u va hu hap
        obtain rfl := Option.some.inj (hs₁.symm.trans hfire)
        exact (h.isolated_write hm hq hf hu).2 (hother u hu hap) va
    rw [hsee]
    by_cases hdirect : ∃ f' mode', s.table e.who (e.va / PGSIZE) = .present f' mode' ∧ mode' ≠ .cow
    · obtain ⟨f', mode', he, hmode⟩ := hdirect
      have hsame := State.ready_same he hmode
      rw [hsame] at hf ⊢
      constructor
      · intro hother f₁ mode₁ he₁ _
        obtain ⟨rfl, -⟩ := Entry.present.inj (hf.symm.trans he₁)
        exact hother
      · intro hcare
        refine hcare f mode hf (hk.imp_right fun hk' => ⟨hk', ?_⟩)
        exact (Entry.present.inj (hf.symm.trans he)).2 ▸ hmode
    · have hnot : ∀ f' mode', s.table e.who (e.va / PGSIZE) = .present f' mode' → mode' = .cow :=
        fun f' mode' he => not_not.1 fun hmode => hdirect ⟨f', mode', he, hmode⟩
      refine iff_of_true (fun u hu hap => h.ready_private hm hu hap.ne hnot hf) ?_
      intro f₁ mode₁ he₁ hkind
      have hcow := hnot f₁ mode₁ he₁
      obtain ⟨-, hrw⟩ | ⟨-, hne⟩ := hkind
      · cases hrw.symm.trans hcow
      · exact absurd hcow hne

theorem along_isolated_iff (h : s.Sound) :
    Along touch (Isolated child) s es ↔ Along touch (Careful child) s es :=
  Along.congr (I := State.Sound) (fun _ _ _ hs hfire => isolated_iff hs hfire)
    (fun _ _ _ hs hfire => hs.touch hfire) h

/-- After a fork the sides are independent exactly if no page written in place is in a frame of the
other. -/
theorem fork_isolated_iff (h : s.Sound) (hp : p < s.n) :
    Along touch (Isolated s.n) (s.fork p) es ↔ Along touch (Careful s.n) (s.fork p) es :=
  along_isolated_iff (h.fork hp)

theorem fork_isolated_onePage :
    Along touch (Isolated 1) (((onePage false true).bring 0 0).fork 0) [⟨.store, 0, 0⟩] := by
  have hsound : ((onePage false true).bring 0 0).Sound :=
    (onePage_sound false true).bring Nat.one_pos Nat.one_pos
  refine (fork_isolated_iff hsound Nat.one_pos).2 fun s₁ _ => ⟨fun f mode he hkind => ?_, trivial⟩
  obtain ⟨-, rfl⟩ | ⟨hk, -⟩ := hkind
  · cases he
  · cases hk

/-- A read-only page is shared without a mark: the child sees what is copied to its parent. -/
theorem copyout_seen_by_child :
    ∃ s', touch (((onePage true false).bring 0 0).fork 0) ⟨.copyout, 0, 0⟩ = some s' ∧
      (((onePage true false).bring 0 0).fork 0).view 1 0 = .file 0 ∧ s'.view 1 0 = .stored 0 := by
  exact exists_of_any (by decide +kernel)

end OopsOS.Spaces
