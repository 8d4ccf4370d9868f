import OopsOS.Spaces

namespace OopsOS.Spaces
set_option autoImplicit true
open Function

/-- The group of the process 0, with the byte that was last stored at each address. -/
structure Group where
  space : State
  last : Nat → Byte

inductive Event where
  | clone
  | load (m va : Nat)
  | store (m va : Nat)

def fire (g : Group) : Event → Option Group
  | .clone => some { g with space := g.space.clone }
  | .load m va =>
    if m < g.space.n ∧ va / PGSIZE < g.space.pages then
      some { g with space := g.space.bring m (va / PGSIZE) }
    else none
  | .store m va =>
    if m < g.space.n ∧ va / PGSIZE < g.space.pages then
      (g.space.store m va).map fun s =>
        ⟨s, update g.last va (.stored g.space.stores)⟩
    else none

variable {g g' : Group} {s s' : State} {m u q f va : Nat} {e : Event} {es : List Event}

/-- Every thread sees at each address what was last stored there. -/
def Group.Coherent (g : Group) : Prop :=
  ∀ m va, m < g.space.n → va / PGSIZE < g.space.pages → g.space.view m va = g.last va

/-- A thread is created when no file page is still to be read, and stores only to writable pages all
threads have. -/
def Group.Careful (g : Group) : Event → Prop
  | .clone => ∀ q, q < g.space.pages → (g.space.table 0 q).isAbsent = true →
    g.space.file 0 q = false
  | .load _ _ => True
  | .store m va => g.space.n ≤ 1 ∨ ∃ f, g.space.table m (va / PGSIZE) = .present f .rw ∧
      ∀ u, u < g.space.n → (g.space.table u (va / PGSIZE)).frame? = some f

def Group.Single (g : Group) : Prop :=
  g.space.Sound ∧ g.space.n = 1 ∧ ∀ va, g.last va = g.space.view 0 va

structure Group.Kept (g : Group) : Prop where
  sound : g.space.Sound
  leader : 0 < g.space.n
  coherent : g.Coherent

theorem State.view_absent (h : (s.table m (va / PGSIZE)).isAbsent = true) :
    s.view m va = s.fill m (va / PGSIZE) (va % PGSIZE) := by
  unfold State.view
  cases he : s.table m (va / PGSIZE) with
  | absent => rfl
  | present f mode =>
    rw [he] at h
    cases h
  | slot c mode =>
    rw [he] at h
    cases h

theorem State.Sound.addThread (h : s.Sound) (hn : 0 < s.n) : s.addThread.Sound :=
  h.add _ _ hn (fun _ => rfl) fun _ _ _ => id

theorem State.view_addThread_old (hu : u < s.n) : s.addThread.view u va = s.view u va := by
  have htable : s.addThread.table u = s.table u := update_of_ne (Nat.ne_of_lt hu) ..
  have hfile : s.addThread.file u = s.file u := update_of_ne (Nat.ne_of_lt hu) ..
  unfold State.view State.fill
  rw [htable, hfile]
  rfl

theorem State.view_addThread_new : s.addThread.view s.n va =
    if (s.table 0 (va / PGSIZE)).isAbsent = true then .zero else s.view 0 va := by
  have htable : s.addThread.table s.n = s.table 0 := update_self ..
  have hfile : s.addThread.file s.n = fun _ => false := update_self ..
  unfold State.view State.fill
  rw [htable, hfile]
  cases s.table 0 (va / PGSIZE) with
  | absent => rfl
  | present f mode => rfl
  | slot c mode => rfl

theorem Group.Kept.clone (h : g.Kept) (hcare : g.Careful .clone) :
    Group.Kept { g with space := g.space.clone } := by
  have hf := h.sound.swapinAll h.leader fun q hq => List.mem_range.1 hq
  refine ⟨hf.sound.addThread (hf.n ▸ h.leader), Nat.succ_pos _, fun m va hm hva => ?_⟩
  have hva : va / PGSIZE < g.space.pages := hf.pages ▸ hva
  by_cases hold : m < (State.swapinAll (List.range g.space.pages) g.space).n
  · have hlt : m < g.space.n := hf.n ▸ hold
    exact (State.view_addThread_old hold).trans ((hf.view m va hlt).trans (h.coherent m va hlt hva))
  · have hnew : m = (State.swapinAll (List.range g.space.pages) g.space).n :=
      Nat.le_antisymm (Nat.le_of_lt_succ hm) (Nat.le_of_not_lt hold)
    subst hnew
    refine State.view_addThread_new.trans ?_
    rw [hf.absent, hf.view 0 va h.leader, ← h.coherent 0 va h.leader hva]
    split
    · next hab =>
      rw [State.view_absent hab, State.fill, hcare _ hva hab]
      rfl
    · rfl

theorem Group.Kept.clone_broken (h : g.Kept) (hcare : ¬ g.Careful .clone) :
    ¬ Group.Coherent { g with space := g.space.clone } := by
  have hf := h.sound.swapinAll h.leader fun q hq => List.mem_range.1 hq
  simp only [Group.Careful, not_forall, Bool.not_eq_false] at hcare
  obtain ⟨q, hq, hab, hfile⟩ := hcare
  intro hco
  have hpage : q * PGSIZE / PGSIZE = q := Nat.mul_div_cancel q (by decide)
  have hnew := hco (State.swapinAll (List.range g.space.pages) g.space).n (q * PGSIZE)
    (Nat.lt_succ_self _) (by rw [hpage]; exact hf.pages.symm ▸ hq)
  have hold := h.coherent 0 (q * PGSIZE) h.leader (by rw [hpage]; exact hq)
  have hzero := State.view_addThread_new.symm.trans hnew
  rw [hpage, hf.absent, if_pos hab] at hzero
  rw [State.view_absent (by rw [hpage]; exact hab), hpage, State.fill, if_pos hfile] at hold
  cases hzero.trans hold.symm

theorem Group.Kept.load (h : g.Kept) (hm : m < g.space.n) (hq : q < g.space.pages) :
    Group.Kept { g with space := g.space.bring m q } := by
  obtain ⟨hn, hpages⟩ := g.space.bring_size m q
  refine ⟨h.sound.bring hm hq, hn ▸ h.leader, fun u va hu hva => ?_⟩
  have hu : u < g.space.n := hn ▸ hu
  exact (State.view_bring h.sound hm hu).trans (h.coherent u va hu (hpages ▸ hva))

theorem State.store_cases (h : s.store m va = some s') :
    ∃ f, (s.ready m (va / PGSIZE)).table m (va / PGSIZE) = .present f .rw ∧
      s' = (s.ready m (va / PGSIZE)).write f (va % PGSIZE) := by
  unfold State.store at h
  split at h
  · next f he => exact ⟨f, he, (Option.some.inj h).symm⟩
  · cases h

theorem Group.Kept.store (h : g.Kept) (hm : m < g.space.n) (hq : va / PGSIZE < g.space.pages)
    (hcare : g.Careful (.store m va)) (hfire : g.space.store m va = some s') :
    Group.Kept ⟨s', update g.last va (.stored g.space.stores)⟩ := by
  obtain ⟨f, hf, rfl⟩ := State.store_cases hfire
  have hsound := h.sound.ready hm hq
  obtain ⟨hn, hpages⟩ := g.space.ready_size m (va / PGSIZE)
  have hall {u : Nat} (hu : u < g.space.n) :
      ((g.space.ready m (va / PGSIZE)).table u (va / PGSIZE)).frame? = some f := by
    obtain hone | ⟨f', he, hshared⟩ := hcare
    · rw [show u = m by omega, hf]
      rfl
    · have hsame := State.ready_same he (by decide)
      rw [hsame, he] at hf
      rw [hsame, hshared u hu, (Entry.present.inj hf).1]
  refine ⟨hsound.write _ _, hn.symm ▸ h.leader, fun u va' hu' hva' => ?_⟩
  have hu : u < g.space.n := hn ▸ hu'
  rw [State.view_write, State.ready_stores]
  by_cases hva : va' = va
  · rw [hva, if_pos ⟨hall hu, rfl⟩]
    exact (update_self va _ g.last).symm
  · rw [if_neg, State.view_ready h.sound hm hq hu]
    · exact (h.coherent u va' hu (hpages ▸ hva')).trans (update_of_ne hva ..).symm
    · intro hand
      have hpage : va' / PGSIZE = va / PGSIZE :=
        hsound.apart (hn.symm ▸ hu) (hn.symm ▸ hu) hand.1 (hall hu)
      exact hva (by rw [← Nat.div_add_mod va' PGSIZE, ← Nat.div_add_mod va PGSIZE, hpage, hand.2])

theorem Group.Kept.store_broken (h : g.Kept) (hm : m < g.space.n) (hq : va / PGSIZE < g.space.pages)
    (hcare : ¬ g.Careful (.store m va)) (hfire : g.space.store m va = some s') :
    ¬ Group.Coherent ⟨s', update g.last va (.stored g.space.stores)⟩ := by
  obtain ⟨f, hf, rfl⟩ := State.store_cases hfire
  obtain ⟨hn, hpages⟩ := g.space.ready_size m (va / PGSIZE)
  obtain ⟨hmany, hcare⟩ := not_or.1 hcare
  obtain ⟨u, hu, hother⟩ : ∃ u, u < g.space.n ∧
      ((g.space.ready m (va / PGSIZE)).table u (va / PGSIZE)).frame? ≠ some f := by
    by_cases hdirect : ∃ f' mode, g.space.table m (va / PGSIZE) = .present f' mode ∧ mode ≠ .cow
    · obtain ⟨f', mode, he, hmode⟩ := hdirect
      have hsame := State.ready_same he hmode
      rw [hsame] at hf ⊢
      by_contra hall
      exact hcare ⟨f, hf, fun u hu => not_not.1 fun hother => hall ⟨u, hu, hother⟩⟩
    · have hnot : ∀ f' mode, g.space.table m (va / PGSIZE) = .present f' mode → mode = .cow :=
        fun f' mode he => not_not.1 fun hmode => hdirect ⟨f', mode, he, hmode⟩
      obtain ⟨u, hu, hne⟩ : ∃ u, u < g.space.n ∧ u ≠ m := by
        by_cases hzero : m = 0
        · exact ⟨1, by omega, by omega⟩
        · exact ⟨0, by omega, by omega⟩
      exact ⟨u, hu, h.sound.ready_private hm hu hne hnot hf⟩
  intro hco
  have hnew := hco u va (hn.symm ▸ hu) (hpages.symm ▸ hq)
  rw [State.view_write, if_neg fun hand => hother hand.1, State.view_ready h.sound hm hq hu] at hnew
  exact Nat.lt_irrefl _ (State.view_old h.sound hu (hnew.trans (update_self ..)))

theorem Group.Kept.fire (h : g.Kept) (hcare : g.Careful e) (hfire : Spaces.fire g e = some g') :
    g'.Kept := by
  cases e with
  | clone =>
    cases hfire
    exact h.clone hcare
  | load m va =>
    obtain ⟨hin, rfl⟩ := of_guarded hfire
    exact h.load hin.1 hin.2
  | store m va =>
    simp only [Spaces.fire] at hfire
    split at hfire
    · next hin =>
      obtain ⟨s', hs', rfl⟩ := Option.map_eq_some_iff.1 hfire
      exact h.store hin.1 hin.2 hcare hs'
    · cases hfire

theorem Group.Kept.fire_broken (h : g.Kept) (hcare : ¬ g.Careful e)
    (hfire : Spaces.fire g e = some g') : ¬ g'.Coherent := by
  cases e with
  | clone =>
    cases hfire
    exact h.clone_broken hcare
  | load m va => exact absurd trivial hcare
  | store m va =>
    simp only [Spaces.fire] at hfire
    split at hfire
    · next hin =>
      obtain ⟨s', hs', rfl⟩ := Option.map_eq_some_iff.1 hfire
      exact h.store_broken hin.1 hin.2 hcare hs'
    · cases hfire

theorem Group.Single.kept (h : g.Single) : g.Kept := by
  obtain ⟨hsound, hn, hlast⟩ := h
  refine ⟨hsound, hn ▸ Nat.one_pos, fun m va hm _ => ?_⟩
  rw [hlast, show m = 0 by omega]

/-- The threads of a group see one address space exactly if they are `Careful`. -/
theorem threads_coherent_iff (h : g.Single) :
    Always Spaces.fire Group.Coherent g es ↔ Along Spaces.fire Group.Careful g es :=
  always_iff_along (fun _ h => h.coherent) (fun _ _ _ h hcare hfire => h.fire hcare hfire)
    (fun _ _ _ h hcare hfire => h.fire_broken hcare hfire) h.kept

def lazyPage : Group := ⟨onePage false true, fun _ => .zero⟩

theorem lazyPage_single : lazyPage.Single := ⟨onePage_sound false true, rfl, fun _ => rfl⟩

theorem threads_coherent_lazyPage :
    Always Spaces.fire Group.Coherent lazyPage [.store 0 0, .clone, .store 1 0] := by
  refine (threads_coherent_iff lazyPage_single).2 fun g₁ h₁ => ⟨.inl (by decide), fun g₂ h₂ => ?_⟩
  cases h₁
  cases h₂
  refine ⟨fun q hq hab => rfl, fun g₃ h₃ => ⟨.inr ⟨0, rfl, fun u hu => ?_⟩, trivial⟩⟩
  have hu : u < 2 := hu
  obtain rfl | rfl : u = 0 ∨ u = 1 := by omega
  · rfl
  · rfl

/-- A thread is the first to use a page: the process does not see what it stores. -/
theorem thread_store_unseen :
    ∃ g', runEvents Spaces.fire lazyPage [.clone, .store 1 0] = some g' ∧
      g'.last 0 = .stored 0 ∧ g'.space.view 0 0 = .zero := by
  exact exists_of_any (by decide +kernel)

end OopsOS.Spaces
