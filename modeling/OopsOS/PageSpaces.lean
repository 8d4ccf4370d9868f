import OopsOS.PageMapping

namespace OopsOS.Pg
set_option autoImplicit true
open Function

variable {s s' s'' : PgState} {X L : Multiset Nat} {t vpn lo mid hi f : Nat} {e perm : Pte}
  {c : Bool} {E : Panic → Prop} {g : Bool}

theorem kfree_setPte {Q : Unit → PgState → Prop} (h : wp E (kfree f) (s.setPte t vpn e) Q) :
    wp E (do kfree f; setPte t vpn e) s Q := by
  rw [wp_bind]
  unfold kfree at h ⊢
  rw [wp_bind, wp_get] at h ⊢
  by_cases hout : f = 0 ∨ s.nframes < f
  · rw [if_pos hout]
    rwa [if_pos (show f = 0 ∨ (s.setPte t vpn e).nframes < f from hout)] at h
  · rw [if_neg hout]
    rw [if_neg (show ¬ (f = 0 ∨ (s.setPte t vpn e).nframes < f) from hout)] at h
    by_cases h1 : s.cnt f - 1 = 0
    · rw [if_pos h1]
      rw [if_pos (show (s.setPte t vpn e).cnt f - 1 = 0 from h1)] at h
      exact h
    · rw [if_neg h1]
      rw [if_neg (show ¬ (s.setPte t vpn e).cnt f - 1 = 0 from h1)] at h
      exact h

structure Unmaps (t lo hi : Nat) (s s' : PgState) : Prop where
  only : s' = { s with
    table := s'.table, swapmap := s'.swapmap, cnt := s'.cnt, data := s'.data, free := s'.free,
    env := s'.env }
  node : ∀ t, (s'.table t).node = (s.table t).node
  inside : ∀ v, lo ≤ v → v < hi → (s'.pte t v).valid = false ∧ (s'.pte t v).swapped = false
  outside : ∀ t' v, ¬ (t' = t ∧ lo ≤ v ∧ v < hi) → s'.pte t' v = s.pte t' v
  marks : ∀ k, s'.swapmap k = true → s.swapmap k = true
  freed : ∀ v, lo ≤ v → v < hi → (s.pte t v).swapped = true → s'.swapmap (s.pte t v).num = false
  frames : ∀ f, (∀ v, lo ≤ v → v < hi → (s.pte t v).valid = true → (s.pte t v).num ≠ f) →
    s'.cnt f = s.cnt f ∧ s'.data f = s.data f

theorem Unmaps.refl (t lo : Nat) (s : PgState) : Unmaps t lo lo s s where
  only := rfl
  node _ := rfl
  inside _ h1 h2 := (Nat.not_lt.2 h1 h2).elim
  outside _ _ _ := rfl
  marks _ hk := hk
  freed _ h1 h2 := (Nat.not_lt.2 h1 h2).elim
  frames _ _ := ⟨rfl, rfl⟩

theorem Unmaps.trans (h : Unmaps t lo mid s s') (h' : Unmaps t mid hi s' s'') (h1 : lo ≤ mid)
    (h2 : mid ≤ hi) : Unmaps t lo hi s s'' where
  only := by
    rw [h'.only, h.only]
  node t' := (h'.node t').trans (h.node t')
  inside v hlo hhi := by
    by_cases hv : v < mid
    · rw [h'.outside t v (fun hr => Nat.not_lt.2 hr.2.1 hv)]
      exact h.inside v hlo hv
    · exact h'.inside v (Nat.le_of_not_lt hv) hhi
  outside t' v hn := by
    rw [h'.outside t' v fun hr => hn ⟨hr.1, h1.trans hr.2.1, hr.2.2⟩]
    exact h.outside t' v fun hr => hn ⟨hr.1, hr.2.1, hr.2.2.trans_le h2⟩
  marks k hk := h.marks k (h'.marks k hk)
  freed v hlo hhi hs := by
    by_cases hv : v < mid
    · by_contra hn
      have hm := h'.marks _ (Bool.eq_true_of_not_eq_false hn)
      rw [h.freed v hlo hv hs] at hm
      cases hm
    · have he := h.outside t v fun hr => hv hr.2.2
      rw [← he] at hs ⊢
      exact h'.freed v (Nat.le_of_not_lt hv) hhi hs
  frames f hf := by
    have ha := h.frames f fun v hlo hv => hf v hlo (hv.trans_le h2)
    have hb := h'.frames f fun v hlo hv hval => by
      have he := h.outside t v fun hr => Nat.not_lt.2 hlo hr.2.2
      rw [he] at hval ⊢
      exact hf v (h1.trans hlo) hv hval
    exact ⟨hb.1.trans ha.1, hb.2.trans ha.2⟩

theorem Unmaps.one (honly : s' = { s with
      table := s'.table, swapmap := s'.swapmap, cnt := s'.cnt, data := s'.data, free := s'.free,
      env := s'.env })
    (htable : s'.table = (s.setPte t vpn .zero).table)
    (hmap : ∀ k, s'.swapmap k = true → s.swapmap k = true)
    (hfreed : (s.pte t vpn).swapped = true → s'.swapmap (s.pte t vpn).num = false)
    (hframes : ∀ f, ((s.pte t vpn).valid = true → (s.pte t vpn).num ≠ f) →
      s'.cnt f = s.cnt f ∧ s'.data f = s.data f) : Unmaps t vpn (vpn + 1) s s' where
  only := honly
  node t' := by
    rw [htable]
    exact setPte_node t'
  inside v hlo hhi := by
    have hv : v = vpn := by omega
    subst hv
    have he : s'.pte t v = .zero := by
      rw [PgState.pte, htable]
      exact setPte_self
    rw [he]
    exact ⟨rfl, rfl⟩
  outside t' v hn := by
    rw [PgState.pte, htable]
    exact setPte_of_ne fun he => hn ⟨he.1, by omega, by omega⟩
  marks := hmap
  freed v hlo hhi := by
    have hv : v = vpn := by omega
    subst hv
    exact hfreed
  frames f hf := hframes f (hf vpn (Nat.le_refl _) (Nat.lt_succ_self _))

theorem Unmaps.unused (hv : (s.pte t vpn).valid = false) (hs : (s.pte t vpn).swapped = false) :
    Unmaps t vpn (vpn + 1) s s where
  only := rfl
  node _ := rfl
  inside v hlo hhi := by
    have he : v = vpn := by omega
    subst he
    exact ⟨hv, hs⟩
  outside _ _ _ := rfl
  marks _ hk := hk
  freed v hlo hhi hs' := by
    have he : v = vpn := by omega
    subst he
    exact (Bool.false_ne_true (hs.symm.trans hs')).elim
  frames _ _ := ⟨rfl, rfl⟩

theorem Inv.clear_unused (h : Inv c s X L) (hlive : s.live t = true) (hlt : vpn < NVPN)
    (hv : (s.pte t vpn).valid = false) (hs : (s.pte t vpn).swapped = false) :
    Inv c (s.setPte t vpn .zero) X L := by
  apply h.setPte ⟨(h.shaped.frame t hlive).2, hlt⟩
  · apply h.shaped.setPte hlive
    · intro hz
      rcases hz with hz | hz <;> cases hz
    · intro hz
      cases hz
    · intro hz
      cases hz
    · intro hz
      cases hz
    · refine fun hle => ⟨⟨rfl, rfl, rfl⟩, fun ⟨p, hp⟩ _ => ?_⟩
      have hroot := (h.shaped.roots p (hp ▸ Nat.ne_of_gt (h.shaped.frame t hlive).1)).2 vpn hle hlt
      rw [hp, hv] at hroot
      cases hroot
  · rw [Pte.frame_of_invalid hv]
    rfl
  · rw [Pte.slot_of_unswapped hs]
    rfl
  · exact fun _ hz => (nomatch hz)

theorem Inv.clear_swapped (h : Inv c s X L) (hs : (s.pte t vpn).swapped = true)
    (hb : c = true → s.Unbuffered (s.pte t vpn).num) :
    Inv c ((s.setPte t vpn .zero).setSlot (s.pte t vpn).num false) X L := by
  have hv := h.shaped.swapped_invalid hs
  have hclear := h.clear (.inr hs) (h.shaped.low_of_swapped hs)
  rw [Pte.frame_of_invalid hv, nonzero_zero, zero_add, Pte.slot_of_swapped hs hv, nonzero_of_ne
    (Nat.succ_ne_zero _), Multiset.singleton_add] at hclear
  exact hclear.unmark hb

theorem unmapPage_spec (hE : ∀ e, e ≠ .remap → E e) (h : Inv c s X L)
    (hhigh : TRAPFRAME ≤ vpn → (s.pte t vpn).valid = false)
    (hb : c = true → (s.pte t vpn).swapped = true → s.Unbuffered (s.pte t vpn).num) :
    wp E (unmapPage t vpn true) s (fun _ s' => Inv c s' X L ∧ Unmaps t vpn (vpn + 1) s s') := by
  unfold unmapPage
  rw [wp_bind]
  refine wp_lookup (fun _ => hE _ (by decide)) (fun _ hn => ?_) fun hlt hreach => ?_
  · refine (wp_pure _).2 ⟨h, .unused ?_ ?_⟩
    · by_contra hv
      exact hn (h.shaped.used t vpn (.inl (Bool.eq_true_of_not_eq_false hv))).2
    · by_contra hs
      exact hn (h.shaped.used t vpn (.inr (Bool.eq_true_of_not_eq_false hs))).2
  · rw [wp_ite]
    split
    · next hv =>
      rw [wp_ite]
      split
      · next hs =>
        have hnum : ¬ SWAP_PAGES ≤ (s.pte t vpn).num := Nat.not_le.2 (h.slot_lt hs.2)
        unfold swapfree
        rw [if_neg hnum, wp_bind, wp_modify]
        refine (wp_modify _).2
          ⟨h.clear_swapped hs.2 fun hc => hb hc hs.2, .one rfl rfl (fun k hk => ?_)
          (fun _ => update_self _ _ _) (fun _ _ => ⟨rfl, rfl⟩)⟩
        have hk : update s.swapmap (s.pte t vpn).num false k = true := hk
        by_cases he : k = (s.pte t vpn).num
        · rw [he, update_self] at hk
          cases hk
        · rwa [update_of_ne he] at hk
      · next hs =>
        have hs : (s.pte t vpn).swapped = false := Bool.eq_false_of_not_eq_true fun hs' =>
          hs ⟨rfl, hs'⟩
        refine (wp_modify _).2 ⟨h.clear_unused (h.shaped.live_of_node hreach.1) hlt hv hs, ?_⟩
        refine .one rfl rfl (fun _ hk => hk) (fun hs' => ?_) (fun _ _ => ⟨rfl, rfl⟩)
        exact (Bool.false_ne_true (hs.symm.trans hs')).elim
    · next hv =>
      have hv : (s.pte t vpn).valid = true := Bool.eq_true_of_not_eq_false hv
      have hlt : vpn < TRAPFRAME := Nat.lt_of_not_le fun hle => by
        rw [hhigh hle] at hv
        cases hv
      rw [wp_ite]
      split
      · exact hE _ (by decide)
      · rw [if_pos rfl]
        have hclear := h.clear_valid hv hlt
        apply kfree_setPte
        refine (kfree_spec hclear).mono fun _ s₁ h₁ => ⟨h₁.1, ?_⟩
        obtain ⟨-, hfr⟩ := h₁
        have honly := hfr.only
        refine .one ?_ ?_ (fun k hk => ?_) (fun hs' => ?_) (fun f hf => ?_)
        · rw [honly]
          rfl
        · rw [honly]
        · rw [honly] at hk
          exact hk
        · exact (Bool.false_ne_true ((h.shaped.single t vpn hv).symm.trans hs')).elim
        · exact ⟨hfr.cnt f (Ne.symm (hf hv)), hfr.data f (Ne.symm (hf hv))⟩

def NoneBuffered (s : PgState) (t lo hi : Nat) : Prop :=
  ∀ v, lo ≤ v → v < hi → (s.pte t v).swapped = true → s.Unbuffered (s.pte t v).num

def Spares (s : PgState) (t lo hi : Nat) : Prop :=
  ∀ v, lo ≤ v → v < hi → TRAPFRAME ≤ v → (s.pte t v).valid = false

theorem Spares.of_lt (h : ∀ v, lo ≤ v → v < hi → v < TRAPFRAME) : Spares s t lo hi :=
  fun v hlo hhi hle => (Nat.not_le.2 (h v hlo hhi) hle).elim

theorem Unmaps.pbuf (h : Unmaps t lo hi s s') : s'.pbuf = s.pbuf := by rw [h.only]

theorem uvmunmap_spec (hE : ∀ e, e ≠ .remap → E e) (h : Inv c s X L) (t va n : Nat)
    (hhigh : Spares s t (va / PGSIZE) (va / PGSIZE + n))
    (hb : c = true → NoneBuffered s t (va / PGSIZE) (va / PGSIZE + n)) :
    wp E (uvmunmap t va n true) s (fun _ s' => Inv c s' X L ∧
      Unmaps t (va / PGSIZE) (va / PGSIZE + n) s s') := by
  unfold uvmunmap
  rw [wp_ite]
  split
  · exact hE _ (by decide)
  · refine wp_loop (fun i _ s' => Inv c s' X L ∧ Unmaps t (va / PGSIZE) i s s') ⟨h, .refl _ _ s⟩ ?_
    intro i _ s₁ hlo hhi h₁
    have he := h₁.2.outside t i fun hr => Nat.lt_irrefl i hr.2.2
    refine (unmapPage_spec hE h₁.1 (fun hle => ?_) fun hc hs j b hj hpb => ?_).mono fun _ s₂ h₂ =>
      ⟨h₂.1, h₁.2.trans h₂.2 hlo (Nat.le_succ i)⟩
    · rw [he]
      exact hhigh i hlo hhi hle
    · rw [he] at hs ⊢
      rw [h₁.2.pbuf] at hpb
      exact hb hc i hlo hhi hs j b hj hpb

theorem pgRoundUp_div (a : Nat) : pgRoundUp a / PGSIZE = pagesOf a :=
  Nat.mul_div_cancel _ (by decide)

theorem pagesOf_mul (n : Nat) : pagesOf (n * PGSIZE) = n := by
  unfold pagesOf PGSIZE
  omega

theorem pagesOf_mono (h : a ≤ b) : pagesOf a ≤ pagesOf b :=
  Nat.div_le_div_right (by omega)

theorem uvmdealloc_spec (hE : ∀ e, e ≠ .remap → E e) (h : Inv c s X L) (t oldsz newsz : Nat)
    (hhigh : Spares s t (pagesOf newsz) (pagesOf oldsz))
    (hb : c = true → NoneBuffered s t (pagesOf newsz) (pagesOf oldsz)) :
    wp E (uvmdealloc t oldsz newsz) s (fun _ s' => Inv c s' X L ∧
      Unmaps t (pagesOf newsz) (max (pagesOf newsz) (pagesOf oldsz)) s s') := by
  unfold uvmdealloc
  rw [wp_ite]
  split
  · next hle =>
    rw [Nat.max_eq_left (pagesOf_mono hle)]
    exact ⟨h, .refl _ _ s⟩
  · rw [wp_ite]
    split
    · next hpages =>
      have hdiv := pgRoundUp_div newsz
      have hsum : pagesOf newsz + (pagesOf oldsz - pagesOf newsz) = pagesOf oldsz := by omega
      have hspec := uvmunmap_spec hE h t (pgRoundUp newsz) (pagesOf oldsz - pagesOf newsz)
        (by rw [hdiv, hsum]; exact hhigh) (fun hc => by rw [hdiv, hsum]; exact hb hc)
      rw [hdiv, hsum] at hspec
      rw [Nat.max_eq_right (Nat.le_of_lt hpages)]
      exact hspec.bind fun _ s₁ h₁ => (wp_pure _).2 h₁
    · next hpages =>
      rw [Nat.max_eq_left (Nat.le_of_not_lt hpages)]
      exact ⟨h, .refl _ _ s⟩

def Apart (t lo hi : Nat) (s s' : PgState) : Prop :=
  ∀ t' v, ¬ (t' = t ∧ lo ≤ v ∧ v < hi) → v < TRAPFRAME →
    ((s.pte t' v).valid = false → (s'.pte t' v).valid = false) ∧
    ((s.pte t' v).valid = true → (s'.pte t' v).valid = true →
      (s'.pte t' v).num = (s.pte t' v).num ∧ s'.cnt (s.pte t' v).num = s.cnt (s.pte t' v).num)

theorem Apart.trans (h : Apart t lo hi s s') (h' : Apart t lo hi s' s'') : Apart t lo hi s s'' := by
  intro t' v hn hlt
  obtain ⟨h1, h2⟩ := h t' v hn hlt
  obtain ⟨h1', h2'⟩ := h' t' v hn hlt
  refine ⟨fun hv => h1' (h1 hv), fun hv hv'' => ?_⟩
  have hv' : (s'.pte t' v).valid = true := by
    by_contra hno
    exact Bool.false_ne_true ((h1' (Bool.eq_false_of_not_eq_true hno)).symm.trans hv'')
  obtain ⟨ha, hb⟩ := h2 hv hv'
  obtain ⟨ha', hb'⟩ := h2' hv' hv''
  rw [ha] at hb'
  exact ⟨ha'.trans ha, hb'.trans hb⟩

theorem Apart.widen (h : Apart t lo mid s s') (hle : mid ≤ hi) : Apart t lo hi s s' :=
  fun t' v hn hlt => h t' v (fun hr => hn ⟨hr.1, hr.2.1, hr.2.2.trans_le hle⟩) hlt

theorem Evicts.apart (h : Evicts g X s s') (t lo hi : Nat) : Apart t lo hi s s' := by
  intro t' v _ hlt
  refine ⟨fun hv => (Pte.core_valid (h.invalid hv)).trans hv, fun hv hv' => ?_⟩
  cases h.entry t' v with
  | kept he hp => exact ⟨Pte.core_num he, (hp hv hlt).1⟩
  | dropped _ _ he =>
    have hno : (s'.pte t' v).valid = false := Pte.core_valid (e := .zero) he
    exact (Bool.false_ne_true (hno.symm.trans hv')).elim
  | swapped k _ he =>
    have hno : (s'.pte t' v).valid = false := Pte.core_valid (e := (s.pte t' v).core.toSlot k) he
    exact (Bool.false_ne_true (hno.symm.trans hv')).elim

theorem Apart.setPte (hlo : lo ≤ vpn) (hhi : vpn < hi) : Apart t lo hi s (s.setPte t vpn e) := by
  intro t' v hn _
  have he : ¬ (t' = t ∧ v = vpn) := by
    rintro ⟨rfl, rfl⟩
    exact hn ⟨rfl, hlo, hhi⟩
  rw [setPte_of_ne he]
  exact ⟨id, fun _ _ => ⟨rfl, rfl⟩⟩

def Private (s : PgState) (t lo hi : Nat) : Prop :=
  ∀ v, lo ≤ v → v < hi → (s.pte t v).valid = true → s.cnt (s.pte t v).num = 1

theorem Private.evicts (h : Private s t lo hi) (hlt : ∀ v, lo ≤ v → v < hi → v < TRAPFRAME)
    (hev : Evicts g X s s') : Private s' t lo hi := by
  intro v hlo hv hval
  obtain ⟨h1, h2⟩ := hev.apart t 0 0 t v (fun hr => Nat.not_lt_zero v hr.2.2) (hlt v hlo hv)
  have hold : (s.pte t v).valid = true := by
    by_contra hno
    exact Bool.false_ne_true ((h1 (Bool.eq_false_of_not_eq_true hno)).symm.trans hval)
  obtain ⟨ha, hb⟩ := h2 hold hval
  rw [ha, hb]
  exact h v hlo hv hold

theorem Unmaps.apart (h : Inv c s X L) (hu : Unmaps t lo hi s s')
    (hlow : ∀ v, lo ≤ v → v < hi → v < TRAPFRAME) (hp : Private s t lo hi) :
    Apart t lo hi s s' := by
  intro t' v hn hlt
  rw [hu.outside t' v hn]
  refine ⟨id, fun hv _ => ⟨rfl, (hu.frames _ fun w hlo hw hval he => hn ?_).1⟩⟩
  have hmem := leaf_mem.2 (h.shaped.entry_mem (.inl hval))
  have hheld : s.held (.leaf t w) = (s.pte t w).num := if_pos ⟨hval, hlow w hlo hw⟩
  have h0 := h.shaped.mapped t w hval (hlow w hlo hw)
  have hsole := h.sole (k := .leaf t w) hmem (by rwa [hheld])
    (by rw [hheld]; exact hp w hlo hw hval)
  have hheld' : s.held (.leaf t' v) = (s.pte t' v).num := if_pos ⟨hv, hlt⟩
  have heq := hsole.1 (.leaf t' v) (leaf_mem.2 (h.shaped.entry_mem (.inl hv)))
    (by rw [hheld, hheld', he])
  cases heq
  exact ⟨rfl, hlo, hw⟩

def Steady (s s' : PgState) : Prop :=
  ∀ t v, v < TRAPFRAME → (s.pte t v).valid = true → (s'.pte t v).valid = true →
    (s'.pte t v).num = (s.pte t v).num → s'.cnt (s.pte t v).num = s.cnt (s.pte t v).num

theorem Apart.steady (h : Apart t lo hi s s')
    (hin : ∀ v, lo ≤ v → v < hi → (s.pte t v).valid = true → (s'.pte t v).valid = false) :
    Steady s s' := by
  intro t' v hlt hv hv' _
  by_cases hr : t' = t ∧ lo ≤ v ∧ v < hi
  · obtain ⟨rfl, hlo, hhi⟩ := hr
    exact (Bool.false_ne_true ((hin v hlo hhi hv).symm.trans hv')).elim
  · exact ((h t' v hr hlt).2 hv hv').2

theorem Evicts.steady (h : Evicts g X s s') : Steady s s' :=
  (h.apart 0 0 0).steady fun v _ hhi => (Nat.not_lt_zero v hhi).elim

def Trapped (s : PgState) (t : Nat) : Prop :=
  ∀ v, TRAPFRAME ≤ v → v < NVPN → (s.pte t v).valid = true

theorem Trapped.evicts (h : Trapped s t) (hev : Evicts g X s s') : Trapped s' t := by
  intro v hle hlt
  cases hev.entry t v with
  | kept he => exact (Pte.core_valid he).trans (h v hle hlt)
  | dropped hold => exact (Nat.not_le.2 hold.low hle).elim
  | swapped k hold => exact (Nat.not_le.2 hold.low hle).elim

theorem Trapped.setPte (h : Trapped s t) (hv : e.valid = true) : Trapped (s.setPte t vpn e) t := by
  intro v hle hlt
  by_cases he : v = vpn
  · rw [he, setPte_self]
    exact hv
  · rw [setPte_of_ne fun hr => he hr.2]
    exact h v hle hlt

theorem Trapped.low (h : Trapped s t) (hv : (s.pte t vpn).valid = false) (hlt : vpn < NVPN) :
    vpn < TRAPFRAME := by
  by_contra hle
  have hval := h vpn (Nat.le_of_not_lt hle) hlt
  rw [hv] at hval
  cases hval

/-- The state of the loop of `uvmalloc` from `start` on, when it is at `vpn`. -/
structure Growing (s₀ : PgState) (X L : Multiset Nat) (t start vpn : Nat) (s : PgState) : Prop where
  inv : Inv false s X L
  apart : Apart t start vpn s₀ s
  sole : Private s t start vpn

theorem Growing.evicts (h : Growing s₀ X L t start vpn s)
    (hlow : ∀ v, start ≤ v → v < vpn → v < TRAPFRAME) (hinv : Inv false s' X L)
    (hev : Evicts g X s s') : Growing s₀ X L t start vpn s' :=
  ⟨hinv, h.apart.trans (hev.apart _ _ _), h.sole.evicts hlow hev⟩

theorem Growing.unwind (hE : ∀ e, E e) (h : Growing s₀ X L t start vpn s)
    (hstart : start ≤ vpn) (hlow : ∀ v, start ≤ v → v < vpn → v < TRAPFRAME) :
    wp E (do
      let _ ← uvmdealloc t (vpn * PGSIZE) (start * PGSIZE)
      pure false) s (fun r s' => ∃ L', Inv false s' X L' ∧ (r = false → Steady s₀ s')) := by
  have hspec := uvmdealloc_spec (fun e _ => hE e) h.inv t (vpn * PGSIZE) (start * PGSIZE)
    (by rw [pagesOf_mul, pagesOf_mul]; exact .of_lt hlow) (fun hc => nomatch hc)
  rw [pagesOf_mul, pagesOf_mul, Nat.max_eq_right hstart] at hspec
  refine hspec.bind fun _ s₁ h₁ => (wp_pure _).2 ⟨L, h₁.1, fun _ => ?_⟩
  exact (h.apart.trans (h₁.2.apart h.inv hlow h.sole)).steady fun v hlo hhi _ =>
    (h₁.2.inside v hlo hhi).1

theorem uvmallocLoop_spec (hE : ∀ e, E e) (n : Nat)
    (h : Growing s₀ X L t start vpn s) (hlive : s.live t = true) (htrap : Trapped s t)
    (hstart : start ≤ vpn) (hlow : ∀ v, start ≤ v → v < vpn → v < TRAPFRAME) :
    wp E (uvmallocLoop t start n vpn) s (fun r s' => ∃ L', Inv false s' X L' ∧
      (r = false → Steady s₀ s')) := by
  induction n generalizing s vpn L with
  | zero => exact ⟨L, h.inv, fun hr => nomatch hr⟩
  | succ n ih =>
    unfold uvmallocLoop
    refine (kalloc_spec (fun e _ => hE e) h.inv).bind fun r s₁ h₁ => ?_
    cases r with
    | none => exact (h.evicts hlow h₁.1 h₁.2).unwind hE hstart hlow
    | some f =>
      obtain ⟨hinv, hev, h1⟩ := h₁
      obtain ⟨hinv', hev'⟩ := hinv.write_fresh (g := false) h1 (fun _ => 0)
      have hev₂ := hev.trans hev'
      have htrap₂ := htrap.evicts hev₂
      refine (wp_bind _ _).2 ((wp_modify _).2 ((wp_bind _ _).2 ?_))
      refine (mappages_spec (fun e _ => hE e) (fun _ => hE _) hinv' (hev.live_of hlive)
        htrap₂.low rfl).mono fun r s₂ h₂ => ?_
      cases r with
      | true =>
        obtain ⟨hv, hinv₂, s₃, hg, rfl⟩ := h₂
        have hcnt : s₃.cnt f = 1 := (hg.2.hand f (Multiset.mem_cons_self f X)).2.trans h1
        have hev₃ :=
          hev₂.grow.trans (hg.2.weaken (X := X) fun f' hf' => Multiset.mem_cons_of_mem hf')
        have hnew : vpn < TRAPFRAME :=
          htrap₂.low hv (hinv₂.shaped.used t vpn (.inl (by rw [setPte_self]))).1
        have hlow' : ∀ v, start ≤ v → v < vpn + 1 → v < TRAPFRAME := fun v _ hhi => by omega
        rw [if_pos rfl]
        refine ih ⟨hinv₂, ?_, fun v hlo hhi hval => ?_⟩ (hev₃.live_of hlive)
          ((htrap.evicts hev₃).setPte rfl) (hstart.trans (Nat.le_succ vpn)) hlow'
        · exact ((h.apart.trans (hev₃.apart _ _ _)).widen (Nat.le_succ vpn)).trans
            (.setPte hstart (Nat.lt_succ_self vpn))
        · by_cases hv : v = vpn
          · subst hv
            rw [setPte_self]
            exact hcnt
          · have hne : ¬ (t = t ∧ v = vpn) := fun he => hv he.2
            rw [setPte_of_ne hne] at hval ⊢
            exact h.sole.evicts hlow hev₃ v hlo (by omega) hval
      | false =>
        have hcnt : s₂.cnt f = 1 := (h₂.2.2.hand f (Multiset.mem_cons_self f X)).2.trans h1
        have hev₃ := h₂.2.2.weaken (X := X) fun f' hf' => Multiset.mem_cons_of_mem hf'
        refine (kfree_spec h₂.2.1).bind fun _ s₃ h₃ => ?_
        have hev₄ := h₃.2.evicts (g := true) h₂.2.1 hcnt
        exact (h.evicts hlow h₃.1 ((hev₂.grow.trans hev₃).trans hev₄)).unwind hE hstart hlow

theorem uvmalloc_spec (hE : ∀ e, E e) (h : Inv false s X L) (hlive : s.live t = true)
    (htrap : Trapped s t) (oldsz newsz : Nat) :
    wp E (uvmalloc t oldsz newsz) s (fun r s' => ∃ L', Inv false s' X L' ∧
      (r = none → Steady s s')) := by
  unfold uvmalloc
  rw [wp_ite]
  split
  · exact ⟨L, h, fun hr => nomatch hr⟩
  · have hstart : Growing s X L t (pagesOf oldsz) (pagesOf oldsz) s :=
      ⟨h, (Evicts.refl (g := false) X s).apart _ _ _, fun v hlo hhi => (Nat.not_lt.2 hlo hhi).elim⟩
    refine (uvmallocLoop_spec hE (pagesOf newsz - pagesOf oldsz) hstart hlive htrap
      (Nat.le_refl _) fun v hlo hhi => (Nat.not_lt.2 hlo hhi).elim).bind fun r s₁ h₁ => ?_
    obtain ⟨L', hinv, hsteady⟩ := h₁
    cases r with
    | true => exact ⟨L', hinv, fun hr => nomatch hr⟩
    | false => exact ⟨L', hinv, fun _ => hsteady rfl⟩

end OopsOS.Pg
