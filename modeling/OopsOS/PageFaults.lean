import OopsOS.PageSharing

namespace OopsOS.Pg
set_option autoImplicit true

variable {s s' s'' : PgState} {X L : Multiset Nat} {t vpn f va : Nat} {e perm : Pte} {c : Bool}
  {E : Panic → Prop} {g : Bool} {cause : Cause} {d : Page}

def Mapped (c : Bool) (X L : Multiset Nat) (t vpn f : Nat) (d : Page) (perm : Pte) (s : PgState) :
    Bool → PgState → Prop
  | true, s' => (s.pte t vpn).valid = false ∧ Inv c s' X (nonzero (s.pte t vpn).slot + L) ∧
      ∃ s₁, Grown c (f ::ₘ X) L (s.setData f d) s₁ ∧
        s' = s₁.setPte t vpn { perm with valid := true, num := f }
  | false, s' => ¬ s.Reached t vpn ∧ Inv c s' X L ∧ Evicts true X s s'

theorem mapFresh_spec (hE : ∀ e, e ≠ .remap → E e) (hR : (s.pte t vpn).valid = true → E .remap)
    (h : Inv c s (f ::ₘ X) L) (h1 : s.cnt f = 1) (hlive : s.live t = true)
    (hlt : (s.pte t vpn).valid = false → vpn < NVPN → vpn < TRAPFRAME)
    (hperm : perm.swapped = false) :
    wp E (mapFresh t vpn f d perm) s (Mapped c X L t vpn f d perm s) := by
  obtain ⟨hinv, hev⟩ := h.write_fresh (g := true) h1 d
  unfold mapFresh
  rw [wp_bind, wp_setData, wp_bind]
  refine (mappages_spec (s := s.setData f d) hE hR hinv hlive hlt hperm).mono fun r s₁ h₁ => ?_
  cases r with
  | true =>
    obtain ⟨hv, hinv₁, s₂, hg, rfl⟩ := h₁
    exact ⟨hv, hinv₁, s₂, hg, rfl⟩
  | false =>
    have hcnt : s₁.cnt f = 1 := (h₁.2.2.hand f (Multiset.mem_cons_self f X)).2.trans h1
    have hev₁ := hev.trans (h₁.2.2.weaken (X := X) fun f' hf' => Multiset.mem_cons_of_mem hf')
    refine (kfree_spec h₁.2.1).bind fun _ s₂ h₂ => (wp_pure _).2 ⟨h₁.1, h₂.1, ?_⟩
    exact hev₁.trans (h₂.2.evicts (g := true) h₁.2.1 hcnt)

/-- A page that the handlers supply: its bytes and flags, and whether a file is read for it. -/
structure Supply where
  bytes : Page
  perm : Pte
  reads : Bool

def supply (s : PgState) (va : Nat) (cause : Cause) : Option Supply :=
  if NVPN ≤ va / PGSIZE then none
  else
    match vmaCovering (s.proc s.cur) va with
    | some v =>
      if v.allows cause = false ∨ v.fillable cause = false then none
      else some ⟨v.bytes va, v.perm,
        decide (v.vfile.isSome = true ∧ (va - v.addr) / PGSIZE * PGSIZE < v.filesz)⟩
    | none =>
      if lazyRange (s.proc s.cur).sp (s.proc s.cur).sz va = true then some
        ⟨fun _ => 0, .rwxu, false⟩
      else none

def readIf (b : Bool) : PgM Unit := if b = true then bread else pure ()

def provide (t vpn : Nat) : Option Supply → PgM Bool
  | none => pure false
  | some p => do
    match ← kalloc with
    | none => pure false
    | some f => do
      readIf p.reads
      mapFresh t vpn f p.bytes p.perm

def supplyPage (t sp sz va : Nat) (cause : Cause) : PgM Bool := do
  let r ← mmapHandler va cause
  if r = 0 then pure true
  else if r < 0 then pure false
  else if lazyRange sp sz va = true then lazyAlloc t va
  else pure false

theorem wp_supplyPage {Q : Bool → PgState → Prop} (ht : s.root s.cur = t)
    (hsp : (s.proc s.cur).sp = sp) (hsz : (s.proc s.cur).sz = sz)
    (h : wp E (provide t (va / PGSIZE) (supply s va cause)) s Q) :
    wp E (supplyPage t sp sz va cause) s Q := by
  unfold supplyPage mmapHandler
  rw [wp_bind, wp_bind, wp_get]
  unfold supply at h
  rw [hsp, hsz] at h
  by_cases hlt : NVPN ≤ va / PGSIZE
  · rw [if_pos hlt] at h ⊢
    exact h
  · rw [if_neg hlt] at h ⊢
    cases hv : vmaCovering (s.proc s.cur) va with
    | none =>
      rw [hv] at h
      refine (wp_pure _).2 ?_
      rw [if_neg (by decide), if_neg (by decide)]
      by_cases hlazy : lazyRange sp sz va = true
      · rw [if_pos hlazy]
        simp only [if_pos hlazy] at h
        unfold provide at h
        rw [wp_bind] at h
        unfold lazyAlloc
        exact h.bind fun r s₁ h₁ => by cases r <;> exact h₁
      · rw [if_neg hlazy]
        simp only [if_neg hlazy] at h
        exact h
    | some v =>
      rw [hv] at h
      by_cases ha : v.allows cause = false ∨ v.fillable cause = false
      · simp only [if_pos ha] at h ⊢
        exact h
      · simp only [if_neg ha] at h ⊢
        unfold provide at h
        rw [wp_bind] at h ⊢
        refine h.mono fun r s₁ h₁ => ?_
        cases r with
        | none => exact h₁
        | some f =>
          have hread : readFile v va = readIf (decide (v.vfile.isSome = true ∧
              (va - v.addr) / PGSIZE * PGSIZE < v.filesz)) := by
            unfold readFile readIf
            simp only [decide_eq_true_eq]
          show wp E (readFile v va >>= _) s₁ _
          rw [wp_bind] at h₁ ⊢
          rw [hread]
          refine h₁.mono fun _ s₂ h₂ => ?_
          rw [wp_bind, ht]
          refine h₂.mono fun r s₃ h₃ => ?_
          cases r <;> exact h₃

theorem wp_ensureUserPage {Q : Bool → PgState → Prop} (hno : s.root s.cur ≠ t → Q false s)
    (h : s.root s.cur = t → wp E (provide t (va / PGSIZE) (supply s va cause)) s Q) :
    wp E (ensureUserPage t va cause) s Q := by
  unfold ensureUserPage
  rw [wp_bind, wp_get, wp_ite]
  split
  · next hne => exact hno hne
  · next ht => exact wp_supplyPage (not_not.1 ht) rfl rfl (h (not_not.1 ht))

theorem wp_faultAbsent {Q : Unit → PgState → Prop}
    (h : wp E (provide (s.root s.cur) (va / PGSIZE) (supply s va cause)) s
      (fun r s' => wp E (killUnless r) s' Q)) : wp E (faultAbsent va cause) s Q := by
  have hs := wp_supplyPage (s := s) rfl rfl rfl h
  unfold supplyPage at hs
  unfold faultAbsent
  rw [wp_bind] at hs
  rw [wp_bind, wp_get, wp_bind]
  refine hs.mono fun r s₁ h₁ => ?_
  by_cases h0 : r = 0
  · rw [if_pos h0] at h₁ ⊢
    exact h₁
  · rw [if_neg h0] at h₁ ⊢
    by_cases hneg : r < 0
    · rw [if_pos hneg] at h₁ ⊢
      exact h₁
    · rw [if_neg hneg] at h₁ ⊢
      by_cases hlazy : lazyRange (s.proc s.cur).sp (s.proc s.cur).sz va = true
      · rw [if_pos hlazy] at h₁ ⊢
        exact (wp_bind _ _).2 h₁
      · rw [if_neg hlazy] at h₁ ⊢
        exact h₁

/-- A page that was supplied, with the state in which its frame had been allocated. -/
structure Supplied (c : Bool) (X L : Multiset Nat) (t vpn f : Nat) (p : Supply)
    (s s₁ s' : PgState) : Prop where
  alloc : kalloc s = .ok (some f, s₁)
  before : Inv c s₁ (f ::ₘ X) L
  reclaim : Evicts false X s s₁
  fresh : s₁.cnt f = 1
  invalid : (s₁.pte t vpn).valid = false
  inv : Inv c s' X (nonzero (s₁.pte t vpn).slot + L)
  result : ∃ env s₂, Grown c (f ::ₘ X) L ((s₁.setEnv env).setData f p.bytes) s₂ ∧
    s' = s₂.setPte t vpn { p.perm with valid := true, num := f }

def Provides (c : Bool) (X L : Multiset Nat) (t vpn : Nat) (o : Option Supply) (s : PgState) :
    Bool → PgState → Prop
  | true, s' => ∃ p f s₁, o = some p ∧ Supplied c X L t vpn f p s s₁ s'
  | false, s' => Grown c X L s s' ∧
      ∀ p f s₁, o = some p → kalloc s = .ok (some f, s₁) → ¬ s₁.Reached t vpn

theorem wp_readIf {Q : Unit → PgState → Prop} (hE : E .schedLocks) (b : Bool)
    (h : ∀ env, Q () (s.setEnv env)) : wp E (readIf b) s Q := by
  cases b with
  | true => exact wp_bread hE h
  | false => exact h s.env

theorem supply_unswapped (hp : supply s va cause = some p) : p.perm.swapped = false := by
  unfold supply at hp
  split at hp
  · cases hp
  · split at hp
    · split at hp
      · cases hp
      · cases hp
        rfl
    · split at hp
      · cases hp
        rfl
      · cases hp

theorem provide_spec (hE : ∀ e, e ≠ .remap → E e) (h : Inv c s X L) (hlive : s.live t = true)
    (htrap : Trapped s t) (ho : ∀ p, o = some p → p.perm.swapped = false)
    (hR : ∀ p f s₁ s₂, o = some p → kalloc s = .ok (some f, s₁) → readIf p.reads s₁ = .ok ((), s₂) →
      (s₁.pte t vpn).valid = true → E .remap) :
    wp E (provide t vpn o) s (Provides c X L t vpn o s) := by
  cases o with
  | none => exact ⟨⟨h, .refl X s⟩, fun p _ _ hp => nomatch hp⟩
  | some p =>
    unfold provide
    refine (kalloc_spec hE h).run.bind fun r s₁ h₁ => ?_
    obtain ⟨hrun, h₁⟩ := h₁
    cases r with
    | none =>
      refine ⟨⟨h₁.1, h₁.2.grow⟩, fun p f s₂ _ hk => ?_⟩
      rw [hrun] at hk
      cases hk
    | some f =>
      obtain ⟨hinv, hev, h1⟩ := h₁
      have hread : wp E (readIf p.reads) s₁ (fun _ s₂ => ∃ env, s₂ = s₁.setEnv env) :=
        wp_readIf (hE _ (by decide)) _ fun env => ⟨env, rfl⟩
      refine hread.run.bind fun _ s₂ h₂ => ?_
      obtain ⟨hrun₂, env, rfl⟩ := h₂
      refine (mapFresh_spec (s := s₁.setEnv env) hE (hR p f s₁ _ rfl hrun hrun₂) (hinv.env env) h1
        (hev.live_of hlive) (htrap.evicts hev).low (ho p rfl)).mono fun r s₃ h₃ => ?_
      cases r with
      | true =>
        obtain ⟨hv, hinv₃, s₄, hg, hs₃⟩ := h₃
        exact ⟨p, f, s₁, rfl, hrun, hinv, hev, h1, hv, hinv₃, env, s₄, hg, hs₃⟩
      | false =>
        refine ⟨⟨h₃.2.1, (hev.trans (.env X s₁ env)).grow.trans h₃.2.2⟩, fun p f s₂ _ hk => ?_⟩
        rw [hrun] at hk
        cases hk
        exact h₃.1

theorem Pte.of_userFrame (h : e.userFrame = some f) :
    e.valid = true ∧ e.user = true ∧ e.num = f := by
  unfold Pte.userFrame at h
  split at h
  · next hv =>
    cases h
    exact ⟨hv.1, hv.2, rfl⟩
  · cases h

theorem Walked.found (h : Walked c X L t vpn s (some f) s') :
    (s'.pte t vpn).valid = true ∧ (s'.pte t vpn).user = true ∧ (s'.pte t vpn).num = f := by
  rcases h with ⟨rfl, hr, -⟩ | ⟨hr, -⟩ | ⟨hr, -⟩
  · exact Pte.of_userFrame hr.symm
  · cases hr
  · exact Pte.of_userFrame hr.symm

theorem Shaped.low_of_user (h : Shaped s) (hu : (s.pte t vpn).user = true) : vpn < TRAPFRAME := by
  by_contra hle
  have hn := (h.high t vpn (Nat.le_of_not_lt hle)).1
  exact Bool.false_ne_true (hn.symm.trans hu)

theorem Inv.move (h : Inv c s (f ::ₘ X) L) (hold : (s.pte t vpn).valid = true)
    (hlt : vpn < TRAPFRAME) (hp : e.valid = true) (hs : e.swapped = false) (hn : e.num = f) :
    Inv c (s.setPte t vpn e) ((s.pte t vpn).num ::ₘ X) L := by
  have h' := h.storeFrame (h.shaped.live_of_used (.inl hold)) hlt
    (h.shaped.used t vpn (.inl hold)).2 hp hs hn
  rwa [Pte.frame_of_valid hold hlt, Pte.slot_of_valid hold, nonzero_of_ne
    (h.shaped.mapped t vpn hold hlt), nonzero_zero, zero_add, Multiset.singleton_add] at h'

theorem setPte_setPte : (s.setPte t vpn e).setPte t vpn e' = s.setPte t vpn e' := by
  unfold PgState.setPte
  simp

def Pte.owned (e : Pte) : Pte := { e with write := true, cow := false }

def Copied (c : Bool) (X L : Multiset Nat) (t vpn f : Nat) (s : PgState) :
    Option Nat → PgState → Prop
  | none, s' => Next c X L s s'
  | some g, s' => Inv c s' X L ∧ ∃ s₁, Alloced c X L s (some g) s₁ ∧
      Frees f ((s₁.setData g (s₁.data f)).setPte t vpn
        { (s₁.pte t vpn).owned with valid := true, num := g }) s'

theorem Evicts.kept (h : Evicts g X s s') (hv : (s.pte t vpn).valid = true) (hlt : vpn < TRAPFRAME)
    (hk : s.cnt (s.pte t vpn).num ≠ 1) :
    (s'.pte t vpn).core = (s.pte t vpn).core ∧ s'.cnt (s.pte t vpn).num = s.cnt (s.pte t vpn).num ∧
      s'.data (s.pte t vpn).num = s.data (s.pte t vpn).num := by
  cases h.entry t vpn with
  | kept he hp => exact ⟨he, hp hv hlt⟩
  | dropped hold => exact (hk hold.sole).elim
  | swapped k hold => exact (hk hold.sole).elim

theorem cowCopy_spec (hE : ∀ e, e ≠ .remap → E e) (h : Inv c s X L)
    (hv : (s.pte t vpn).valid = true)
    (hlt : vpn < TRAPFRAME) (hnum : (s.pte t vpn).num = f) (hk : s.cnt f ≠ 1) :
    wp E (cowCopy t vpn f) s (Copied c X L t vpn f s) := by
  subst hnum
  unfold cowCopy
  refine (kalloc_spec hE h).bind fun r s₁ h₁ => ?_
  cases r with
  | none => exact h₁
  | some g =>
    have halloc := h₁
    obtain ⟨hinv, hev, h1⟩ := h₁
    obtain ⟨hcore, -, -⟩ := hev.kept hv hlt hk
    have hv₁ : (s₁.pte t vpn).valid = true := (Pte.core_valid hcore).trans hv
    have hnum : (s₁.pte t vpn).num = (s.pte t vpn).num := Pte.core_num hcore
    have hused := hinv.shaped.used t vpn (.inl hv₁)
    obtain ⟨hinv', -⟩ := hinv.write_fresh (g := false) h1 (s₁.data (s.pte t vpn).num)
    have hmove := hinv'.move (e := { (s₁.pte t vpn).owned with valid := true, num := g }) hv₁ hlt
      rfl (hinv.shaped.single t vpn hv₁) rfl
    refine (wp_bind _ _).2 (wp_get.2 ((wp_bind _ _).2 (wp_setData.2 ((wp_bind _ _).2 (wp_setPte.2
      ((wp_bind _ _).2 ?_))))))
    apply wp_mappages hused.1
    · unfold PgState.Reached
      rw [setPte_node]
      exact hused.2
    · rw [setPte_self]
    · rw [if_pos rfl, setPte_setPte, wp_bind]
      have hmove' : Inv c ((s₁.setData g (s₁.data (s.pte t vpn).num)).setPte t vpn
          { (s₁.pte t vpn).owned with valid := true, num := g }) ((s.pte t vpn).num ::ₘ X) L := by
        rw [← hnum]
        rw [← hnum] at hmove
        exact hmove
      exact (kfree_spec hmove').mono fun _ s₂ h₂ => (wp_pure _).2 ⟨h₂.1, s₁, halloc, h₂.2⟩

inductive Cowed (c : Bool) (X L : Multiset Nat) (t vpn : Nat) (s : PgState) :
    Option Nat → PgState → Prop
  | absent {s₁ : PgState} (walked : Walked c X L t vpn s none s₁) : Cowed c X L t vpn s none s₁
  | sole {f : Nat} {s₁ : PgState} (walked : Walked c X L t vpn s (some f) s₁) (one : s₁.cnt f = 1)
      (inv : Inv c (s₁.setPte t vpn (s₁.pte t vpn).owned) X L) :
      Cowed c X L t vpn s (some f) (s₁.setPte t vpn (s₁.pte t vpn).owned)
  | copied {f : Nat} {s₁ s₂ : PgState} {r : Option Nat} (walked : Walked c X L t vpn s (some f) s₁)
      (more : s₁.cnt f ≠ 1) (copied : Copied c X L t vpn f s₁ r s₂) : Cowed c X L t vpn s r s₂

theorem cowalloc_spec (hE : ∀ e, e ≠ .remap → E e) (h : Inv c s X L) :
    wp E (cowalloc t vpn) s (Cowed c X L t vpn s) := by
  unfold cowalloc
  refine (walkaddr_spec hE h).bind fun r s₁ hw => ?_
  cases r with
  | none => exact .absent hw
  | some f =>
    have hinv := hw.inv h
    obtain ⟨hv, hu, hnum⟩ := hw.found
    have hlt := hinv.shaped.low_of_user hu
    refine (wp_bind _ _).2 (wp_get.2 ?_)
    rw [wp_ite]
    split
    · next h1 =>
      exact .sole hw h1
        (hinv.setFlags (.inl hv) rfl rfl rfl (fun _ => hu) fun hle => (Nat.not_le.2 hlt hle).elim)
    · next hk => exact (cowCopy_spec hE hinv hv hlt hnum hk).mono fun r s₂ hc => .copied hw hk hc

theorem Copied.inv (h : Copied c X L t vpn f s r s') : Inv c s' X L := by
  cases r with
  | none => exact h.1
  | some g => exact h.1

theorem Cowed.inv (h : Inv c s X L) (hc : Cowed c X L t vpn s r s') : Inv c s' X L := by
  cases hc with
  | absent hw => exact hw.inv h
  | sole _ _ hinv => exact hinv
  | copied _ _ hc => exact hc.inv

theorem Touches.proc_sp (h : Touches g X s s') (p : ProcSlot) : (s'.proc p).sp = (s.proc p).sp :=
  (Proc.mk.inj (h.proc p)).2.2.1

theorem Touches.supply (h : Touches g X s s') : supply s' va cause = Pg.supply s va cause := by
  unfold Pg.supply vmaCovering
  rw [h.cur, h.vma, h.proc_sp, h.proc_sz]

theorem supply_flags (hp : supply s va cause = some p) :
    p.perm.user = true ∧ p.perm.cow = false := by
  unfold supply at hp
  split at hp
  · cases hp
  · split at hp
    · split at hp
      · cases hp
      · cases hp
        exact ⟨rfl, rfl⟩
    · split at hp
      · cases hp
        exact ⟨rfl, rfl⟩
      · cases hp

def Clash (s : PgState) (t va : Nat) (cause : Cause) : Prop :=
  ∃ p f s₁ s₂, supply s va cause = some p ∧ kalloc s = .ok (some f, s₁) ∧
    readIf p.reads s₁ = .ok ((), s₂) ∧ (s₁.pte t (va / PGSIZE)).valid = true

theorem Shaped.running (h : Shaped s) (hroot : s.root s.cur ≠ 0) :
    s.live (s.root s.cur) = true ∧ Trapped s (s.root s.cur) := h.roots s.cur hroot

theorem supply_spec (hE : ∀ e, e ≠ .remap → E e) (h : Inv c s X L) (hroot : s.root s.cur ≠ 0)
    (hR : Clash s (s.root s.cur) va cause → E .remap) :
    wp E (provide (s.root s.cur) (va / PGSIZE) (supply s va cause)) s
      (Provides c X L (s.root s.cur) (va / PGSIZE) (supply s va cause) s) := by
  obtain ⟨hlive, htrap⟩ := h.shaped.running hroot
  exact provide_spec hE h hlive htrap (fun p hp => supply_unswapped hp)
    fun p f s₁ s₂ hp hk hread hv =>
    hR ⟨p, f, s₁, s₂, hp, hk, hread, hv⟩

def Refused (s s₁ : PgState) (t va : Nat) (cause : Cause) : Prop :=
  ∀ p f s₂, s.root s.cur = t → supply s va cause = some p → kalloc s₁ = .ok (some f, s₂) →
    ¬ s₂.Reached t (va / PGSIZE)

inductive Prepared (c : Bool) (X L : Multiset Nat) (t va : Nat) (cause : Cause) (s : PgState) :
    Option Nat → PgState → Prop
  | present {f : Nat} {s₁ : PgState} (walked : Walked c X L t (va / PGSIZE) s (some f) s₁) :
      Prepared c X L t va cause s (some f) s₁
  | missing {s₁ s₂ : PgState} (walked : Walked c X L t (va / PGSIZE) s none s₁)
      (grown : Grown c X L s₁ s₂) (refused : Refused s s₁ t va cause) :
        Prepared c X L t va cause s none s₂
  | supplied {f : Nat} {p : Supply} {s₁ s₂ s₃ : PgState}
      (walked : Walked c X L t (va / PGSIZE) s none s₁) (root : s.root s.cur = t)
      (what : supply s va cause = some p)
      (supplied : Supplied c X L t (va / PGSIZE) f p s₁ s₂ s₃) :
        Prepared c X L t va cause s (some f) s₃

theorem BroughtBack.entry (h : BroughtBack c X L t vpn f s s₁ s') :
    s'.pte t vpn = (s₁.pte t vpn).toFrame f := by
  obtain ⟨x, env, rfl⟩ := h.result
  exact setPte_self

theorem Walked.missing (h : Inv c s X L) (hw : Walked c X L t vpn s none s') :
    Next c X L s s' ∧ ((s.pte t vpn).swapped = true → Stuck t vpn s s') ∧
      ((s.pte t vpn).swapped = false → s' = s ∧ (s.pte t vpn).userFrame = none) := by
  rcases hw with ⟨rfl, hr, hs⟩ | ⟨-, hs, hn, hstuck⟩ | ⟨hr, hs, f, s₁, hb⟩
  · exact ⟨⟨h, .refl X _⟩, fun hs' => (Bool.false_ne_true (hs.symm.trans hs')).elim,
      fun _ => ⟨rfl, hr.symm⟩⟩
  · exact ⟨hn, fun _ => hstuck, fun hs' => (Bool.false_ne_true (hs'.symm.trans hs)).elim⟩
  · have hu := hb.before.shaped.user t vpn hb.swapped
    rw [hb.entry] at hr
    unfold Pte.userFrame at hr
    rw [if_pos ⟨rfl, hu⟩] at hr
    cases hr

theorem Supplied.entry (h : Supplied c X L t vpn f p s s₁ s') :
    s'.pte t vpn = { p.perm with valid := true, num := f } := by
  obtain ⟨env, s₂, -, rfl⟩ := h.result
  exact setPte_self

theorem Supplied.walkaddr (hE : ∀ e, e ≠ .remap → E e) (h : Supplied c X L t vpn f p s s₁ s')
    (hu : p.perm.user = true) : wp E (walkaddr t vpn) s' (fun r s'' => r = some f ∧ s'' = s') := by
  have hentry := h.entry
  refine (walkaddr_spec hE h.inv).mono fun r s'' hw => ?_
  have hs := h.inv.shaped.single t vpn (by rw [hentry])
  rcases hw with ⟨rfl, hr, -⟩ | ⟨-, hs', -⟩ | ⟨-, hs', -⟩
  · rw [hentry] at hr
    exact ⟨hr.trans (if_pos ⟨rfl, hu⟩), rfl⟩
  · exact (Bool.false_ne_true (hs.symm.trans hs')).elim
  · exact (Bool.false_ne_true (hs.symm.trans hs')).elim

theorem cowpage_spec (h : Shaped s) :
    wp E (cowpage t vpn) s
    (fun r s' => r = ((s.pte t vpn).valid && (s.pte t vpn).cow) ∧ s' = s) := by
  have hno (hn : ¬ (vpn < NVPN ∧ s.Reached t vpn)) :
      false = ((s.pte t vpn).valid && (s.pte t vpn).cow) := by
    have hv : (s.pte t vpn).valid = false :=
      Bool.eq_false_of_not_eq_true fun hv => hn (h.used t vpn (.inl hv))
    rw [hv]
    rfl
  unfold cowpage
  rw [wp_ite]
  split
  · next hle => exact ⟨hno fun hr => Nat.not_le.2 hr.1 hle, rfl⟩
  · next hlt =>
    rw [wp_bind]
    exact wp_lookup (fun hle => (hlt hle).elim) (fun _ hn => ⟨hno fun hr => hn hr.2, rfl⟩)
      fun _ _ => ⟨rfl, rfl⟩

section faults
variable (hE : ∀ e, e ≠ .remap → E e) (h : Inv c s X L) (hroot : s.root s.cur ≠ 0)
include hE h hroot

theorem supply_missing (hw : Walked c X L t (va / PGSIZE) s none s') (ht : s'.root s'.cur = t)
    (hR : (s.pte t (va / PGSIZE)).userFrame = none → s.root s.cur = t → Clash s t va cause →
      E .remap) :
    wp E (provide t (va / PGSIZE) (supply s' va cause)) s' (fun r s'' =>
      r = false ∧ Grown c X L s' s'' ∧ Refused s s' t va cause ∨
      r = true ∧ s.root s.cur = t ∧ ∃ p f s₁, supply s va cause = some p ∧
        Supplied c X L t (va / PGSIZE) f p s' s₁ s'') := by
  obtain ⟨hn, -, hsame⟩ := hw.missing h
  have hcur : s'.root s'.cur = s.root s.cur := by
    rw [hn.2.cur, hn.2.root]
  have hroot' : s'.root s'.cur ≠ 0 := by
    rw [hcur]
    exact hroot
  subst ht
  refine (supply_spec hE hn.1 hroot' fun hc => ?_).mono fun r s'' hp => ?_
  · by_cases hs : (s.pte (s'.root s'.cur) (va / PGSIZE)).swapped = true
    · obtain ⟨p, f, s₁, s₂, -, hk, -, hv⟩ := hc
      have hv₀ := h.shaped.swapped_invalid hs
      have hv' := (Pte.core_valid (hn.2.invalid hv₀)).trans hv₀
      have hkeep := (kalloc_spec (E := fun _ => True) (fun _ _ => trivial) hn.1).of_ok hk
      have hv₁ := (Pte.core_valid (hkeep.2.1.invalid hv')).trans hv'
      exact (Bool.false_ne_true (hv₁.symm.trans hv)).elim
    · obtain ⟨rfl, hu⟩ := hsame (Bool.eq_false_of_not_eq_true hs)
      exact hR hu rfl hc
  · cases r with
    | false =>
      refine .inl ⟨rfl, hp.1, fun p f s₁ _ hsup hk => ?_⟩
      rw [← hn.2.supply] at hsup
      exact hp.2 p f s₁ hsup hk
    | true =>
      obtain ⟨p, f, s₁, hp, hsup⟩ := hp
      rw [hn.2.supply] at hp
      exact .inr ⟨rfl, hcur.symm, p, f, s₁, hp, hsup⟩

theorem ensureUserPage_spec (hw : Walked c X L t (va / PGSIZE) s none s')
    (hR : (s.pte t (va / PGSIZE)).userFrame = none → s.root s.cur = t → Clash s t va cause →
      E .remap) :
    wp E (ensureUserPage t va cause) s' (fun r s'' =>
      r = false ∧ Grown c X L s' s'' ∧ Refused s s' t va cause ∨
      r = true ∧ s.root s.cur = t ∧ ∃ p f s₁, supply s va cause = some p ∧
        Supplied c X L t (va / PGSIZE) f p s' s₁ s'') := by
  obtain ⟨hn, -⟩ := hw.missing h
  refine wp_ensureUserPage (fun hne => .inl ⟨rfl, ⟨hn.1, .refl X s'⟩, fun _ _ _ ht => ?_⟩) fun ht =>
    supply_missing hE h hroot hw ht hR
  rw [hn.2.cur, hn.2.root] at hne
  exact (hne ht).elim

theorem preparePage_spec (hR : (s.pte t (va / PGSIZE)).userFrame = none → s.root s.cur = t →
      Clash s t va cause → E .remap) :
    wp E (preparePage t va cause) s (Prepared c X L t va cause s) := by
  unfold preparePage
  refine (walkaddr_spec hE h).bind fun r s₁ hw => ?_
  cases r with
  | some f => exact .present hw
  | none =>
    refine (ensureUserPage_spec hE h hroot hw hR).bind fun r s₂ h₂ => ?_
    rcases h₂ with ⟨rfl, hg, hno⟩ | ⟨rfl, ht, p, f, s₃, hp, hsup⟩
    · exact .missing hw hg hno
    · rw [if_pos rfl]
      refine (hsup.walkaddr hE (supply_flags hp).1).mono fun r s₄ h₄ => ?_
      obtain ⟨rfl, rfl⟩ := h₄
      exact .supplied hw ht hp hsup

inductive Opened (c : Bool) (X L : Multiset Nat) (t va : Nat) (s : PgState) :
    Option Nat → PgState → Prop
  | present {f : Nat} {s₁ : PgState} (walked : Walked c X L t (va / PGSIZE) s (some f) s₁)
      (plain : (s₁.pte t (va / PGSIZE)).cow = false) : Opened c X L t va s (some f) s₁
  | cowed {f : Nat} {r : Option Nat} {s₁ s₂ : PgState}
      (walked : Walked c X L t (va / PGSIZE) s (some f) s₁)
      (cow : (s₁.pte t (va / PGSIZE)).cow = true)
      (cowed : Cowed c X L t (va / PGSIZE) s₁ r s₂) : Opened c X L t va s r s₂
  | missing {s₁ s₂ : PgState} (walked : Walked c X L t (va / PGSIZE) s none s₁)
      (grown : Grown c X L s₁ s₂) (refused : Refused s s₁ t va .store) : Opened c X L t va s none s₂
  | supplied {f : Nat} {p : Supply} {s₁ s₂ s₃ : PgState}
      (walked : Walked c X L t (va / PGSIZE) s none s₁) (root : s.root s.cur = t)
      (what : supply s va .store = some p)
      (supplied : Supplied c X L t (va / PGSIZE) f p s₁ s₂ s₃) : Opened c X L t va s (some f) s₃

theorem outPage_spec (hR : (s.pte t (va / PGSIZE)).userFrame = none → s.root s.cur = t →
      Clash s t va .store → E .remap) :
    wp E (outPage t va) s (Opened c X L t va s) := by
  unfold outPage
  refine (walkaddr_spec hE h).bind fun r s₁ hw => ?_
  cases r with
  | some f =>
    have hinv := hw.inv h
    refine (cowpage_spec hinv.shaped).bind fun r s₂ h₂ => ?_
    obtain ⟨hr, rfl⟩ := h₂
    rw [hw.found.1, Bool.true_and] at hr
    cases r with
    | true =>
      rw [if_pos rfl]
      exact (cowalloc_spec hE hinv).mono fun r s₃ hc => .cowed hw hr.symm hc
    | false => exact .present hw hr.symm
  | none =>
    refine (ensureUserPage_spec hE h hroot hw hR).bind fun r s₂ h₂ => ?_
    rcases h₂ with ⟨rfl, hg, hno⟩ | ⟨rfl, ht, p, f, s₃, hp, hsup⟩
    · exact .missing hw hg hno
    · rw [if_pos rfl]
      obtain ⟨hu, hcow⟩ := supply_flags hp
      refine (hsup.walkaddr hE hu).bind fun r s₄ h₄ => ?_
      obtain ⟨rfl, rfl⟩ := h₄
      refine (cowpage_spec hsup.inv.shaped).bind fun r s₅ h₅ => ?_
      obtain ⟨rfl, rfl⟩ := h₅
      rw [hsup.entry]
      show wp E (if (true && p.perm.cow) = true then _ else _) _ _
      rw [hcow, if_neg (by decide)]
      exact .supplied hw ht hp hsup

theorem argaddr_spec (hR : (s.pte (s.root s.cur) (va / PGSIZE)).userFrame = none →
      Clash s (s.root s.cur) va .load → E .remap) :
    wp E (argaddr va) s (fun r s' => va = 0 ∧ r = true ∧ s' = s ∨
      va ≠ 0 ∧ ∃ r', Prepared c X L (s.root s.cur) va .load s r' s' ∧ r = r'.isSome) := by
  unfold argaddr
  rw [wp_ite]
  split
  · next h0 => exact .inl ⟨h0, rfl, rfl⟩
  · next h0 =>
    rw [wp_bind, wp_get, wp_bind]
    refine (walkaddr_spec hE h).mono fun r s₁ hw => ?_
    cases r with
    | some f => exact .inr ⟨h0, _, .present hw, rfl⟩
    | none =>
      obtain ⟨hn, -⟩ := hw.missing h
      have hcur : s₁.root s₁.cur = s.root s.cur := by
        rw [hn.2.cur, hn.2.root]
      have hproc : (s₁.proc s₁.cur).sp = (s.proc s.cur).sp ∧
        (s₁.proc s₁.cur).sz = (s.proc s.cur).sz := by
        rw [hn.2.cur]
        exact ⟨hn.2.proc_sp s.cur, hn.2.proc_sz s.cur⟩
      refine wp_supplyPage hcur hproc.1 hproc.2 ((supply_missing hE h hroot hw hcur fun hu _ hc =>
        hR hu hc).mono fun r s₂ h₂ => .inr ⟨h0, ?_⟩)
      rcases h₂ with ⟨rfl, hg, hno⟩ | ⟨rfl, ht, p, f, s₃, hp, hsup⟩
      · exact ⟨none, .missing hw hg hno, rfl⟩
      · exact ⟨some f, .supplied hw ht hp hsup, rfl⟩

def PgState.kill (s : PgState) : PgState :=
  s.setProc s.cur { s.proc s.cur with killed := true }

inductive Resolved (c : Bool) (X L : Multiset Nat) (va : Nat) (cause : Cause) (s : PgState) :
    Bool → PgState → Prop
  | outside (beyond : NVPN ≤ va / PGSIZE) : Resolved c X L va cause s false s
  | back {f : Nat} {s₁ s₂ : PgState}
      (swapped : (s.pte (s.root s.cur) (va / PGSIZE)).swapped = true)
      (back : BroughtBack c X L (s.root s.cur) (va / PGSIZE) f s s₁ s₂) :
      Resolved c X L va cause s true s₂
  | stuck {s₁ : PgState} (next : Next c X L s s₁)
      (why : s.swapready = true → (s.pte (s.root s.cur) (va / PGSIZE)).swapped = true) :
      Resolved c X L va cause s false s₁
  | beyond (size : (s.proc s.cur).sz ≤ va)
      (valid : (s.pte (s.root s.cur) (va / PGSIZE)).valid = true)
      (cow : (s.pte (s.root s.cur) (va / PGSIZE)).cow = true) : Resolved c X L va cause s false s
  | cowed {r : Option Nat} {s₁ : PgState}
      (valid : (s.pte (s.root s.cur) (va / PGSIZE)).valid = true)
      (cow : (s.pte (s.root s.cur) (va / PGSIZE)).cow = true)
      (cowed : Cowed c X L (s.root s.cur) (va / PGSIZE) s r s₁) :
        Resolved c X L va cause s r.isSome s₁
  | absent {r : Bool} {s₁ : PgState} (ready : s.swapready = true)
      (present : (s.pte (s.root s.cur) (va / PGSIZE)).swapped = false)
      (plain : ((s.pte (s.root s.cur) (va / PGSIZE)).valid &&
        (s.pte (s.root s.cur) (va / PGSIZE)).cow) = false)
      (provides : Provides c X L (s.root s.cur) (va / PGSIZE) (supply s va cause) s r s₁) :
      Resolved c X L va cause s r s₁

theorem pageFault_spec
    (hR : s.swapready = true → (s.pte (s.root s.cur) (va / PGSIZE)).swapped = false →
      ((s.pte (s.root s.cur) (va / PGSIZE)).valid && (s.pte (s.root s.cur) (va / PGSIZE)).cow) =
        false →
      Clash s (s.root s.cur) va cause → E .remap) :
    wp E (pageFault va cause) s (fun _ s' => ∃ ok s₁, Resolved c X L va cause s ok s₁ ∧
      s' = if ok = true then s₁ else s₁.kill) := by
  have hkill {ok : Bool} {s₁ : PgState} (hr : Resolved c X L va cause s ok s₁) :
      wp E (killUnless ok) s₁ (fun _ s' => ∃ ok s₁, Resolved c X L va cause s ok s₁ ∧
        s' = if ok = true then s₁ else s₁.kill) := by
    cases ok with
    | true => exact ⟨true, s₁, hr, rfl⟩
    | false => exact ⟨false, s₁, hr, rfl⟩
  unfold pageFault
  rw [wp_bind, wp_get]
  rw [wp_ite]
  split
  · next hle => exact ⟨false, s, .outside hle, rfl⟩
  · rw [wp_bind]
    refine (swapin_spec hE h).mono fun r s₁ h₁ => ?_
    rcases h₁ with ⟨rfl, rfl, hready, hns⟩ | ⟨rfl, hn, hstuck, -⟩ | ⟨rfl, hs, f, s₂, hb⟩
    · rw [if_neg (by decide), if_neg (by decide), wp_bind]
      refine (cowpage_spec h.shaped).mono fun r s₂ h₂ => ?_
      obtain ⟨hr, rfl⟩ := h₂
      rw [wp_ite]
      split
      · next hcow =>
        rw [hcow] at hr
        have hand := Bool.and_eq_true_iff.1 hr.symm
        rw [wp_ite]
        split
        · next hsz => exact ⟨false, s₂, .beyond hsz hand.1 hand.2, rfl⟩
        · exact (cowalloc_spec hE h).bind fun r s₃ hc => hkill (.cowed hand.1 hand.2 hc)
      · next hcow =>
        have hplain := hr.symm.trans (Bool.eq_false_of_not_eq_true hcow)
        exact wp_faultAbsent ((supply_spec hE h hroot (hR hready hns hplain)).mono fun r s₃ hp =>
          hkill (.absent hready hns hplain hp))
    · refine ⟨false, s₁, .stuck hn fun hready => ?_, rfl⟩
      rcases hstuck with ⟨hno, -⟩ | ⟨-, hs, -⟩
      · exact (Bool.false_ne_true (hno.symm.trans hready)).elim
      · exact hs
    · exact ⟨true, s₁, .back hs hb, rfl⟩

end faults

end OopsOS.Pg
