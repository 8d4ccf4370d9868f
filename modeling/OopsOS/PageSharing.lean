import OopsOS.PageSpaces

namespace OopsOS.Pg
set_option autoImplicit true
open Function
attribute [local grind =] update_apply

variable {s s' s'' : PgState} {X L : Multiset Nat} {t vpn f : Nat} {e perm : Pte} {c : Bool}
  {E : Panic → Prop} {s₀ : PgState}

def PgState.rest (s : PgState) : PgState :=
  { s with
    table := fun _ => .empty, cnt := fun _ => 0, data := fun _ _ => 0, free := fun _ => [],
    env := ⟨[], [], [], [], [], [], []⟩ }

/-- With a lock held, page-table pages are added and nothing is reclaimed. -/
structure Adds (X : Multiset Nat) (s s' : PgState) : Prop where
  rest : s'.rest = s.rest
  pte : ∀ t v, s'.pte t v = s.pte t v
  node : ∀ t m, (s.table t).node m ≠ 0 → (s'.table t).node m = (s.table t).node m
  refs : Gains (s.refs X) (s'.refs X)
  data : ∀ f ∈ s.refs X, s'.data f = s.data f

theorem Adds.refl (X : Multiset Nat) (s : PgState) : Adds X s s :=
  ⟨rfl, fun _ _ => rfl, fun _ _ _ => rfl, .refl _, fun _ _ => rfl⟩

theorem Gains.trans (h : Gains R R') (h' : Gains R' R'') : Gains R R'' := by
  obtain ⟨N, rfl, hf⟩ := h
  obtain ⟨N', rfl, hf'⟩ := h'
  refine ⟨N + N', add_assoc R N N', fun f hm => ?_⟩
  rcases Multiset.mem_add.1 hm with hm | hm
  · exact hf f hm
  · exact fun hs => hf' f hm (Multiset.mem_add.2 (.inl hs))

theorem Adds.trans (h : Adds X s s') (h' : Adds X s' s'') : Adds X s s'' where
  rest := h'.rest.trans h.rest
  pte t v := (h'.pte t v).trans (h.pte t v)
  node t m hm := by
    have h1 := h.node t m hm
    exact (h'.node t m (h1 ▸ hm)).trans h1
  refs := h.refs.trans h'.refs
  data f hm := by
    obtain ⟨N, hN, -⟩ := h.refs
    exact (h'.data f (by rw [hN]; exact Multiset.mem_add.2 (.inl hm))).trans (h.data f hm)

theorem rest_noff (h : s'.rest = s.rest) : s'.noff = s.noff :=
  (congrArg PgState.noff h :)

theorem rest_live (h : s'.rest = s.rest) : s'.live = s.live :=
  (congrArg PgState.live h :)

theorem rest_pbuf (h : s'.rest = s.rest) : s'.pbuf = s.pbuf :=
  (congrArg PgState.pbuf h :)

theorem rest_nframes (h : s'.rest = s.rest) : s'.nframes = s.nframes :=
  (congrArg PgState.nframes h :)

theorem walkNode_locked (h : Inv c s X L) (hn : 0 < s.noff) (hlive : s.live t = true)
    (hm : m.inside) (hlow : ∀ j, m = .low j → (s.table t).node (.mid (j / 512)) ≠ 0) :
    wp E (walkNode t m) s (fun r s' => Inv c s' X L ∧ Adds X s s' ∧
      (r = true → (s'.table t).node m ≠ 0)) := by
  unfold walkNode
  rw [wp_bind, wp_get, wp_ite]
  split
  · next h0 => exact ⟨h, .refl X s, fun _ => h0⟩
  · next h0 =>
    have h0 : (s.table t).node m = 0 := not_not.1 h0
    refine (kalloc_locked h hn).bind fun r s₁ h₁ => ?_
    cases r with
    | none =>
      have hs : s₁ = s.setEnv s₁.env := h₁
      rw [hs]
      exact ⟨h.env _, ⟨rfl, fun _ _ => rfl, fun _ _ _ => rfl, .refl _, fun _ _ => rfl⟩,
        fun hr => (nomatch hr)⟩
    | some f =>
      obtain ⟨hinv, ht, hf⟩ := h₁
      have honly := ht.only
      have hpte : ∀ t v, s₁.pte t v = s.pte t v := fun t v => by
        rw [honly]
        rfl
      have htable : s₁.table = s.table := by rw [honly]
      have hlive₁ : s₁.live t = true := by
        rw [honly]
        exact hlive
      have hrefs₁ : s₁.refs X = s.refs X := by
        rw [honly]
        rfl
      have hf0 : f ≠ 0 :=
        Nat.ne_of_gt (hinv.frames.range f (mem_refs_hand (Multiset.mem_cons_self f X))).1
      have hinv' := (hinv.write_fresh (g := false) ht.self (fun _ => 0)).1
      have hset := hinv'.setNode (t := t) (m := m) hlive₁ hm
        (show (s₁.table t).node m = 0 by rw [htable]; exact h0)
        (fun j hj => show (s₁.table t).node _ ≠ 0 by rw [htable]; exact hlow j hj)
      refine (wp_bind _ _).2
        ((wp_modify _).2 ((wp_bind _ _).2 ((wp_modify _).2 ((wp_pure _).2 ?_))))
      refine ⟨hset, ⟨?_, fun t' v => ?_, fun t' m' hm' => ?_, ⟨{f}, ?_, fun f' hf' => ?_⟩,
        fun f' hf' => ?_⟩, fun _ => ?_⟩
      · rw [honly]
        rfl
      · rw [setNode_pte]
        exact hpte t' v
      · rw [setNode_node, if_neg]
        · show (s₁.table t').node m' = _
          rw [htable]
        · rintro ⟨rfl, rfl⟩
          exact hm' h0
      · have hmem : t ≤ (s₁.setData f fun _ => 0).nframes ∧ m.inside :=
          ⟨(hinv'.shaped.frame t hlive₁).2, hm⟩
        rw [refs_setNode hmem (show (s₁.table t).node m = 0 by rw [htable]; exact h0) hf0,
          refs_cons]
        show f ::ₘ s₁.refs X = s.refs X + {f}
        rw [hrefs₁, add_comm, Multiset.singleton_add]
      · rw [Multiset.mem_singleton.1 hf']
        exact hf
      · have hne : f' ≠ f := fun he => hf (he ▸ hf')
        exact (update_of_ne hne _ _).trans (ht.data f' hne)
      · rw [setNode_node, if_pos ⟨rfl, rfl⟩]
        exact hf0

theorem walkAlloc_locked (hE : E .walk) (h : Inv c s X L) (hn : 0 < s.noff)
    (hlive : s.live t = true) : wp E (walkAlloc t vpn) s (fun r s' => Inv c s' X L ∧ Adds X s s' ∧
      (r = true → s'.Reached t vpn)) := by
  unfold walkAlloc
  rw [wp_ite]
  split
  · exact hE
  · next hlt =>
    have hlt : vpn < NVPN := Nat.lt_of_not_le hlt
    have hmid := Node.mid_inside hlt
    have hlow := Node.low_inside hlt
    refine (wp_bind _ _).2
      ((walkNode_locked h hn hlive hmid (fun j hj => nomatch hj)).mono fun r s₁ h₁ => ?_)
    obtain ⟨hinv, hadds, hyes⟩ := h₁
    rw [wp_ite]
    split
    · next hr =>
      have hdiv : vpn / 2 ^ 9 / 512 = vpn / 2 ^ 18 := Nat.div_div_eq_div_mul vpn (2 ^ 9) 512
      refine (walkNode_locked hinv (by rw [rest_noff hadds.rest]; exact hn)
        (by rw [rest_live hadds.rest]; exact hlive) hlow (fun j hj => ?_)).mono fun r₂ s₂ h₂ => ?_
      · cases hj
        rw [hdiv]
        exact hyes hr
      · obtain ⟨hinv₂, hadds₂, hyes₂⟩ := h₂
        refine ⟨hinv₂, hadds.trans hadds₂, fun hr₂ => ⟨?_, hyes₂ hr₂⟩⟩
        rw [hadds₂.node t _ (hyes hr)]
        exact hyes hr
    · exact ⟨hinv, hadds, fun hf => (nomatch hf)⟩

def Place.table : Place → Option Nat
  | leaf t _ => some t
  | _ => none

theorem Place.eq_leaf {k : Place} (h : k.table = some t) : ∃ v, k = .leaf t v := by
  cases k with
  | leaf t' v => exact ⟨v, congrArg (Place.leaf · v) (Option.some.inj h)⟩
  | _ => cases h

def PgState.leaves (s : PgState) (t : Nat) : Multiset Nat :=
  values ((places s.nframes).filter fun k => k.table = some t) s.held

def PgState.refsBut (s : PgState) (t : Nat) (X : Multiset Nat) : Multiset Nat :=
  values ((places s.nframes).filter fun k => ¬ k.table = some t) s.held + s.kernel + X

theorem refs_split : s.refs X = s.leaves t + s.refsBut t X := by
  unfold PgState.refs PgState.leaves PgState.refsBut
  rw [values_filter fun k => k.table = some t, add_assoc, add_assoc, add_assoc]

theorem leaves_zero (h : ∀ v, v < TRAPFRAME → (s.pte t v).valid = false) : s.leaves t = 0 := by
  apply values_eq_zero
  intro k hk
  obtain ⟨v, rfl⟩ := Place.eq_leaf (Finset.mem_filter.1 hk).2
  exact if_neg fun he => Bool.false_ne_true ((h v he.2).symm.trans he.1)

theorem leaves_congr (hn : s'.nframes = s.nframes) (h : ∀ v, s'.pte t v = s.pte t v) :
    s'.leaves t = s.leaves t := by
  unfold PgState.leaves
  rw [hn]
  apply values_congr
  intro k hk
  obtain ⟨v, rfl⟩ := Place.eq_leaf (Finset.mem_filter.1 hk).2
  exact congrArg (Pte.frame · v) (h v)

theorem refsBut_congr (hn : s'.nframes = s.nframes) (hk : s'.kernel = s.kernel)
    (h : ∀ k, k.table ≠ some t → s'.held k = s.held k) : s'.refsBut t X = s.refsBut t X := by
  unfold PgState.refsBut
  rw [hn, hk, values_congr fun k hmem => h k (Finset.mem_filter.1 hmem).2]

def Beyond (X : Multiset Nat) (t : Nat) (s₀ s : PgState) : Prop :=
  Gains (s₀.refs X) (s.refsBut t X)

theorem Beyond.gains (h : Beyond X t s₀ s) (hn : s'.nframes = s.nframes)
    (hpte : ∀ v, s'.pte t v = s.pte t v) (hg : Gains (s.refs X) (s'.refs X)) :
    Beyond X t s₀ s' := by
  obtain ⟨N, hN, hf⟩ := hg
  rw [refs_split (t := t), refs_split (s := s) (t := t), leaves_congr hn hpte, add_assoc] at hN
  refine Gains.trans h ⟨N, add_left_cancel hN, fun f hm hs => hf f hm ?_⟩
  rw [refs_split (t := t)]
  exact Multiset.mem_add.2 (.inr hs)

theorem Beyond.adds (h : Beyond X t s₀ s) (ha : Adds X s s') : Beyond X t s₀ s' :=
  h.gains (rest_nframes ha.rest) (fun v => ha.pte t v) ha.refs

theorem Beyond.same (h : Beyond X t s₀ s) (hn : s'.nframes = s.nframes)
    (hk : s'.kernel = s.kernel) (hh : ∀ k, k.table ≠ some t → s'.held k = s.held k) :
    Beyond X t s₀ s' := by
  unfold Beyond
  rw [refsBut_congr hn hk hh]
  exact h

theorem held_setPte_but (k : Place) (hk : k.table ≠ some t) :
    (s.setPte t vpn e).held k = s.held k := by
  rw [held_setPte, update_of_ne]
  intro he
  rw [he] at hk
  exact hk rfl

theorem held_setFlags (hv : e.valid = (s.pte t vpn).valid) (hn : e.num = (s.pte t vpn).num) :
    (s.setPte t vpn e).held = s.held := by
  have hframe : e.frame vpn = s.held (.leaf t vpn) := by
    show e.frame vpn = (s.pte t vpn).frame vpn
    rw [Pte.frame, Pte.frame, hv, hn]
  rw [held_setPte, hframe, update_eq_self]

theorem Beyond.steady (h₀ : Inv c s₀ X L) (h : Inv c s X L')
    (hn : s.nframes = s₀.nframes) (hb : Beyond X t s₀ s)
    (hempty : ∀ v, v < TRAPFRAME → (s.pte t v).valid = false) : Steady s₀ s := by
  intro t' v hlt hv _ _
  have hmem := h₀.leaf_mem_refs hv hlt
  have hframe := h₀.frames.range _ hmem
  obtain ⟨N, hN, hf⟩ := hb
  rw [h₀.frames.count _ hframe, h.frames.count _ (hn ▸ hframe), refs_split (t := t),
    leaves_zero hempty,
    zero_add, hN, Multiset.count_add, Multiset.count_eq_zero.2 fun hm => hf _ hm hmem]
  rfl

def Shares (c : Bool) (X L : Multiset Nat) (t vpn : Nat) (e : Pte) (s : PgState) :
    Bool → PgState → Prop
  | true, s' => (s.pte t vpn).valid = false ∧ Inv c s' X (nonzero (s.pte t vpn).slot + L) ∧
      ∃ s₁, Adds X s s₁ ∧
        s' = (s₁.setPte t vpn { e with valid := true }).setCnt e.num (s₁.cnt e.num + 1)
  | false, s' => Inv c s' X L ∧ Adds X s s'

theorem Inv.mapSlot (h : Inv c s X ((k + 1) ::ₘ L)) (hlive : s.live t = true)
    (hreach : s.Reached t vpn) (hlt : vpn < TRAPFRAME) (hv : (s.pte t vpn).valid = false)
    (hs : (s.pte t vpn).swapped = false) (hu : e.user = true)
    (hcopy : c = true → s.disk k = s.saved t vpn) :
    Inv c (s.setPte t vpn (e.toSlot k)) X L := by
  have h' := h.storeSlot hlive hlt hreach hu hcopy
  rwa [Pte.frame_of_invalid hv, Pte.slot_of_unswapped hs, nonzero_zero, zero_add, zero_add] at h'

def PgState.copySlot (s : PgState) (k src : Nat) : PgState := (s.mark k).setDisk k (s.disk src)

def CopiesSlot (c : Bool) (X L : Multiset Nat) (t vpn : Nat) (src : Pte) (s : PgState) :
    Bool → PgState → Prop
  | true, s' => Inv c s' X L ∧ ∃ k s₁, s.swapmap k = false ∧ Adds X (s.copySlot k src.num) s₁ ∧
      s' = s₁.setPte t vpn (src.toSlot k)
  | false, s' => Inv c s' X L ∧ (s' = s ∨ ∃ k s₁, Adds X (s.copySlot k src.num) s₁ ∧
      s' = s₁.setSlot k false)

def Pte.Unused (e : Pte) : Prop := e.valid = false ∧ e.swapped = false

structure Fills (X : Multiset Nat) (t vpn : Nat) (s s' : PgState) : Prop where
  noff : s'.noff = s.noff
  live : s'.live = s.live
  nframes : s'.nframes = s.nframes
  pbuf : ∀ i b, s'.pbuf i = some b → s.pbuf i = some b
  others : ∀ v, v ≠ vpn → s'.pte t v = s.pte t v
  beyond : ∀ s₀, Beyond X t s₀ s → Beyond X t s₀ s'

theorem Fills.refl (X : Multiset Nat) (t vpn : Nat) (s : PgState) : Fills X t vpn s s :=
  ⟨rfl, rfl, rfl, fun _ _ hb => hb, fun _ _ => rfl, fun _ hb => hb⟩

theorem Fills.trans (h : Fills X t vpn s s') (h' : Fills X t vpn s' s'') : Fills X t vpn s s'' :=
  ⟨h'.noff.trans h.noff, h'.live.trans h.live, h'.nframes.trans h.nframes,
    fun i b hb => h.pbuf i b (h'.pbuf i b hb), fun v hv => (h'.others v hv).trans (h.others v hv),
    fun s₀ hb => h'.beyond s₀ (h.beyond s₀ hb)⟩

theorem Adds.fills (h : Adds X s s') (t vpn : Nat) : Fills X t vpn s s' :=
  ⟨rest_noff h.rest, rest_live h.rest, rest_nframes h.rest,
    fun i b hb => by rwa [rest_pbuf h.rest] at hb, fun v _ => h.pte t v, fun _ hb => hb.adds h⟩

theorem Fills.setPte : Fills X t vpn s (s.setPte t vpn e) :=
  ⟨rfl, rfl, rfl, fun _ _ hb => hb, fun _ hv => setPte_of_ne fun he => hv he.2,
    fun _ hb => hb.same rfl rfl held_setPte_but⟩

theorem Fills.hidden (hnoff : s'.noff = s.noff) (hlive : s'.live = s.live)
    (hn : s'.nframes = s.nframes) (hk : s'.kernel = s.kernel) (htable : s'.table = s.table)
    (hpbuf : s'.pbuf = s.pbuf) : Fills X t vpn s s' := by
  have hpte : ∀ t v, s'.pte t v = s.pte t v := fun t v => by
    rw [PgState.pte, htable]
    rfl
  exact ⟨hnoff, hlive, hn, fun i b hb => by rwa [hpbuf] at hb, fun v _ => hpte t v,
    fun _ hb => hb.same hn hk fun k _ => held_congr (fun t v _ => hpte t v)
      (fun _ _ _ => by rw [htable]) (fun _ _ => by rw [hlive]) fun _ _ => by rw [hpbuf]⟩

theorem Shares.fills (h : Shares c X L t vpn e s r s') : Fills X t vpn s s' := by
  cases r with
  | false => exact h.2.fills t vpn
  | true =>
    obtain ⟨-, -, s₁, hadds, rfl⟩ := h
    exact ((hadds.fills t vpn).trans .setPte).trans (.hidden rfl rfl rfl rfl rfl rfl)

theorem CopiesSlot.fills (h : CopiesSlot c X L t vpn e s r s') : Fills X t vpn s s' := by
  have hslot (k : Nat) : Fills X t vpn s (s.copySlot k e.num) := .hidden rfl rfl rfl rfl rfl rfl
  cases r with
  | false =>
    rcases h.2 with rfl | ⟨k, s₁, hadds, rfl⟩
    · exact .refl X t vpn _
    · exact ((hslot k).trans (hadds.fills t vpn)).trans (.hidden rfl rfl rfl rfl rfl rfl)
  | true =>
    obtain ⟨-, k, s₁, -, hadds, rfl⟩ := h
    exact ((hslot k).trans (hadds.fills t vpn)).trans .setPte

def Turn (c : Bool) (X L : Multiset Nat) (t vpn : Nat) (s : PgState) (r : Bool) (s' : PgState) :
    Prop :=
  Inv c s' X L ∧ Fills X t vpn s s' ∧ (r = false → (s'.pte t vpn).Unused) ∧
    (c = true → (s'.pte t vpn).swapped = true → s'.Unbuffered (s'.pte t vpn).num)

theorem Pte.Unused.slot (h : e.Unused) : e.slot = 0 := Pte.slot_of_unswapped h.2

theorem Turn.unused (h : Inv c s' X L) (hf : Fills X t vpn s s') (hu : (s'.pte t vpn).Unused)
    (r : Bool) : Turn c X L t vpn s r s' :=
  ⟨h, hf, fun _ => hu, fun _ hs => (Bool.false_ne_true (hu.2.symm.trans hs)).elim⟩

theorem Shares.turn (hu : (s.pte t vpn).Unused) (he : e.swapped = false)
    (h : Shares c X L t vpn e s r s') : Turn c X L t vpn s r s' := by
  have hf := h.fills
  cases r with
  | false =>
    refine .unused h.1 hf ?_ false
    rw [h.2.pte]
    exact hu
  | true =>
    obtain ⟨-, hinv, s₁, -, rfl⟩ := h
    rw [hu.slot, nonzero_zero, zero_add] at hinv
    refine ⟨hinv, hf, fun hr => (nomatch hr), fun _ hs => ?_⟩
    have hs : ((s₁.setPte t vpn { e with valid := true }).pte t vpn).swapped = true := hs
    rw [setPte_self] at hs
    exact (Bool.false_ne_true (he.symm.trans hs)).elim

theorem CopiesSlot.turn (hu : (s.pte t vpn).Unused) (hct : c = true → Content s)
    (h : CopiesSlot c X L t vpn e s r s') : Turn c X L t vpn s r s' := by
  have hf := h.fills
  cases r with
  | false =>
    refine .unused h.1 hf ?_ false
    rcases h.2 with rfl | ⟨k, s₁, hadds, rfl⟩
    · exact hu
    · have hpte : (s₁.setSlot k false).pte t vpn = s.pte t vpn := hadds.pte t vpn
      rw [hpte]
      exact hu
  | true =>
    obtain ⟨hinv, k, s₁, h0, hadds, rfl⟩ := h
    refine ⟨hinv, hf, fun hr => (nomatch hr), fun hc _ i b hi hb => ?_⟩
    rw [setPte_self]
    exact (hct hc).unbuffered h0 i b hi (hf.pbuf i b hb)

theorem Pte.share_valid (e : Pte) : e.share.valid = e.valid := by
  unfold Pte.share
  split <;> rfl

theorem Pte.share_num (e : Pte) : e.share.num = e.num := by
  unfold Pte.share
  split <;> rfl

theorem Pte.share_swapped (e : Pte) : e.share.swapped = e.swapped := by
  unfold Pte.share
  split <;> rfl

structure Filling (c : Bool) (X L : Multiset Nat) (s₀ : PgState) (t vpn : Nat) (s : PgState) :
    Prop where
  inv : Inv c s X L
  noff : 0 < s.noff
  live : s.live t = true
  nframes : s.nframes = s₀.nframes
  unused : ∀ v, vpn ≤ v → v < TRAPFRAME → (s.pte t v).Unused
  trapped : Trapped s t
  buffered : c = true → NoneBuffered s t 0 vpn
  beyond : Beyond X t s₀ s

theorem Filling.turn (h : Filling c X L s₀ t vpn s) (hvpn : vpn < TRAPFRAME)
    (ht : Turn c X L t vpn s r s') :
    Filling c X L s₀ t (vpn + 1) s' ∧ (r = false → Filling c X L s₀ t vpn s') := by
  obtain ⟨hinv, hf, hr, hb⟩ := ht
  have hnoff : 0 < s'.noff := by
    rw [hf.noff]
    exact h.noff
  have hlive : s'.live t = true := by
    rw [hf.live]
    exact h.live
  have hold : ∀ v, v < vpn → c = true → (s'.pte t v).swapped = true →
      s'.Unbuffered (s'.pte t v).num := by
    intro v hv hc hs i b hi hpb
    rw [hf.others v (Nat.ne_of_lt hv)] at hs ⊢
    exact h.buffered hc v (Nat.zero_le v) hv hs i b hi (hf.pbuf i b hpb)
  have htrap : Trapped s' t := by
    intro v hle hlt
    rw [hf.others v (Nat.ne_of_gt (hvpn.trans_le hle))]
    exact h.trapped v hle hlt
  refine ⟨⟨hinv, hnoff, hlive, hf.nframes.trans h.nframes, fun v hle hlt => ?_, htrap,
    fun hc v _ hv hs => ?_, hf.beyond s₀ h.beyond⟩, fun hrf => ⟨hinv, hnoff, hlive,
    hf.nframes.trans h.nframes, fun v hle hlt => ?_, htrap, fun hc v _ hv hs => hold v hv hc hs,
    hf.beyond s₀ h.beyond⟩⟩
  · rw [hf.others v (by omega)]
    exact h.unused v (by omega) hlt
  · by_cases he : v = vpn
    · subst he
      exact hb hc hs
    · exact hold v (by omega) hc hs
  · by_cases he : v = vpn
    · subst he
      exact hr hrf
    · rw [hf.others v he]
      exact h.unused v hle hlt

theorem Filling.high (h : Filling c X L s₀ t vpn s) (hle : TRAPFRAME ≤ vpn) :
    Filling c X L s₀ t (vpn + 1) s where
  __ := h
  unused v hv hlt := h.unused v (by omega) hlt
  buffered hc v _ hv hs := by
    by_cases he : v = vpn
    · rw [he, (h.inv.shaped.high t vpn hle).2.1] at hs
      cases hs
    · exact h.buffered hc v (Nat.zero_le v) (by omega) hs

structure Fresh (s : PgState) (t : Nat) : Prop where
  live : s.live t = true
  unused : ∀ v, v < TRAPFRAME → (s.pte t v).Unused
  trapped : Trapped s t

theorem Fresh.filling (h : Fresh s t) (hinv : Inv c s X L) (hn : 0 < s.noff) :
    Filling c X L s t 0 s where
  inv := hinv
  noff := hn
  live := h.live
  nframes := rfl
  unused v _ hlt := h.unused v hlt
  trapped := h.trapped
  buffered _ v _ hv := (Nat.not_lt_zero v hv).elim
  beyond := by
    unfold Beyond
    rw [refs_split (t := t), leaves_zero fun v hv => (h.unused v hv).1, zero_add]
    exact .refl _

theorem BroughtBack.fills (h : BroughtBack c X L old v f s s₁ s') (hn : 0 < s.noff)
    (hne : old ≠ new) (vpn : Nat) : Fills X new vpn s s' := by
  obtain ⟨x, env, hs'⟩ := h.result
  have hstill := h.reclaim.still hn
  have hpte : ∀ w, s'.pte new w = s.pte new w := by
    intro w
    rw [hs']
    exact (setPte_of_ne fun he => hne he.1.symm).trans (hstill.1 new w)
  have hnf : s'.nframes = s.nframes := by
    rw [hs']
    exact h.reclaim.nframes
  have hv : (s₁.pte old v).frame v = 0 :=
    Pte.frame_of_invalid (h.before.shaped.swapped_invalid h.swapped)
  have hf : f ≠ 0 :=
    Nat.ne_of_gt (h.before.frames.range f (mem_refs_hand (Multiset.mem_cons_self f X))).1
  have hrefs : s'.refs X = s₁.refs (f ::ₘ X) := by
    rw [hs']
    refine refs_setPte (s := (s₁.setSlot (s.pte old v).num false).addFetched x)
      (h.before.shaped.entry_mem (.inr h.swapped)) ?_
    show X + nonzero (((s₁.pte old v).toFrame f).frame v) = f ::ₘ X + nonzero
      ((s₁.pte old v).frame v)
    rw [hv, Pte.frame_of_valid rfl (h.before.shaped.low_of_swapped h.swapped), nonzero_zero,
      add_zero]
    show X + nonzero f = f ::ₘ X
    rw [nonzero_of_ne hf, add_comm, Multiset.singleton_add]
  refine ⟨?_, ?_, hnf, fun i b hb => ?_, fun w _ => hpte w, fun s₀ hb => hb.gains hnf hpte ?_⟩
  · rw [hs']
    exact h.reclaim.noff
  · rw [hs']
    exact h.reclaim.live
  · rw [hs'] at hb
    exact hstill.2 i b hb
  · rw [hrefs]
    exact h.refs hn

section sharing
variable (hE : ∀ e, E e)
include hE

theorem shareEntry_spec (h : Inv c s X L) (hn : 0 < s.noff) (hlive : s.live t = true)
    (hlt : vpn < TRAPFRAME) (old v : Nat) (hv : (s.pte old v).valid = true) (hvlt : v < TRAPFRAME)
    (hnum : (s.pte old v).num = e.num) (he : e.swapped = false) :
    wp E (shareEntry t vpn e) s (Shares c X L t vpn e s) := by
  unfold shareEntry mappages
  rw [wp_bind, wp_bind]
  refine (walkAlloc_locked (hE _) h hn hlive).mono fun r s₁ h₁ => ?_
  obtain ⟨hinv, hadds, hyes⟩ := h₁
  cases r with
  | false => exact ⟨hinv, hadds⟩
  | true =>
    have hpte := hadds.pte t vpn
    rw [if_pos rfl, wp_bind, wp_get, wp_ite]
    split
    · exact hE _
    · next hval =>
      have hval : (s.pte t vpn).valid = false := by
        rw [← hpte]
        exact Bool.eq_false_of_not_eq_true hval
      have hv₁ : (s₁.pte old v).valid = true := by
        rw [hadds.pte]
        exact hv
      have hnum₁ : (s₁.pte old v).num = e.num := by
        rw [hadds.pte]
        exact hnum
      have hmem := hinv.leaf_mem_refs hv₁ hvlt
      rw [hnum₁] at hmem
      have hframe := hinv.frames.range _ hmem
      have hmore : Inv c (s₁.setCnt e.num (s₁.cnt e.num + 1)) (e.num ::ₘ X) L := by
        refine hinv.setCnt ?_ fun j b hj hb => ?_
        · rw [refs_cons]
          exact hinv.frames.more hmem
        · rw [← hnum₁]
          exact hinv.buf_ne_leaf hv₁ hvlt hj hb
      have hmap := hmore.map (t := t) (e := { e with valid := true })
        (by rw [show (s₁.setCnt e.num (s₁.cnt e.num + 1)).live = s₁.live from rfl,
              rest_live hadds.rest]; exact hlive)
        (show PgState.Reached _ t vpn from hyes rfl) hlt ((congrArg Pte.valid hpte).trans hval) rfl
          he rfl
      have hslot : ((s₁.setCnt e.num (s₁.cnt e.num + 1)).pte t vpn).slot = (s.pte t vpn).slot :=
        congrArg Pte.slot hpte
      rw [hslot] at hmap
      have hin : ¬ (e.num = 0 ∨ s₁.nframes < e.num) := by
        have h1 := hframe.1
        have h2 := hframe.2
        omega
      rw [wp_bind, wp_setPte, wp_pure, if_pos rfl, wp_bind]
      show wp E (if e.num = 0 ∨ s₁.nframes < e.num then _ else _) _ _
      rw [if_neg hin]
      exact (wp_set _).2 ((wp_pure _).2 ⟨hval, hmap, s₁, hadds, rfl⟩)

theorem swapcopy_spec (h : Inv c s X L) (hn : 0 < s.noff) (hlive : s.live t = true)
    (hlt : vpn < TRAPFRAME) (hv : (s.pte t vpn).valid = false) (hs : (s.pte t vpn).swapped = false)
    (hu : src.user = true) (hcopy : c = true → s.disk src.num = s.saved t vpn) :
    wp E (swapcopy t vpn src) s (CopiesSlot c X L t vpn src s) := by
  unfold swapcopy
  rw [wp_bind, wp_get, wp_ite]
  split
  · exact ⟨h, .inl rfl⟩
  · rw [wp_bind]
    refine wp_swapAlloc ?_ ?_
    · exact ⟨h, .inl rfl⟩
    intro k hk h0
    have hhead : k + 1 ∈ (k + 1) ::ₘ L := Multiset.mem_cons_self _ _
    have hunbuf : c = true → s.Unbuffered k := fun hc => (h.content hc).unbuffered h0
    show wp E (bread >>= _) (s.mark k) _
    rw [wp_bind]
    refine wp_bread (hE _) fun env₁ => ?_
    rw [wp_bind]
    refine wp_bread (hE _) fun env₂ => ?_
    rw [wp_bind]
    refine wp_sleep (fun _ _ => hE _) ?_
    rw [wp_bind, wp_modify, wp_bind]
    have h₂ := (((h.mark hk h0).env env₁).env env₂).setDisk hhead hunbuf (s.disk src.num)
    refine (walkAlloc_locked (t := t) (hE _) h₂ hn hlive).mono fun r s₁ h₁ => ?_
    obtain ⟨hinv, hadds, hyes⟩ := h₁
    have hadds' : Adds X (s.copySlot k src.num) s₁ := { hadds with }
    have hpbuf : s₁.pbuf = s.pbuf := (rest_pbuf hadds.rest).trans rfl
    cases r with
    | true =>
      rw [if_pos rfl, wp_bind, wp_setPte]
      refine (wp_pure _).2
        ⟨hinv.mapSlot ?_ (hyes rfl) hlt ?_ ?_ hu fun hc => ?_, k, s₁, h0, hadds', rfl⟩
      · rw [rest_live hadds.rest]
        exact hlive
      · rw [hadds.pte]
        exact hv
      · rw [hadds.pte]
        exact hs
      · show s₁.rest.disk k = s₁.rest.saved t vpn
        rw [hadds'.rest]
        show update s.disk k (s.disk src.num) k = s.saved t vpn
        rw [update_self]
        exact hcopy hc
    | false =>
      have hlt' : ¬ SWAP_PAGES ≤ k := Nat.not_le.2 hk
      rw [if_neg Bool.false_ne_true, wp_bind]
      unfold swapfree
      rw [if_neg hlt', wp_modify]
      refine (wp_pure _).2 ⟨hinv.unmark fun hc i b hi hb => ?_, .inr ⟨k, s₁, hadds', rfl⟩⟩
      rw [hpbuf] at hb
      exact hunbuf hc i b hi hb

theorem copyPage_spec (h : Inv c s X L) (hn : 0 < s.noff)
    (hlive : s.live new = true) (hne : old ≠ new) (hlt : vpn < TRAPFRAME)
    (hu : (s.pte new vpn).Unused) :
    wp E (copyPage old new vpn) s (Turn c X L new vpn s) := by
  have hsame (r : Bool) : Turn c X L new vpn s r s := .unused h (.refl X new vpn s) hu r
  unfold copyPage
  rw [wp_bind]
  refine wp_lookup (fun _ => hE _) (fun _ _ => hsame true) fun _ _ => ?_
  rw [wp_ite]
  split
  · next hv =>
    rw [wp_ite]
    split
    · next hs =>
      rw [wp_bind, wp_modify]
      have hsaved := h.setSaved new vpn hu.2 (s.saved old vpn)
      have hf : Fills X new vpn s (s.setSaved new vpn (s.saved old vpn)) :=
        .hidden rfl rfl rfl rfl rfl rfl
      refine (swapcopy_spec hE hsaved hn hlive hlt hu.1 hu.2 (h.shaped.user old vpn hs) fun hc =>
        ?_).mono fun r s₁ h₁ => ?_
      · rw [setSaved_self]
        exact (h.content hc).kept old vpn hs
      · obtain ⟨hinv, hf₁, hr, hb⟩ :=
          CopiesSlot.turn (s := s.setSaved new vpn (s.saved old vpn)) hu hsaved.content h₁
        exact ⟨hinv, hf.trans hf₁, hr, hb⟩
    · exact hsame true
  · next hv =>
    have hv : (s.pte old vpn).valid = true := Bool.eq_true_of_not_eq_false hv
    have hv' := (Pte.share_valid (s.pte old vpn)).trans hv
    have hsw := (Pte.share_swapped (s.pte old vpn)).trans (h.shaped.single old vpn hv)
    rw [wp_bind, wp_setPte]
    have hflags := h.setFlags (e := (s.pte old vpn).share) (.inl hv)
      (Pte.share_valid _) (Pte.share_swapped _) (Pte.share_num _)
      (fun hs => (Bool.false_ne_true (hsw.symm.trans hs)).elim)
      (fun hle => (Nat.not_le.2 hlt hle).elim)
    have hpte : ∀ v, (s.setPte old vpn (s.pte old vpn).share).pte new v = s.pte new v :=
      fun v => setPte_of_ne fun he => hne he.1.symm
    have hf : Fills X new vpn s (s.setPte old vpn (s.pte old vpn).share) := by
      refine ⟨rfl, rfl, rfl, fun _ _ hb => hb, fun v _ => hpte v, fun s₀ hb => hb.same rfl rfl ?_⟩
      intro k _
      rw [held_setFlags (Pte.share_valid _) (Pte.share_num _)]
    refine (shareEntry_spec hE hflags hn hlive hlt old vpn ?_ hlt ?_ hsw).mono
      fun r s₁ h₁ => ?_
    · rw [setPte_self]
      exact hv'
    · rw [setPte_self]
    · obtain ⟨hinv, hf₁, hr, hb⟩ := h₁.turn (by rw [hpte]; exact hu) hsw
      exact ⟨hinv, hf.trans hf₁, hr, hb⟩

theorem Filling.unwind (h₀ : Inv c s₀ X L)
    (h : Filling c X L s₀ t vpn s) (hlt : vpn ≤ TRAPFRAME) :
    wp E (do uvmunmap t 0 vpn true; pure false) s
      (fun r s' => Inv c s' X L ∧ (r = false → Steady s₀ s')) := by
  have hdiv : 0 / PGSIZE + vpn = vpn := by
    rw [Nat.zero_div, Nat.zero_add]
  have hspec := uvmunmap_spec (fun e _ => hE e) h.inv t 0 vpn
    (.of_lt fun v _ hv => by omega) (fun hc => by rw [hdiv, Nat.zero_div]; exact h.buffered hc)
  rw [hdiv, Nat.zero_div] at hspec
  refine hspec.bind fun _ s₁ h₁ => (wp_pure _).2 ⟨h₁.1, fun _ => ?_⟩
  obtain ⟨hinv, hu⟩ := h₁
  have honly := hu.only
  have hn₁ : s₁.nframes = s.nframes := by rw [honly]
  have hbeyond : Beyond X t s₀ s₁ := by
    refine h.beyond.same hn₁ (by rw [honly]) fun k hk => held_congr (fun t' v he => ?_)
      (fun _ _ _ => by rw [hu.node]) (fun _ _ => by rw [honly]) fun _ _ => by rw [hu.pbuf]
    exact hu.outside t' v fun hr => hk (by rw [he, hr.1]; rfl)
  refine hbeyond.steady h₀ hinv (hn₁.trans h.nframes) fun v hv => ?_
  by_cases hlt : v < vpn
  · exact (hu.inside v (Nat.zero_le v) hlt).1
  · rw [hu.outside t v fun hr => hlt hr.2.2]
    exact (h.unused v (Nat.le_of_not_lt hlt) hv).1

theorem Filling.loop (h₀ : Inv c s₀ X L) {turn : Nat → PgM Bool}
    {run : Nat → Nat → PgM Bool} (hzero : ∀ v, run 0 v = pure true)
    (hsucc : ∀ n v, run (n + 1) v = do
      if ← turn v then run n (v + 1)
      else do
        uvmunmap t 0 v true
        pure false)
    (hturn : ∀ v s, v < TRAPFRAME → Filling c X L s₀ t v s → wp E (turn v) s (Turn c X L t v s))
    (hhigh : ∀ v s, TRAPFRAME ≤ v → Filling c X L s₀ t v s →
      wp E (turn v) s (fun r s' => r = true ∧ s' = s))
    (n : Nat) (h : Filling c X L s₀ t vpn s) :
    wp E (run n vpn) s (fun r s' => Inv c s' X L ∧ (r = false → Steady s₀ s')) := by
  induction n generalizing s vpn with
  | zero =>
    rw [hzero]
    exact ⟨h.inv, fun hr => (nomatch hr)⟩
  | succ n ih =>
    rw [hsucc]
    by_cases hvpn : vpn < TRAPFRAME
    · refine (hturn vpn s hvpn h).bind fun r s₁ h₁ => ?_
      have hnext := h.turn hvpn h₁
      cases r with
      | true => exact ih hnext.1
      | false => exact (hnext.2 rfl).unwind hE h₀ (Nat.le_of_lt hvpn)
    · have hle : TRAPFRAME ≤ vpn := Nat.le_of_not_lt hvpn
      refine (hhigh vpn s hle h).bind fun r s₁ h₁ => ?_
      obtain ⟨rfl, rfl⟩ := h₁
      exact ih (h.high hle)

theorem shareEntry_mapped {Q : Bool → PgState → Prop} (hlt : vpn < NVPN)
    (hreach : s.Reached t vpn) (hv : (s.pte t vpn).valid = true) : wp E (shareEntry t vpn e) s Q :=
  (wp_bind _ _).2 (wp_mappages_valid (hE _) hlt hreach hv)

theorem copyPage_high (h : Inv c s X L) (hne : old ≠ new)
    (htrap : Trapped s new) (hle : TRAPFRAME ≤ vpn) :
    wp E (copyPage old new vpn) s (fun r s' => r = true ∧ s' = s) := by
  unfold copyPage
  rw [wp_bind]
  refine wp_lookup (fun _ => hE _) (fun _ _ => ⟨rfl, rfl⟩) fun hlt _ => ?_
  have hs := (h.shaped.high old vpn hle).2.1
  rw [wp_ite]
  split
  · rw [if_neg (by rw [hs]; exact Bool.false_ne_true)]
    exact ⟨rfl, rfl⟩
  · have hv := htrap vpn hle hlt
    have hreach := (h.shaped.used new vpn (.inl hv)).2
    rw [wp_bind, wp_setPte]
    apply shareEntry_mapped hE hlt
    · unfold PgState.Reached
      rw [setPte_node]
      exact hreach
    · rw [setPte_of_ne fun he => hne he.1.symm]
      exact hv

theorem uvmcopyLoop_spec {old new : Nat} (h₀ : Inv c s₀ X L)
    (hne : old ≠ new) (n : Nat) (h : Filling c X L s₀ new vpn s) :
    wp E (uvmcopyLoop old new n vpn) s
      (fun r s' => Inv c s' X L ∧ (r = false → Steady s₀ s')) :=
  Filling.loop hE h₀ (fun _ => rfl) (fun _ _ => rfl)
    (fun v _ hv hf => copyPage_spec hE hf.inv hf.noff hf.live hne hv
      (hf.unused v (Nat.le_refl v) hv))
    (fun _ _ hle hf => copyPage_high hE hf.inv hne hf.trapped hle) n h

theorem uvmcopy_spec (h : Inv c s X L) (hn : 0 < s.noff)
    (hne : old ≠ new) (hf : Fresh s new) :
    wp E (uvmcopy old new sz) s (fun r s' => Inv c s' X L ∧ (r = false → Steady s s')) :=
  uvmcopyLoop_spec hE h hne _ (hf.filling h hn)

theorem sharePage_spec (h : Inv c s X L) (hn : 0 < s.noff)
    (hlive : s.live new = true) (hne : old ≠ new) (hlt : vpn < TRAPFRAME)
    (hu : (s.pte new vpn).Unused) :
    wp E (sharePage old new vpn) s (Turn c X L new vpn s) := by
  have hsame (r : Bool) : Turn c X L new vpn s r s := .unused h (.refl X new vpn s) hu r
  unfold sharePage
  rw [wp_bind]
  refine wp_lookup (fun _ => hE _) (fun _ _ => hsame true) fun _ _ => ?_
  rw [wp_ite]
  split
  · next hv =>
    have hsw := h.shaped.single old vpn hv
    exact (shareEntry_spec hE h hn hlive hlt _ _ hv hlt rfl hsw).mono fun _ _ h₁ => h₁.turn hu hsw
  · rw [wp_ite]
    split
    · next hs =>
      refine (swapin_spec (fun e _ => hE e) h).bind fun r s₁ h₁ => ?_
      rcases h₁ with ⟨-, -, -, hns⟩ | ⟨rfl, hnext, -, hlocked⟩ | ⟨rfl, -, f, s₂, hb⟩
      · exact (Bool.false_ne_true (hns.symm.trans hs)).elim
      · rw [if_pos (by decide)]
        have hs₁ := hlocked hn
        refine .unused hnext.1 ?_ ?_ false
        · rw [hs₁]
          exact .hidden rfl rfl rfl rfl rfl rfl
        · rw [hs₁]
          exact hu
      · have hf := hb.fills hn hne vpn
        have hu₁ : (s₁.pte new vpn).Unused := by
          obtain ⟨x, env, hs'⟩ := hb.result
          rw [hs']
          have he : (((s₂.setSlot (s.pte old vpn).num false).addFetched x).setPte old vpn
              ((s₂.pte old vpn).toFrame f)).pte new vpn = s.pte new vpn :=
            (setPte_of_ne fun he => hne he.1.symm).trans ((hb.reclaim.still hn).1 new vpn)
          show Pte.Unused (PgState.pte (PgState.setPte _ old vpn _) new vpn)
          rw [he]
          exact hu
        rw [if_neg (by decide), wp_bind, wp_get, wp_ite]
        split
        · next hv₁ =>
          have hsw := hb.inv.shaped.single old vpn hv₁
          refine
            (shareEntry_spec hE hb.inv (by rw [hf.noff]; exact hn) (by rw [hf.live]; exact hlive)
            hlt _ _ hv₁ hlt rfl hsw).mono fun r s₃ h₃ => ?_
          obtain ⟨hinv, hf₃, hr, hbuf⟩ := h₃.turn hu₁ hsw
          exact ⟨hinv, hf.trans hf₃, hr, hbuf⟩
        · exact .unused hb.inv hf hu₁ true
    · exact hsame true

theorem sharePage_high (h : Inv c s X L) (htrap : Trapped s new)
    (hle : TRAPFRAME ≤ vpn) : wp E (sharePage old new vpn) s (fun r s' => r = true ∧ s' = s) := by
  unfold sharePage
  rw [wp_bind]
  refine wp_lookup (fun _ => hE _) (fun _ _ => ⟨rfl, rfl⟩) fun hlt _ => ?_
  have hs := (h.shaped.high old vpn hle).2.1
  rw [wp_ite]
  split
  · have hv := htrap vpn hle hlt
    exact shareEntry_mapped hE hlt (h.shaped.used new vpn (.inl hv)).2 hv
  · rw [if_neg (by rw [hs]; exact Bool.false_ne_true)]
    exact ⟨rfl, rfl⟩

theorem uvmshareLoop_spec {old new : Nat} (h₀ : Inv c s₀ X L)
    (hne : old ≠ new) (n : Nat) (h : Filling c X L s₀ new vpn s) :
    wp E (uvmshareLoop old new n vpn) s
      (fun r s' => Inv c s' X L ∧ (r = false → Steady s₀ s')) :=
  Filling.loop hE h₀ (fun _ => rfl) (fun _ _ => rfl)
    (fun v _ hv hf => sharePage_spec hE hf.inv hf.noff hf.live hne hv
      (hf.unused v (Nat.le_refl v) hv))
    (fun _ _ hle hf => sharePage_high hE hf.inv hf.trapped hle) n h

theorem uvmshare_spec (h : Inv c s X L) (hn : 0 < s.noff)
    (hne : old ≠ new) (hf : Fresh s new) :
    wp E (uvmshare old new sz) s (fun r s' => Inv c s' X L ∧ (r = false → Steady s s')) :=
  uvmshareLoop_spec hE h hne _ (hf.filling h hn)

end sharing

end OopsOS.Pg
