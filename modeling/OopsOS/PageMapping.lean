import OopsOS.PageReclaim

namespace OopsOS.Pg
set_option autoImplicit true
open Function

variable {s s' s'' : PgState} {X L : Multiset Nat} {t vpn f : Nat} {e perm : Pte} {c : Bool}
  {E : Panic → Prop} {g : Bool} {Q : Bool → PgState → Prop}

theorem Inv.write_fresh (h : Inv c s (f ::ₘ X) L) (h1 : s.cnt f = 1) (d : Page) :
    Inv c (s.setData f d) (f ::ₘ X) L ∧ Evicts g X s (s.setData f d) := by
  have hf : f ∈ f ::ₘ X := Multiset.mem_cons_self f X
  refine ⟨h.setData (fun i b hi hb => h.buf_ne_hand hf hi hb) d,
    Touches.evicts ⟨rfl, rfl, rfl, rfl, rfl,
    rfl, rfl, fun _ => rfl, fun _ _ _ => rfl, fun t vpn => ?_, fun f' hg => ?_,
    fun _ => ⟨fun _ _ => rfl, fun _ _ hb => hb⟩⟩ rfl rfl⟩
  · refine .kept rfl (fun hv hlt => ⟨rfl, ?_⟩) (fun _ => rfl)
    exact update_of_ne (h.leaf_sole hf h1 hv hlt) _ _
  · refine ⟨update_of_ne (fun he => ?_) _ _, rfl⟩
    subst he
    have hcount := h.count_refs (h.frames.range f' (mem_refs_hand hf))
    rw [h1, Multiset.count_cons_self] at hcount
    have := Multiset.count_pos.2 hg
    omega

theorem Evicts.setNode (h0 : (s.table t).node m = 0) : Evicts true X s (s.setNode t m f) := by
  refine Touches.evicts ⟨rfl, rfl, rfl, rfl, rfl, rfl, rfl, fun _ => rfl, fun t' m' hm => ?_,
    fun t' vpn' => ?_, fun _ _ => ⟨rfl, rfl⟩, fun _ => ⟨setNode_pte, fun _ _ hb => hb⟩⟩ rfl rfl
  · rw [setNode_node, if_neg]
    rintro ⟨rfl, rfl⟩
    exact (hm.resolve_left (fun he => nomatch he)) h0
  · exact .same (setNode_pte t' vpn') rfl rfl rfl

theorem Evicts.live_of (h : Evicts g X s s') (hl : s.live t = true) : s'.live t = true := by
  rw [h.live]
  exact hl

def Grown (c : Bool) (X L : Multiset Nat) (s s' : PgState) : Prop :=
  Inv c s' X L ∧ Evicts true X s s'

theorem Grown.trans (h : Grown c X L s s') (h' : Grown c X L s' s'') : Grown c X L s s'' :=
  ⟨h'.1, h.2.trans h'.2⟩

theorem wp_walkAlloc (hlt : vpn < NVPN) (hreach : s.Reached t vpn)
    (h : Q true s) : wp E (walkAlloc t vpn) s Q := by
  unfold walkAlloc walkNode
  rw [if_neg (Nat.not_le.2 hlt), wp_bind, wp_bind, wp_get, if_pos hreach.1, wp_pure, if_pos rfl,
    wp_bind, wp_get, if_pos hreach.2, wp_pure]
  exact h

theorem Evicts.invalid (h : Evicts g X s s') (hv : (s.pte t vpn).valid = false) :
    (s'.pte t vpn).core = (s.pte t vpn).core := by
  cases h.entry t vpn with
  | kept he => exact he
  | dropped hold => exact (Bool.false_ne_true (hv.symm.trans hold.valid)).elim
  | swapped k hold => exact (Bool.false_ne_true (hv.symm.trans hold.valid)).elim

theorem Pte.core_slot {e e' : Pte} (h : e'.core = e.core) : e'.slot = e.slot := by
  rw [Pte.slot, Pte.slot, core_valid h, core_swapped h, core_num h]

theorem Inv.map (h : Inv c s (f ::ₘ X) L) (hlive : s.live t = true) (hreach : s.Reached t vpn)
    (hlt : vpn < TRAPFRAME) (hv : (s.pte t vpn).valid = false) (hp : e.valid = true)
    (hs : e.swapped = false) (hn : e.num = f) :
    Inv c (s.setPte t vpn e) X (nonzero (s.pte t vpn).slot + L) := by
  have h' := h.storeFrame hlive hlt hreach hp hs hn
  rwa [Pte.frame_of_invalid hv, nonzero_zero, zero_add] at h'

def Maps (c : Bool) (X L : Multiset Nat) (t vpn f : Nat) (perm : Pte) (s : PgState) :
    Bool → PgState → Prop
  | true, s' => (s.pte t vpn).valid = false ∧ Inv c s' X (nonzero (s.pte t vpn).slot + L) ∧
      ∃ s₁, Grown c (f ::ₘ X) L s s₁ ∧ s' = s₁.setPte t vpn { perm with valid := true, num := f }
  | false, s' => ¬ s.Reached t vpn ∧ Grown c (f ::ₘ X) L s s'

theorem wp_mappages (hlt : vpn < NVPN) (hreach : s.Reached t vpn)
    (hv : (s.pte t vpn).valid = false)
    (h : Q true (s.setPte t vpn { perm with valid := true, num := f })) :
    wp E (mappages t vpn f perm) s Q := by
  unfold mappages
  rw [wp_bind]
  apply wp_walkAlloc hlt hreach
  rw [if_pos rfl, wp_bind, wp_get, if_neg (by rw [hv]; exact Bool.false_ne_true)]
  exact h

theorem wp_mappages_valid (hE : E .remap) (hlt : vpn < NVPN)
    (hreach : s.Reached t vpn) (hv : (s.pte t vpn).valid = true) :
    wp E (mappages t vpn f perm) s Q := by
  unfold mappages
  rw [wp_bind]
  apply wp_walkAlloc hlt hreach
  rw [if_pos rfl, wp_bind, wp_get, if_pos hv]
  exact hE

theorem Shaped.low_of_swapped (h : Shaped s) (hs : (s.pte t vpn).swapped = true) :
    vpn < TRAPFRAME := by
  by_contra hle
  have hn := (h.high t vpn (Nat.le_of_not_lt hle)).2.1
  exact Bool.false_ne_true (hn.symm.trans hs)

theorem Inv.addFetched (h : Inv c s X L) (hx : c = true → x.found = x.saved) :
    Inv c (s.addFetched x) X L where
  shaped := { h.shaped with }
  __ := h
  content hc := {
    __ := h.content hc
    right := fun y hy => by
      rcases List.mem_cons.1 hy with rfl | hy
      · exact hx hc
      · exact (h.content hc).right y hy }

def Pte.toFrame (e : Pte) (f : Nat) : Pte := { e with swapped := false, valid := true, num := f }

def Gains (R R' : Multiset Nat) : Prop := ∃ N, R' = R + N ∧ ∀ f ∈ N, f ∉ R

theorem Gains.refl (R : Multiset Nat) : Gains R R :=
  ⟨0, (add_zero R).symm, fun _ hf => (nomatch hf)⟩

def Stuck (t vpn : Nat) (s s' : PgState) : Prop :=
  s.swapready = false ∧ s' = s ∨
    s.swapready = true ∧ (s.pte t vpn).swapped = true ∧ s.Unbuffered (s.pte t vpn).num ∧
      kalloc s = .ok (none, s')

/-- A page that is brought back, with the state in which its frame is in hand. -/
structure BroughtBack (c : Bool) (X L : Multiset Nat) (t vpn f : Nat) (s s₁ s' : PgState) :
    Prop where
  inv : Inv c s' X L
  before : Inv c s₁ (f ::ₘ X) L
  reclaim : Evicts false X s s₁
  fresh : s₁.cnt f = 1
  swapped : (s₁.pte t vpn).swapped = true
  copy : s₁.data f = s₁.disk (s.pte t vpn).num ∨ c = false
  refs : 0 < s.noff → Gains (s.refs X) (s₁.refs (f ::ₘ X))
  moving : ∀ s₂, ¬ Stuck t vpn s s₂
  result : ∃ x env, s' = (((s₁.setSlot (s.pte t vpn).num false).addFetched x).setPte t vpn
    ((s₁.pte t vpn).toFrame f)).setEnv env

def SwappedIn (c : Bool) (X L : Multiset Nat) (t vpn : Nat) (s : PgState) (r : Int) (s' : PgState) :
    Prop :=
  r = 1 ∧ s' = s ∧ s.swapready = true ∧ (s.pte t vpn).swapped = false ∨
    r = -1 ∧ Next c X L s s' ∧ Stuck t vpn s s' ∧ (0 < s.noff → s' = s.setEnv s'.env) ∨
    r = 0 ∧ (s.pte t vpn).swapped = true ∧ ∃ f s₁, BroughtBack c X L t vpn f s s₁ s'

theorem pbufFind_some (h : s.pbufFind k = some i) :
    i < SWAP_PBUF_SIZE ∧ ∃ b, s.pbuf i = some b ∧ b.slot = k := by
  unfold PgState.pbufFind at h
  refine ⟨List.mem_range.1 (List.mem_of_find?_eq_some h), ?_⟩
  have hp := List.find?_some h
  cases hb : s.pbuf i with
  | none =>
    rw [hb] at hp
    cases hp
  | some b =>
    rw [hb] at hp
    exact ⟨b, rfl, of_decide_eq_true hp⟩

theorem pbufFind_none (h : s.pbufFind k = none) : s.Unbuffered k := by
  intro i b hi hb he
  unfold PgState.pbufFind at h
  have hn := List.find?_eq_none.1 h i (List.mem_range.2 hi)
  rw [hb] at hn
  exact hn (decide_eq_true he)

theorem Evicts.setBuf_none : Evicts g X s (s.setBuf i none) := by
  have hpbuf : ∀ j b, (s.setBuf i none).pbuf j = some b → s.pbuf j = some b := by
    intro j b hb
    have hb : update s.pbuf i none j = some b := hb
    by_cases hj : j = i
    · rw [hj, update_self] at hb
      cases hb
    · rwa [update_of_ne hj] at hb
  exact ⟨.hidden rfl rfl rfl rfl rfl rfl fun _ => hpbuf,
    fun k hk => ⟨hk, fun hu j b hj hb => hu j b hj (hpbuf j b hb)⟩⟩

def Walked (c : Bool) (X L : Multiset Nat) (t vpn : Nat) (s : PgState) (r : Option Nat)
    (s' : PgState) : Prop :=
  s' = s ∧ r = (s.pte t vpn).userFrame ∧ (s.pte t vpn).swapped = false ∨
    r = none ∧ (s.pte t vpn).swapped = true ∧ Next c X L s s' ∧ Stuck t vpn s s' ∨
    r = (s'.pte t vpn).userFrame ∧ (s.pte t vpn).swapped = true ∧
      ∃ f s₁, BroughtBack c X L t vpn f s s₁ s'

theorem Pte.userFrame_none (h : e.valid = false) : e.userFrame = none :=
  if_neg fun he => Bool.false_ne_true (h.symm.trans he.1)

theorem Walked.inv (h : Inv c s X L) (hw : Walked c X L t vpn s r s') : Inv c s' X L := by
  rcases hw with ⟨rfl, -⟩ | ⟨-, -, hn, -⟩ | ⟨-, -, f, s₁, hb⟩
  · exact h
  · exact hn.1
  · exact hb.inv

section walk
variable (hE : ∀ e, e ≠ .remap → E e)
include hE

theorem walkNode_spec (h : Inv c s X L) (hlive : s.live t = true) (hm : m.inside)
    (hlow : ∀ j, m = .low j → (s.table t).node (.mid (j / 512)) ≠ 0) :
    wp E (walkNode t m) s (fun r s' => Grown c X L s s' ∧ (r = true → (s'.table t).node m ≠ 0) ∧
      ((s.table t).node m ≠ 0 → s' = s ∧ r = true)) := by
  unfold walkNode
  rw [wp_bind, wp_get, wp_ite]
  split
  · next h0 => exact ⟨⟨h, .refl X s⟩, fun _ => h0, fun _ => ⟨rfl, rfl⟩⟩
  · next h0 =>
    have h0 : (s.table t).node m = 0 := not_not.1 h0
    refine (kalloc_spec hE h).bind fun r s₁ h₁ => ?_
    cases r with
    | none => exact ⟨⟨h₁.1, h₁.2.grow⟩, fun hr => (nomatch hr), fun hn => (hn h0).elim⟩
    | some f =>
      obtain ⟨hinv, hev, h1⟩ := h₁
      have hnode : (s₁.table t).node = (s.table t).node := funext fun m' => hev.node t m' (.inl rfl)
      obtain ⟨hinv', hev'⟩ := hinv.write_fresh h1 (fun _ => 0)
      have hset := hinv'.setNode (t := t) (m := m) (hev.live_of hlive) hm
        ((congrFun hnode m).trans h0) (fun j hj => by
          show (s₁.table t).node _ ≠ 0
          rw [hnode]
          exact hlow j hj)
      have hf : f ≠ 0 :=
        Nat.ne_of_gt (hinv.frames.range f (mem_refs_hand (Multiset.mem_cons_self f X))).1
      refine (wp_bind _ _).2
        ((wp_modify _).2 ((wp_bind _ _).2 ((wp_modify _).2 ((wp_pure _).2 ?_))))
      refine ⟨⟨hset, (hev.grow.trans hev').trans (.setNode ((congrFun hnode m).trans h0))⟩,
        fun _ => ?_, fun hn => (hn h0).elim⟩
      rw [setNode_node, if_pos ⟨rfl, rfl⟩]
      exact hf

theorem walkAlloc_spec (h : Inv c s X L) (hlive : s.live t = true) :
    wp E (walkAlloc t vpn) s (fun r s' => Grown c X L s s' ∧
      (r = true → vpn < NVPN ∧ s'.Reached t vpn) ∧ (s.Reached t vpn → s' = s ∧ r = true)) := by
  unfold walkAlloc
  rw [wp_ite]
  split
  · exact hE _ (by decide)
  · next hlt =>
    have hlt : vpn < NVPN := Nat.lt_of_not_le hlt
    have hmid := Node.mid_inside hlt
    have hlow := Node.low_inside hlt
    refine (wp_bind _ _).2
      ((walkNode_spec hE h hlive hmid (fun j hj => nomatch hj)).mono fun r s₁ h₁ => ?_)
    obtain ⟨hg, hyes, hsame⟩ := h₁
    rw [wp_ite]
    split
    · next hr =>
      have hdiv : vpn / 2 ^ 9 / 512 = vpn / 2 ^ 18 := Nat.div_div_eq_div_mul vpn (2 ^ 9) 512
      refine (walkNode_spec hE hg.1 (hg.2.live_of hlive) hlow (fun j hj => ?_)).mono fun r₂ s₂ h₂ =>
        ?_
      · cases hj
        rw [hdiv]
        exact hyes hr
      · obtain ⟨hg₂, hyes₂, hsame₂⟩ := h₂
        refine ⟨hg.trans hg₂, fun hr₂ => ⟨hlt, ?_, hyes₂ hr₂⟩, fun hreach => ?_⟩
        · rw [hg₂.2.node t _ (.inr (hyes hr))]
          exact hyes hr
        · obtain ⟨rfl, -⟩ := hsame hreach.1
          exact hsame₂ hreach.2
    · next hr =>
      refine ⟨hg, fun hf => (nomatch hf), fun hreach => ?_⟩
      exact (hr (hsame hreach.1).2).elim

theorem mappages_spec (hR : (s.pte t vpn).valid = true → E .remap)
    (h : Inv c s (f ::ₘ X) L) (hlive : s.live t = true)
    (hlt : (s.pte t vpn).valid = false → vpn < NVPN → vpn < TRAPFRAME)
    (hperm : perm.swapped = false) :
    wp E (mappages t vpn f perm) s (Maps c X L t vpn f perm s) := by
  unfold mappages
  refine (walkAlloc_spec hE h hlive).bind fun r s₁ h₁ => ?_
  obtain ⟨hg, hyes, hsame⟩ := h₁
  by_cases hv : (s.pte t vpn).valid = true
  · obtain ⟨rfl, rfl⟩ := hsame (h.shaped.used t vpn (.inl hv)).2
    rw [if_pos rfl, wp_bind, wp_get, if_pos hv]
    exact hR hv
  · have hv : (s.pte t vpn).valid = false := Bool.eq_false_of_not_eq_true hv
    have hcore := hg.2.invalid hv
    have hv₁ : (s₁.pte t vpn).valid = false := (Pte.core_valid hcore).trans hv
    cases r with
    | false => exact ⟨fun hreach => (nomatch (hsame hreach).2), hg⟩
    | true =>
      rw [if_pos rfl, wp_bind, wp_get, if_neg (by rw [hv₁]; exact Bool.false_ne_true), wp_bind]
      refine (wp_modify _).2 ((wp_pure _).2 ⟨hv, ?_, s₁, hg, rfl⟩)
      rw [← Pte.core_slot hcore]
      exact hg.1.map (hg.2.live_of hlive) (hyes rfl).2 (hlt hv (hyes rfl).1) hv₁ rfl hperm rfl

theorem swapinFrame_spec (h : Inv c s (f ::ₘ X) L)
    (hev : Evicts false X s₀ s) (h1 : s.cnt f = 1) (hs : (s.pte t vpn).swapped = true)
    (hnum : (s.pte t vpn).num = (s₀.pte t vpn).num)
    (hc : c = true → s.Unbuffered (s₀.pte t vpn).num ∧ s.data f = s.disk (s₀.pte t vpn).num)
    (hrefs : 0 < s₀.noff → Gains (s₀.refs X) (s.refs (f ::ₘ X)))
    (hmove : ∀ s₂, ¬ Stuck t vpn s₀ s₂) :
    wp E (swapinFrame t vpn (s₀.pte t vpn).num f) s
    (fun _ s' => BroughtBack c X L t vpn f s₀ s s') := by
  have hv := h.shaped.swapped_invalid hs
  have hslot : (s.pte t vpn).slot = (s₀.pte t vpn).num + 1 :=
    (Pte.slot_of_swapped hs hv).trans (congrArg (· + 1) hnum)
  have hlt : ¬ SWAP_PAGES ≤ (s₀.pte t vpn).num := by
    rw [← hnum]
    exact Nat.not_le.2 (h.slot_lt hs)
  have hmap := h.map (e := (s.pte t vpn).toFrame f) (h.shaped.live_of_used (.inr hs))
    (h.shaped.used t vpn (.inr hs)).2 (h.shaped.low_of_swapped hs) hv rfl rfl rfl
  rw [hslot, nonzero_of_ne (Nat.succ_ne_zero _), Multiset.singleton_add] at hmap
  have hun := hmap.unmark (fun hct => (hc hct).1)
  have hfetch := hun.addFetched (x := ⟨s.data f, s.saved t vpn⟩) fun hct => by
    show s.data f = s.saved t vpn
    rw [(hc hct).2, ← hnum]
    exact (h.content hct).kept t vpn hs
  unfold swapinFrame swapfree
  rw [if_neg hlt, wp_bind, wp_modify, wp_bind, wp_modify, wp_bind, wp_get, wp_bind]
  refine (wp_modify _).2 (wp_swapThrottle (hE _ (by decide)) fun env => ?_)
  refine ⟨hfetch.env env, h, hev, h1, hs, ?_, hrefs, hmove, ⟨s.data f, s.saved t vpn⟩, env, rfl⟩
  cases c with
  | false => exact .inr rfl
  | true => exact .inl (hc rfl).2

theorem kalloc_spec_locked (h : Inv c s X L) :
    wp E kalloc s (fun r s' => Alloced c X L s r s' ∧ (0 < s.noff → Tried c X L s r s')) := by
  by_cases hn : 0 < s.noff
  · exact ((kalloc_spec hE h).and (kalloc_locked h hn)).mono fun _ _ h₁ => ⟨h₁.1, fun _ => h₁.2⟩
  · exact (kalloc_spec hE h).mono fun _ _ h₁ => ⟨h₁, fun hpos => (hn hpos).elim⟩

theorem swapin_spec (h : Inv c s X L) :
    wp E (swapin t vpn) s (SwappedIn c X L t vpn s) := by
  unfold swapin
  rw [wp_bind, wp_get, wp_ite]
  split
  · next hready => exact .inr (.inl ⟨rfl, ⟨h, .refl X s⟩, .inl ⟨hready, rfl⟩, fun _ => rfl⟩)
  · next hready =>
    rw [wp_bind]
    have hready : s.swapready = true := Bool.eq_true_of_not_eq_false hready
    refine wp_lookup (fun _ => hE _ (by decide)) (fun _ hn => .inl ⟨rfl, rfl, hready, ?_⟩)
      fun _ _ => ?_
    · by_contra hs
      exact hn (h.shaped.used t vpn (.inr (Bool.eq_true_of_not_eq_false hs))).2
    · rw [wp_ite]
      split
      · next hs => exact .inl ⟨rfl, rfl, hready, hs⟩
      · next hs =>
        have hs : (s.pte t vpn).swapped = true := Bool.eq_true_of_not_eq_false hs
        unfold swapPbufGet
        rw [wp_bind, wp_bind, wp_get]
        cases hfind : s.pbufFind (s.pte t vpn).num with
        | some i =>
          obtain ⟨hi, b, hb, hslot⟩ := pbufFind_some hfind
          have hout := h.unbuf hi hb
          have hev := Evicts.setBuf_none (g := false) (X := X) (s := s) (i := i)
          show wp E (do set (s.setBuf i none); pure ((s.pbuf i).map Buffered.frame)) s _
          rw [hb, wp_bind, wp_set]
          refine (wp_pure _).2 ((wp_bind _ _).2 ?_)
          refine (swapinFrame_spec hE hout hev (h.exclusive i b hi hb).2 hs rfl (fun hc => ?_)
            (fun _ => ?_) fun s₂ hstuck => ?_).mono
            fun _ s' h' => (wp_pure _).2 (.inr (.inr ⟨rfl, hs, b.frame, _, h'⟩))
          · refine ⟨hslot ▸ (h.content hc).unbuf hi hb, ?_⟩
            rw [← hslot]
            exact (h.content hc).copies i b hi hb
          · rw [refs_unbuf hi hb (h.exclusive i b hi hb).1]
            exact .refl _
          · rcases hstuck with ⟨hno, -⟩ | ⟨-, -, hun, -⟩
            · exact Bool.false_ne_true (hno.symm.trans hready)
            · exact hun i b hi hb hslot
        | none =>
          have hunbuf := pbufFind_none hfind
          refine (wp_pure _).2
            ((wp_bind _ _).2 ((kalloc_spec_locked hE h).run.mono fun r s₁ h₁ => ?_))
          obtain ⟨hrun, h₁, hlocked⟩ := h₁
          cases r with
          | none =>
            exact .inr (.inl ⟨rfl, h₁, .inr ⟨hready, hs, hunbuf, hrun⟩, hlocked⟩)
          | some f =>
            obtain ⟨hinv, hev, h1⟩ := h₁
            have hcore := hev.invalid (h.shaped.swapped_invalid hs)
            have hs₁ : (s₁.pte t vpn).swapped = true := (Pte.core_swapped hcore).trans hs
            have hun₁ := (hev.fresh _ (h.marked hs)).2 hunbuf
            show wp E (swapRead _ f >>= _) s₁ _
            unfold swapRead
            rw [wp_bind, wp_bind]
            refine wp_bread (hE _ (by decide)) fun env => (wp_modify _).2 ((wp_bind _ _).2 ?_)
            obtain ⟨hinv', hev'⟩ := (hinv.env env).write_fresh (g := false) h1
              (s₁.disk (s.pte t vpn).num)
            refine (swapinFrame_spec hE hinv' ((hev.trans (.env X s₁ env)).trans hev') h1 hs₁
              (Pte.core_num hcore) (fun _ => ⟨hun₁, update_self _ _ _⟩) (fun hn => ?_)
              fun s₂ hstuck => ?_).mono fun _ s' h' => (wp_pure _).2
                (.inr (.inr ⟨rfl, hs, f, _, h'⟩))
            · obtain ⟨-, ht, hf⟩ := hlocked hn
              refine ⟨{f}, ?_, fun f' hf' => Multiset.mem_singleton.1 hf' ▸ hf⟩
              have hrefs : s₁.refs X = s.refs X := by
                rw [ht.only]
                rfl
              show s₁.refs (f ::ₘ X) = _
              rw [refs_cons, hrefs, add_comm, Multiset.singleton_add]
            · rcases hstuck with ⟨hno, -⟩ | ⟨-, -, -, hk⟩
              · exact Bool.false_ne_true (hno.symm.trans hready)
              · rw [hrun] at hk
                cases hk

theorem walkaddr_spec (h : Inv c s X L) :
    wp E (walkaddr t vpn) s (Walked c X L t vpn s) := by
  have hunused (hno : ¬ (vpn < NVPN ∧ s.Reached t vpn)) : Walked c X L t vpn s none s := by
    refine .inl ⟨rfl, (Pte.userFrame_none ?_).symm, ?_⟩
    · by_contra hv
      exact hno (h.shaped.used t vpn (.inl (Bool.eq_true_of_not_eq_false hv)))
    · by_contra hs
      exact hno (h.shaped.used t vpn (.inr (Bool.eq_true_of_not_eq_false hs)))
  unfold walkaddr
  rw [wp_ite]
  split
  · next hle => exact hunused fun hr => Nat.not_le.2 hr.1 hle
  · rw [wp_bind]
    refine wp_lookup (fun _ => hE _ (by decide)) (fun _ hn => hunused fun hr => hn hr.2) fun _ _ =>
      ?_
    rw [wp_ite]
    split
    · next hv => exact .inl ⟨rfl, rfl, h.shaped.single t vpn hv⟩
    · next hv =>
      rw [wp_ite]
      split
      · next hs =>
        refine (swapin_spec hE h).bind fun r s₁ h₁ => ?_
        rcases h₁ with ⟨-, -, -, hns⟩ | ⟨rfl, hn, hstuck, -⟩ | ⟨rfl, -, hb⟩
        · exact (Bool.false_ne_true (hns.symm.trans hs)).elim
        · exact .inr (.inl ⟨rfl, hs, hn, hstuck⟩)
        · exact .inr (.inr ⟨rfl, hs, hb⟩)
      · next hs =>
        refine .inl ⟨rfl, (Pte.userFrame_none (Bool.eq_false_of_not_eq_true hv)).symm, ?_⟩
        exact Bool.eq_false_of_not_eq_true hs

end walk

end OopsOS.Pg
