import OopsOS.PageSharing

namespace OopsOS.Pg
set_option autoImplicit true
open Function
attribute [local grind =] update_apply

variable {s s' s'' : PgState} {X L : Multiset Nat} {t vpn lo hi f : Nat} {e perm : Pte} {c : Bool}
  {E : Panic → Prop} {g : Bool} {m : Node}

def PgState.slotsOf (s : PgState) (t : Nat) : Multiset Nat :=
  values ((entries s.nframes).filter fun k => k.1 = t) s.slotAt

def PgState.wipe (s : PgState) (t : Nat) : PgState :=
  { s with table := update s.table t { s.table t with pte := fun _ => .zero } }

theorem wipe_node (t' : Nat) : ((s.wipe t).table t').node = (s.table t').node := by
  unfold PgState.wipe
  by_cases ht : t' = t
  · subst ht
    simp
  · simp [ht]

theorem wipe_self (v : Nat) : (s.wipe t).pte t v = .zero := by
  unfold PgState.pte PgState.wipe
  simp

theorem wipe_pte (h : t' ≠ t) (v : Nat) : (s.wipe t).pte t' v = s.pte t' v := by
  unfold PgState.pte PgState.wipe
  simp [h]

theorem wipe_setNode : (s.setNode t m f).wipe t = (s.wipe t).setNode t m f := by
  unfold PgState.wipe PgState.setNode
  simp

theorem wipe_closeTable : (s.wipe t).closeTable t = s.closeTable t := by
  unfold PgState.wipe PgState.closeTable
  simp

theorem kfree_wipe {Q : Unit → PgState → Prop} (h : wp E (kfree f) (s.wipe t) Q) :
    wp E (kfree f) s (fun a s' => Q a (s'.wipe t)) := by
  have hn : (s.wipe t).nframes = s.nframes := rfl
  have hcnt : (s.wipe t).cnt = s.cnt := rfl
  unfold kfree at h ⊢
  rw [wp_bind, wp_get] at h ⊢
  rw [hn, hcnt] at h
  by_cases hout : f = 0 ∨ s.nframes < f
  · rwa [if_pos hout] at h ⊢
  · rw [if_neg hout] at h ⊢
    by_cases h1 : s.cnt f - 1 = 0
    · rw [if_pos h1] at h ⊢
      exact h
    · rw [if_neg h1] at h ⊢
      exact h

theorem kfree_only (hE : E .kfree) : wp E (kfree f) s (fun _ s' => AllocOnly s s') := by
  unfold kfree
  rw [wp_bind, wp_get, wp_ite]
  split
  · exact hE
  · rw [wp_ite]
    split
    · exact (wp_bind _ _).2 (wp_nextCpu fun i env _ => (wp_modify _).2 rfl)
    · exact (wp_set _).2 rfl

theorem Shaped.wipe (h : Shaped s) (hp : ∀ p, s.root p ≠ t) : Shaped (s.wipe t) := by
  refine h.setTable (fun hd => by rw [h.empty t hd]; rfl) { h.fit t with
    entry := fun _ => ⟨?_, fun _ => rfl, fun hv => ?_, fun _ => ⟨rfl, rfl, rfl⟩, fun hs => ?_⟩ }
    fun p hr => (hp p hr).elim
  · rintro (hu | hu) <;> cases hu
  · cases hv
  · cases hs

theorem refsBut_add (Y : Multiset Nat) : s.refsBut t (Y + X) = Y + s.refsBut t X := by
  unfold PgState.refsBut
  rw [add_left_comm]

theorem refs_wipe : (s.wipe t).refs (s.leaves t + X) = s.refs X := by
  have hzero : (s.wipe t).leaves t = 0 := leaves_zero fun v _ => by
    rw [wipe_self]
    rfl
  have hbut : (s.wipe t).refsBut t (s.leaves t + X) = s.refsBut t (s.leaves t + X) := by
    refine refsBut_congr rfl rfl fun k hk => ?_
    refine held_congr (fun t' v he => wipe_pte (fun ht => hk ?_) v)
      (fun t' m _ => by rw [wipe_node]) (fun _ _ => rfl) fun _ _ => rfl
    rw [he, ht]
    rfl
  rw [refs_split (t := t), hzero, zero_add, hbut, refsBut_add, ← refs_split]

theorem slots_wipe : (s.wipe t).slots (s.slotsOf t + L) = s.slots L := by
  have hsplit (s : PgState) (L : Multiset Nat) : s.slots L =
      s.slotsOf t + (values ((entries s.nframes).filter fun k => ¬ k.1 = t) s.slotAt + L) := by
    unfold PgState.slots PgState.slotsOf
    rw [values_filter fun k => k.1 = t, add_assoc]
  have hzero : (s.wipe t).slotsOf t = 0 := by
    apply values_eq_zero
    intro k hk
    obtain ⟨t', v⟩ := k
    have ht : t' = t := (Finset.mem_filter.1 hk).2
    show ((s.wipe t).pte t' v).slot = 0
    rw [ht, wipe_self]
    rfl
  have hrest : values ((entries s.nframes).filter fun k => ¬ k.1 = t) (s.wipe t).slotAt =
      values ((entries s.nframes).filter fun k => ¬ k.1 = t) s.slotAt := by
    refine values_congr fun k hk => ?_
    obtain ⟨t', v⟩ := k
    show ((s.wipe t).pte t' v).slot = (s.pte t' v).slot
    rw [wipe_pte (Finset.mem_filter.1 hk).2]
  rw [hsplit (s.wipe t), hsplit s, hzero, zero_add]
  show values ((entries s.nframes).filter fun k => ¬ k.1 = t) (s.wipe t).slotAt + _ = _
  rw [hrest, add_left_comm]

theorem Inv.wipe (h : Inv c s X L) (hp : ∀ p, s.root p ≠ t) :
    Inv c (s.wipe t) (s.leaves t + X) (s.slotsOf t + L) := by
  refine h.retable (h.shaped.wipe hp) rfl refs_wipe slots_wipe fun hc t' v hs => ?_
  by_cases ht : t' = t
  · rw [ht, wipe_self] at hs
    cases hs
  · rw [wipe_pte ht] at hs ⊢
    exact (h.content hc).kept t' v hs

theorem Shaped.clearNode (h : Shaped s) (hempty : ∀ v, s.pte t v = .zero)
    (hlow : ∀ i, m = .mid i → ∀ j, j / 512 = i → (s.table t).node (.low j) = 0) :
    Shaped (s.setNode t m 0) := by
  have hkept {n : Node} (hn : update (s.table t).node m 0 n ≠ 0) : (s.table t).node n ≠ 0 := by
    rw [update_apply] at hn
    split at hn
    · exact (hn rfl).elim
    · exact hn
  have hfit := h.fit t
  refine h.setTable (fun hd => ?_) ⟨fun v => { hfit.entry v with used := fun hu => ?_ },
    fun n hn => hfit.node n (hkept hn), fun j hj => ?_⟩ fun _ _ _ _ _ hv => hv
  · rw [h.empty t hd]
    unfold Table.empty
    rw [update_eq_self_iff.2 rfl]
  · rw [show (s.table t).pte v = .zero from hempty v] at hu
    rcases hu with hu | hu <;> cases hu
  · refine (update_of_ne ?_ 0 _).trans_ne (hfit.low j (hkept hj))
    intro he
    exact hkept hj (hlow _ he.symm j rfl)

theorem Inv.clearNode (h : Inv c s X L) (hlive : s.live t = true) (hempty : ∀ v, s.pte t v = .zero)
    (hf : (s.table t).node m ≠ 0)
    (hlow : ∀ i, m = .mid i → ∀ j, j / 512 = i → (s.table t).node (.low j) = 0) :
    Inv c (s.setNode t m 0) ((s.table t).node m ::ₘ X) L := by
  have hmem := node_mem.2 ⟨(h.shaped.frame t hlive).2, h.shaped.node t m hf⟩
  refine h.retable (h.shaped.clearNode hempty hlow) rfl (refs_take hmem held_setNode rfl rfl rfl hf)
    slots_setNode fun hc t' v => ?_
  rw [setNode_pte]
  exact (h.content hc).kept t' v

structure Pruned (c : Bool) (X L : Multiset Nat) (t : Nat) (s : PgState) : Prop where
  inv : Inv c (s.wipe t) X L
  live : s.live t = true
  unused : ∀ p, s.root p ≠ t

theorem Pruned.free (hE : E .kfree) (h : Pruned c X L t s) (hf : (s.table t).node m ≠ 0)
    (hlow : ∀ i, m = .mid i → ∀ j, j / 512 = i → (s.table t).node (.low j) = 0) :
    wp E (do
      setNode t m 0
      kfree ((s.table t).node m)) s (fun _ s' => Pruned c X L t s' ∧
        ∀ m', (s'.table t).node m' = if m' = m then 0 else (s.table t).node m') := by
  have hclear := h.inv.clearNode (m := m) h.live wipe_self (by rw [wipe_node]; exact hf)
    fun i hi j hj => by
    rw [wipe_node]
    exact hlow i hi j hj
  rw [wipe_node, ← wipe_setNode] at hclear
  rw [wp_bind]
  show wp E (kfree _) (s.setNode t m 0) _
  refine ((kfree_wipe (s := s.setNode t m 0) (E := E) (kfree_spec hclear)).and (kfree_only hE)).mono
    fun _ s₁ h₁ => ?_
  obtain ⟨⟨hinv, -⟩, honly⟩ := h₁
  have honly : s₁ = { s.setNode t m 0 with
    cnt := s₁.cnt, data := s₁.data, free := s₁.free, env := s₁.env } := honly
  refine ⟨⟨hinv, ?_, ?_⟩, fun m' => ?_⟩
  · rw [honly]
    exact h.live
  · rw [honly]
    exact h.unused
  · rw [honly]
    show ((s.setNode t m 0).table t).node m' = _
    rw [setNode_node]
    by_cases hm : m' = m
    · rw [if_pos ⟨rfl, hm⟩, if_pos hm]
    · rw [if_neg fun he => hm he.2, if_neg hm]

section relive
variable {b : Bool} (htable : s'.table = s.table) (hlive : s'.live = update s.live t b)
include htable hlive

theorem Shaped.relive (h : Shaped s) (hn : s'.nframes = s.nframes)
    (hroot : ∀ p, s'.root p = s.root p)
    (hempty : s.table t = .empty) (hframe : IsFrame s.nframes t) (hp : ∀ p, s.root p ≠ t) :
    Shaped s' := by
  refine .of_fit (fun t' => htable ▸ h.fit t') ?_ ?_ fun p h0 => ?_
  · rw [htable, hlive]
    exact (forall_update_iff s.live fun t b => b = false → s.table t = .empty).2
      ⟨fun _ => hempty, fun t' _ => h.empty t'⟩
  · rw [hn, hlive]
    exact (forall_update_iff s.live fun t b => b = true → IsFrame s.nframes t).2
      ⟨fun _ => hframe, fun t' _ => h.frame t'⟩
  · rw [hroot] at h0 ⊢
    rw [hlive, update_of_ne (hp p)]
    refine ⟨(h.roots p h0).1, fun v hle hlt => ?_⟩
    rw [PgState.pte, htable]
    exact (h.roots p h0).2 v hle hlt

theorem held_relive (hpbuf : s'.pbuf = s.pbuf) :
    s'.held = update s.held (.root t) (if b = true then t else 0) := by
  refine eq_update_iff.2
    ⟨?_, fun k hk => held_congr (fun t' v _ => ?_) (fun t' m _ => by rw [htable])
    (fun t' he => ?_) fun i _ => by rw [hpbuf]⟩
  · show (if s'.live t = true then t else 0) = _
    rw [hlive, update_self]
  · rw [PgState.pte, htable]
    rfl
  · rw [hlive, update_of_ne]
    rintro rfl
    exact hk he

end relive

theorem slots_table (hn : s'.nframes = s.nframes) (htable : s'.table = s.table) :
    s'.slots L = s.slots L := by
  unfold PgState.slots PgState.slotAt PgState.pte
  rw [hn, htable]

theorem kept_table (htable : s'.table = s.table)
    (h : ∀ t v, (s.pte t v).swapped = true → s.disk (s.pte t v).num = s.saved t v) (t v : Nat) :
    (s'.pte t v).swapped = true → s.disk (s'.pte t v).num = s.saved t v := by
  rw [PgState.pte, htable]
  exact h t v

theorem Inv.closeTable (h : Inv c s X L) (hlive : s.live t = true) (hp : ∀ p, s.root p ≠ t)
    (hpte : ∀ v, s.pte t v = .zero) (hnode : ∀ m, (s.table t).node m = 0) :
    Inv c (s.closeTable t) (t ::ₘ X) L := by
  have hempty : s.table t = .empty := by
    have hn : (s.table t).node = fun _ => 0 := funext hnode
    have he : (s.table t).pte = fun _ => .zero := funext hpte
    unfold Table.empty
    rw [← hn, ← he]
  have hsame : (s.closeTable t).table = s.table := update_eq_self_iff.2 hempty.symm
  have hframe := h.shaped.frame t hlive
  refine h.retable (h.shaped.relive hsame rfl rfl (fun _ => rfl) hempty hframe hp) rfl ?_
    (slots_table rfl hsame) fun hc => kept_table hsame (h.content hc).kept
  exact refs_take (root_mem.2 hframe.2) (held_relive hsame rfl rfl) rfl rfl (if_pos hlive)
    (Nat.ne_of_gt hframe.1)

theorem Inv.openTable (h : Inv c s (t ::ₘ X) L) (h1 : s.cnt t = 1) :
    Inv c (s.openTable t) X L ∧ s.live t = false ∧ s.table t = .empty := by
  have hframe := h.frames.range t (mem_refs_hand (Multiset.mem_cons_self t X))
  have h0 : t ≠ 0 := Nat.ne_of_gt hframe.1
  have hlive : s.live t = false := by
    by_contra hl
    have hroot : s.held (.root t) = t := if_pos (Bool.eq_true_of_not_eq_false hl)
    have hs := h.sole (k := .root t) (root_mem.2 hframe.2) (by rwa [hroot]) (by rwa [hroot])
    rw [hroot] at hs
    exact hs.2.2 (Multiset.mem_cons_self t X)
  have hempty := h.shaped.empty t hlive
  have hsame : (s.openTable t).table = s.table := update_eq_self_iff.2 hempty.symm
  have hp : ∀ p, s.root p ≠ t := by
    intro p hr
    have hl := (h.shaped.roots p (hr ▸ h0)).1
    rw [hr, hlive] at hl
    cases hl
  refine ⟨h.retable (h.shaped.relive hsame rfl rfl (fun _ => rfl) hempty hframe hp) rfl ?_
    (slots_table rfl hsame) fun hc => kept_table hsame (h.content hc).kept, hlive, hempty⟩
  have hroot : s.held (.root t) = 0 := if_neg (by rw [hlive]; exact Bool.false_ne_true)
  exact refs_put (root_mem.2 hframe.2) (held_relive hsame rfl rfl) rfl rfl hroot h0

theorem Inv.setHigh (h : Inv c s X L) (hlive : s.live t = true) (hp : ∀ p, s.root p ≠ t)
    (hle : TRAPFRAME ≤ vpn) (hlt : vpn < NVPN) (hreach : e.valid = true → s.Reached t vpn)
    (he : e.user = false ∧ e.swapped = false ∧ e.cow = false) : Inv c (s.setPte t vpn e) X L := by
  have hno (e : Pte) : e.frame vpn = 0 := if_neg fun hv => Nat.not_le.2 hv.2 hle
  apply h.setPte ⟨(h.shaped.frame t hlive).2, hlt⟩
  · apply h.shaped.setPte hlive
    · intro hu
      rcases hu with hu | hu
      · exact ⟨hlt, hreach hu⟩
      · exact (Bool.false_ne_true (he.2.1.symm.trans hu)).elim
    · exact fun _ => he.2.1
    · exact fun _ hl => (Nat.not_le.2 hl hle).elim
    · exact fun hs => (Bool.false_ne_true (he.2.1.symm.trans hs)).elim
    · exact fun _ => ⟨he, fun hr => (hp _ hr.choose_spec).elim⟩
  · rw [hno, hno]
  · rw [Pte.slot_of_unswapped he.2.1, Pte.slot_of_unswapped (h.shaped.high t vpn hle).2.1]
  · exact fun _ hs => (Bool.false_ne_true (he.2.1.symm.trans hs)).elim

structure DropsHigh (t vpn : Nat) (s s' : PgState) : Prop where
  only : s' = { s with table := s'.table }
  gone : (s'.pte t vpn).valid = false
  others : ∀ v, v ≠ vpn → s'.pte t v = s.pte t v

def LeftFrames (s : PgState) (t lo : Nat) (Y : Multiset Nat) : Prop :=
  ∀ f, f ∈ Y ↔ ∃ v, lo ≤ v ∧ v < TRAPFRAME ∧ (s.pte t v).valid = true ∧ (s.pte t v).num = f

def LeftSlots (s : PgState) (t lo : Nat) (Z : Multiset Nat) : Prop :=
  ∀ k, k ∈ Z ↔ ∃ v, lo ≤ v ∧ (s.pte t v).swapped = true ∧ (s.pte t v).num + 1 = k

theorem mem_leaves (h : Shaped s) :
    f ∈ s.leaves t ↔ ∃ v, v < TRAPFRAME ∧ (s.pte t v).valid = true ∧ (s.pte t v).num = f := by
  unfold PgState.leaves
  rw [mem_values]
  constructor
  · intro hm
    obtain ⟨h0, k, hk, hf⟩ := hm
    obtain ⟨v, rfl⟩ := Place.eq_leaf (Finset.mem_filter.1 hk).2
    have hf : (s.pte t v).frame v = f := hf
    unfold Pte.frame at hf
    split at hf
    · next hv => exact ⟨v, hv.2, hv.1, hf⟩
    · exact (h0 hf.symm).elim
  · intro hm
    obtain ⟨v, hlt, hv, hf⟩ := hm
    refine ⟨hf ▸ h.mapped t v hv hlt, .leaf t v, Finset.mem_filter.2 ⟨?_, rfl⟩, ?_⟩
    · exact leaf_mem.2 (h.entry_mem (.inl hv))
    · exact (Pte.frame_of_valid hv hlt).trans hf

theorem mem_slotsOf (h : Shaped s) :
    k ∈ s.slotsOf t ↔ ∃ v, (s.pte t v).swapped = true ∧ (s.pte t v).num + 1 = k := by
  unfold PgState.slotsOf
  rw [mem_values]
  constructor
  · intro hm
    obtain ⟨h0, ⟨t', v⟩, hk, hf⟩ := hm
    have ht : t' = t := (Finset.mem_filter.1 hk).2
    subst ht
    have hf : (s.pte t' v).slot = k := hf
    unfold Pte.slot at hf
    split at hf
    · next hs => exact ⟨v, hs.1, hf⟩
    · exact (h0 hf.symm).elim
  · intro hm
    obtain ⟨v, hs, hf⟩ := hm
    refine ⟨hf ▸ Nat.succ_ne_zero _, (t, v), Finset.mem_filter.2 ⟨?_, rfl⟩, ?_⟩
    · exact mem_entries.2 (h.entry_mem (.inr hs))
    · exact (Pte.slot_of_swapped hs (h.swapped_invalid hs)).trans hf

theorem eq_trampoline (hle : TRAPFRAME ≤ v) (hlt : v < NVPN) (hne : v ≠ TRAPFRAME) :
    v = TRAMPOLINE := by
  have hlt : v < TRAPFRAME + 2 := hlt
  show v = TRAPFRAME + 1
  omega

structure Blank (s : PgState) (t : Nat) : Prop where
  live : s.live t = true
  alone : ∀ p, s.root p ≠ t
  unused : ∀ v, v < TRAPFRAME → (s.pte t v).Unused

theorem Blank.evicts (h : Blank s t) (hev : Evicts g X s s') : Blank s' t where
  live := hev.live_of h.live
  alone p := by
    rw [hev.root]
    exact h.alone p
  unused v hv := by
    obtain ⟨hval, hs⟩ := h.unused v hv
    have hcore := hev.invalid hval
    exact ⟨(Pte.core_valid hcore).trans hval, (Pte.core_swapped hcore).trans hs⟩

theorem Blank.setHigh (h : Blank s t) (hle : TRAPFRAME ≤ vpn) : Blank (s.setPte t vpn e) t where
  live := h.live
  alone := h.alone
  unused v hv := by
    have hne : v ≠ vpn := Nat.ne_of_lt (hv.trans_le hle)
    rw [setPte_of_ne fun he => hne he.2]
    exact h.unused v hv

theorem Blank.drops (h : Blank s t) (hle : TRAPFRAME ≤ vpn) (hd : DropsHigh t vpn s s') :
    Blank s' t := by
  have honly := hd.only
  refine ⟨?_, ?_, fun v hv => ?_⟩
  · rw [honly]
    exact h.live
  · rw [honly]
    exact h.alone
  · rw [hd.others v (Nat.ne_of_lt (hv.trans_le hle))]
    exact h.unused v hv

section release
variable (hE : ∀ e, e ≠ .remap → E e)
include hE

theorem freeLow_spec (h : Pruned c X L t s) :
    wp E (freeLow t j) s (fun _ s' => Pruned c X L t s' ∧
      ∀ m, (s'.table t).node m = if m = .low j then 0 else (s.table t).node m) := by
  unfold freeLow
  rw [wp_bind, wp_get, wp_ite]
  split
  · next h0 =>
    refine (wp_pure _).2 ⟨h, fun m => ?_⟩
    by_cases hm : m = .low j
    · rw [if_pos hm, hm, h0]
    · rw [if_neg hm]
  · next hf =>
    generalize List.any _ _ = wild
    cases wild with
    | true => exact hE _ (by decide)
    | false => exact h.free (hE _ (by decide)) hf fun i hi => nomatch hi

theorem freeLows_spec (h : Pruned c X L t s) (lo n : Nat) :
    wp E (loop lo n () fun j _ => freeLow t j) s (fun _ s' => Pruned c X L t s' ∧
      (∀ i, (s'.table t).node (.mid i) = (s.table t).node (.mid i)) ∧
      ∀ j, lo ≤ j → j < lo + n → (s'.table t).node (.low j) = 0) := by
  refine wp_loop (fun k _ s' => Pruned c X L t s' ∧
    (∀ i, (s'.table t).node (.mid i) = (s.table t).node (.mid i)) ∧
    ∀ j, lo ≤ j → j < k → (s'.table t).node (.low j) = 0)
    ⟨h, fun _ => rfl, fun j hlo hhi => (Nat.not_lt.2 hlo hhi).elim⟩ ?_
  intro k _ s₁ _ _ h₁
  obtain ⟨hp, hmid, hlow⟩ := h₁
  refine (freeLow_spec hE hp).mono fun _ s₂ h₂ => ⟨h₂.1, fun i => ?_, fun j hlo hhi => ?_⟩
  · rw [h₂.2, if_neg (fun he => nomatch he)]
    exact hmid i
  · rw [h₂.2]
    split
    · rfl
    · next hne =>
      have hj : j ≠ k := fun he => hne (congrArg Node.low he)
      exact hlow j hlo (by omega)

theorem freeMid_spec (h : Pruned c X L t s) :
    wp E (freeMid t i) s (fun _ s' => Pruned c X L t s' ∧ (s'.table t).node (.mid i) = 0 ∧
      ∀ i', (s.table t).node (.mid i') = 0 → (s'.table t).node (.mid i') = 0) := by
  unfold freeMid
  rw [wp_bind, wp_get, wp_ite]
  split
  · next h0 => exact (wp_pure _).2 ⟨h, h0, fun _ hz => hz⟩
  · next hf =>
    rw [wp_bind]
    refine (freeLows_spec hE h (i * 512) 512).mono fun _ s₁ h₁ => ?_
    obtain ⟨hp, hmid, hlow⟩ := h₁
    have hf₁ : (s₁.table t).node (.mid i) ≠ 0 := by
      rw [hmid]
      exact hf
    rw [← hmid]
    refine (hp.free (hE _ (by decide)) hf₁ fun i' hi j hj => ?_).mono fun _ s₂ h₂ => ⟨h₂.1, ?_, ?_⟩
    · cases hi
      exact hlow j (by omega) (by omega)
    · rw [h₂.2, if_pos rfl]
    · intro i' hz
      rw [h₂.2]
      split
      · rfl
      · rw [hmid]
        exact hz

section
variable (h : Inv c s X L)
include h

theorem freewalk_spec (hlive : s.live t = true) (hp : ∀ p, s.root p ≠ t) :
    wp E (freewalk t) s (fun _ s' => Inv c s' (s.leaves t + X) (s.slotsOf t + L)) := by
  unfold freewalk
  rw [wp_bind]
  refine (wp_loop (fun i _ s' => Pruned c (s.leaves t + X) (s.slotsOf t + L) t s' ∧
    ∀ i', i' < i → (s'.table t).node (.mid i') = 0)
    ⟨⟨h.wipe hp, hlive, hp⟩, fun i' hi' => (Nat.not_lt_zero i' hi').elim⟩ ?_).mono fun _ s₁ h₁ => ?_
  · intro i _ s₁ _ _ h₁
    refine (freeMid_spec hE h₁.1).mono fun _ s₂ h₂ => ⟨h₂.1, fun i' hi' => ?_⟩
    by_cases he : i' = i
    · rw [he]
      exact h₂.2.1
    · exact h₂.2.2 i' (h₁.2 i' (by omega))
  · obtain ⟨hpr, hmid⟩ := h₁
    have hnode : ∀ m, ((s₁.wipe t).table t).node m = 0 := by
      intro m
      by_contra hm
      have hin := hpr.inv.shaped.node t m hm
      cases m with
      | mid i =>
        rw [wipe_node] at hm
        exact hm (hmid i (by
          rw [Nat.zero_add]
          exact hin))
      | low j =>
        have hlow := hpr.inv.shaped.low t j hm
        rw [wipe_node] at hlow
        exact hlow (hmid _ (by
          rw [Nat.zero_add]
          exact Nat.div_lt_of_lt_mul hin))
    have hclose := hpr.inv.closeTable hpr.live hpr.unused wipe_self hnode
    rw [wipe_closeTable] at hclose
    rw [wp_bind, wp_modify]
    exact (kfree_spec hclose).mono fun _ s₂ h₂ => h₂.1

theorem dropHigh_spec (hp : ∀ p, s.root p ≠ t) (hle : TRAPFRAME ≤ vpn) :
    wp E (uvmunmap t (vpn * PGSIZE) 1 false) s
    (fun _ s' => Inv c s' X L ∧ DropsHigh t vpn s s') := by
  have hone : wp E (unmapPage t vpn false) s (fun _ s' => Inv c s' X L ∧ DropsHigh t vpn s s') := by
    have hset (hlt : vpn < NVPN) (hreach : s.Reached t vpn) :
        Inv c (s.setPte t vpn .zero) X L ∧ DropsHigh t vpn s (s.setPte t vpn .zero) :=
      ⟨h.setHigh (h.shaped.live_of_node hreach.1) hp hle hlt (fun hv => nomatch hv) ⟨rfl, rfl, rfl⟩,
        rfl, by rw [setPte_self]; rfl, fun v hv => setPte_of_ne fun he => hv he.2⟩
    unfold unmapPage
    rw [wp_bind]
    refine wp_lookup (fun _ => hE _ (by decide)) (fun _ hn => ?_) fun hlt hreach => ?_
    · refine (wp_pure _).2 ⟨h, rfl, ?_, fun _ _ => rfl⟩
      exact Bool.eq_false_of_not_eq_true fun hv => hn (h.shaped.used t vpn (.inl hv)).2
    · rw [wp_ite]
      split
      · rw [if_neg fun hf => Bool.false_ne_true hf.1]
        exact wp_setPte.2 (hset hlt hreach)
      · rw [wp_ite]
        split
        · exact hE _ (by decide)
        · rw [if_neg Bool.false_ne_true]
          exact wp_setPte.2 (hset hlt hreach)
  unfold uvmunmap
  rw [if_neg (by rw [Nat.mul_mod_left]; exact fun hne => hne rfl), Nat.mul_div_cancel _ (by decide)]
  unfold loop loop
  exact hone.bind fun _ s₁ h₁ => (wp_pure _).2 h₁

theorem uvmfree_spec (hlive : s.live t = true)
    (hp : ∀ p, s.root p ≠ t) (sz : Nat) (hhigh : Spares s t 0 (pagesOf sz))
    (hb : c = true → NoneBuffered s t 0 (pagesOf sz)) :
    wp E (uvmfree t sz) s (fun _ s' => ∃ Y Z, Inv c s' (Y + X) (Z + L) ∧
      LeftFrames s t (pagesOf sz) Y ∧ LeftSlots s t (pagesOf sz) Z) := by
  unfold uvmfree
  have hspec := uvmunmap_spec hE h t 0 (pagesOf sz)
    (by rw [Nat.zero_div, Nat.zero_add]; exact hhigh)
    (fun hc => by rw [Nat.zero_div, Nat.zero_add]; exact hb hc)
  rw [Nat.zero_div, Nat.zero_add] at hspec
  refine hspec.bind fun _ s₁ h₁ => ?_
  obtain ⟨hinv, hu⟩ := h₁
  have honly := hu.only
  have hlive₁ : s₁.live t = true := by
    rw [honly]
    exact hlive
  have hp₁ : ∀ p, s₁.root p ≠ t := by
    rw [honly]
    exact hp
  have hkept : ∀ v, pagesOf sz ≤ v → s₁.pte t v = s.pte t v :=
    fun v hle => hu.outside t v fun hr => Nat.not_lt.2 hle hr.2.2
  refine (freewalk_spec hE hinv hlive₁ hp₁).mono fun _ s₂ h₂ => ⟨_, _, h₂, fun f => ?_, fun k => ?_⟩
  · rw [mem_leaves hinv.shaped]
    refine exists_congr fun v => ?_
    by_cases hv : pagesOf sz ≤ v
    · rw [hkept v hv, and_iff_right hv]
    · have hz := (hu.inside v (Nat.zero_le v) (Nat.lt_of_not_le hv)).1
      rw [hz]
      exact ⟨fun hr => (nomatch hr.2.1), fun hr => (hv hr.1).elim⟩
  · rw [mem_slotsOf hinv.shaped]
    refine exists_congr fun v => ?_
    by_cases hv : pagesOf sz ≤ v
    · rw [hkept v hv, and_iff_right hv]
    · have hz := (hu.inside v (Nat.zero_le v) (Nat.lt_of_not_le hv)).2
      rw [hz]
      exact ⟨fun hr => (nomatch hr.1), fun hr => (hv hr.1).elim⟩

theorem wp_procFreepagetable (hp : ∀ p, s.root p ≠ t) {Q : Unit → PgState → Prop}
    (hrest : ∀ s₁, Inv c s₁ X L → s₁ = { s with table := s₁.table } →
      (∀ v, v < TRAPFRAME → s₁.pte t v = s.pte t v) → Spares s₁ t 0 (pagesOf sz) →
      wp E (uvmfree t sz) s₁ Q) :
    wp E (procFreepagetable t sz) s Q := by
  unfold procFreepagetable
  refine (dropHigh_spec hE h hp (by decide)).bind fun _ s₁ h₁ => ?_
  obtain ⟨hinv₁, hd₁⟩ := h₁
  have ho₁ := hd₁.only
  have hp₁ : ∀ p, s₁.root p ≠ t := by
    rw [ho₁]
    exact hp
  refine (dropHigh_spec hE hinv₁ hp₁ (by decide)).bind fun _ s₂ h₂ => ?_
  obtain ⟨hinv₂, hd₂⟩ := h₂
  have ho₂ := hd₂.only
  refine hrest s₂ hinv₂ (by rw [ho₂, ho₁]) (fun v hv => ?_) fun v _ _ hle => ?_
  · exact (hd₂.others v (Nat.ne_of_lt hv)).trans
      (hd₁.others v (Nat.ne_of_lt (hv.trans (by decide))))
  · by_contra hv
    have hv : (s₂.pte t v).valid = true := Bool.eq_true_of_not_eq_false hv
    have hlt := (hinv₂.shaped.used t v (.inl hv)).1
    by_cases he : v = TRAPFRAME
    · rw [he, hd₂.gone] at hv
      cases hv
    · rw [hd₂.others v he, eq_trampoline hle hlt he, hd₁.gone] at hv
      cases hv

theorem procFreepagetable_spec (hlive : s.live t = true)
    (hp : ∀ p, s.root p ≠ t) (hb : c = true → NoneBuffered s t 0 (pagesOf sz)) :
    wp E (procFreepagetable t sz) s (fun _ s' => ∃ Y Z, Inv c s' (Y + X) (Z + L) ∧
      LeftFrames s t (pagesOf sz) Y ∧ LeftSlots s t (pagesOf sz) Z) := by
  refine wp_procFreepagetable hE h hp fun s₂ hinv₂ honly hkept hhigh => ?_
  have hlive₂ : s₂.live t = true := by
    rw [honly]
    exact hlive
  have hp₂ : ∀ p, s₂.root p ≠ t := by
    rw [honly]
    exact hp
  have hb₂ : c = true → NoneBuffered s₂ t 0 (pagesOf sz) := by
    intro hc v hlo hhi hs i b hi hpb
    have he := hkept v (hinv₂.shaped.low_of_swapped hs)
    rw [he] at hs ⊢
    rw [honly] at hpb
    exact hb hc v hlo hhi hs i b hi hpb
  refine (uvmfree_spec hE hinv₂ hlive₂ hp₂ _ hhigh hb₂).mono fun _ s₃ h₃ => ?_
  obtain ⟨Y, Z, hinv, hY, hZ⟩ := h₃
  refine ⟨Y, Z, hinv, fun f => (hY f).trans ?_, fun k => (hZ k).trans ?_⟩
  · refine exists_congr fun v => and_congr_right fun _ => and_congr_right fun hv => ?_
    rw [hkept v hv]
  · refine exists_congr fun v => and_congr_right fun _ => ?_
    by_cases hv : v < TRAPFRAME
    · rw [hkept v hv]
    · have hle := Nat.le_of_not_lt hv
      rw [(hinv₂.shaped.high t v hle).2.1, (h.shaped.high t v hle).2.1]
      exact ⟨fun hr => (nomatch hr.1), fun hr => (nomatch hr.1)⟩

theorem mapHigh_spec (hb : Blank s t) (hle : TRAPFRAME ≤ vpn) (hv : (s.pte t vpn).valid = false)
    (hperm : perm.user = false ∧ perm.swapped = false ∧ perm.cow = false) :
    wp E (mappages t vpn f perm) s (fun r s' => Inv c s' X L ∧ Blank s' t ∧
      (∀ v, TRAPFRAME ≤ v → v ≠ vpn → (s'.pte t v).valid = (s.pte t v).valid) ∧
      (r = true → (s'.pte t vpn).valid = true)) := by
  unfold mappages
  refine (walkAlloc_spec hE h hb.live).bind fun r s₁ h₁ => ?_
  obtain ⟨hg, hyes, -⟩ := h₁
  have hb₁ := hb.evicts hg.2
  have hv₁ : (s₁.pte t vpn).valid = false := (Pte.core_valid (hg.2.invalid hv)).trans hv
  have hsame : ∀ v, TRAPFRAME ≤ v → (s₁.pte t v).valid = (s.pte t v).valid := by
    intro v hle
    cases hg.2.entry t v with
    | kept he => exact Pte.core_valid he
    | dropped hold => exact (Nat.not_le.2 hold.low hle).elim
    | swapped k hold => exact (Nat.not_le.2 hold.low hle).elim
  cases r with
  | false => exact ⟨hg.1, hb₁, fun v hle _ => hsame v hle, fun hr => nomatch hr⟩
  | true =>
    obtain ⟨hlt, hreach⟩ := hyes rfl
    rw [if_pos rfl, wp_bind, wp_get, if_neg (by rw [hv₁]; exact Bool.false_ne_true), wp_bind]
    refine (wp_modify _).2 ((wp_pure _).2 ⟨?_, hb₁.setHigh hle, fun v hle hne => ?_, fun _ => ?_⟩)
    · exact hg.1.setHigh hb₁.live hb₁.alone hle hlt (fun _ => hreach) hperm
    · rw [setPte_of_ne fun he => hne he.2]
      exact hsame v hle
    · rw [setPte_self]

theorem uvmcreate_spec : wp E uvmcreate s (fun r s' => Inv c s' X L ∧
      ∀ t, r = some t → Blank s' t ∧ ∀ v, (s'.pte t v).valid = false) := by
  unfold uvmcreate
  refine (kalloc_spec hE h).bind fun r s₁ h₁ => ?_
  cases r with
  | none => exact ⟨h₁.1, fun t ht => nomatch ht⟩
  | some t =>
    obtain ⟨hinv, hev, h1⟩ := h₁
    obtain ⟨hinv', -⟩ := hinv.write_fresh (g := false) h1 (fun _ => 0)
    obtain ⟨hopen, hlive, hempty⟩ := hinv'.openTable h1
    have hpte : ∀ v, ((s₁.setData t fun _ => 0).openTable t).pte t v = .zero := by
      intro v
      show (update s₁.table t .empty t).pte v = .zero
      rw [update_self]
      rfl
    refine (wp_bind _ _).2 (wp_setData.2 ((wp_bind _ _).2 ((wp_modify _).2 ((wp_pure _).2
      ⟨hopen, fun t' ht' => ?_⟩))))
    cases ht'
    refine ⟨⟨update_self _ _ _, fun p hr => ?_, fun v _ => ?_⟩, fun v => ?_⟩
    · have h0 : t ≠ 0 :=
        Nat.ne_of_gt (hinv.frames.range t (mem_refs_hand (Multiset.mem_cons_self t X))).1
      have hroot : s₁.root p = t := hr
      have hl := (hinv.shaped.roots p (hroot ▸ h0)).1
      rw [hroot] at hl
      exact Bool.false_ne_true (hlive.symm.trans hl)
    · rw [hpte]
      exact ⟨rfl, rfl⟩
    · rw [hpte]
      rfl

end

theorem Blank.uvmfree (hb : Blank s t) (h : Inv c s X L) :
    wp E (uvmfree t 0) s (fun _ s' => Inv c s' X L) := by
  have hzero : pagesOf 0 = 0 := by decide
  refine (uvmfree_spec hE h hb.live hb.alone 0 (fun v _ hhi => ?_) (fun _ v _ hhi => ?_)).mono
    fun _ s₁ h₁ => ?_
  · rw [hzero] at hhi
    exact (Nat.not_lt_zero v hhi).elim
  · rw [hzero] at hhi
    exact (Nat.not_lt_zero v hhi).elim
  · obtain ⟨Y, Z, hinv, hY, hZ⟩ := h₁
    have hY0 : Y = 0 := Multiset.eq_zero_of_forall_notMem fun f hf => by
      obtain ⟨v, -, hlt, hv, -⟩ := (hY f).1 hf
      rw [(hb.unused v hlt).1] at hv
      cases hv
    have hZ0 : Z = 0 := Multiset.eq_zero_of_forall_notMem fun k hk => by
      obtain ⟨v, -, hs, -⟩ := (hZ k).1 hk
      rw [(hb.unused v (h.shaped.low_of_swapped hs)).2] at hs
      cases hs
    rw [hY0, hZ0, zero_add, zero_add] at hinv
    exact hinv

theorem procPagetable_spec (h : Inv c s X L) (trapframe : Nat) :
    wp E (procPagetable trapframe) s (fun r s' => Inv c s' X L ∧
      ∀ t, r = some t → Fresh s' t ∧ ∀ p, s'.root p ≠ t) := by
  unfold procPagetable
  refine (uvmcreate_spec hE h).bind fun r s₁ h₁ => ?_
  cases r with
  | none => exact ⟨h₁.1, fun t ht => nomatch ht⟩
  | some t =>
    obtain ⟨hinv₁, hnew⟩ := h₁
    obtain ⟨hb₁, hv₁⟩ := hnew t rfl
    refine (mapHigh_spec hE hinv₁ hb₁ (by decide) (hv₁ _) ⟨rfl, rfl, rfl⟩).bind
      fun r s₂ h₂ => ?_
    obtain ⟨hinv₂, hb₂, hsame₂, hyes₂⟩ := h₂
    cases r with
    | false =>
      exact (hb₂.uvmfree hE hinv₂).bind fun _ s₃ h₃ => (wp_pure _).2
        ⟨h₃, fun t ht => nomatch ht⟩
    | true =>
      have hv₂ : (s₂.pte t TRAPFRAME).valid = false :=
        (hsame₂ TRAPFRAME (Nat.le_refl _) (by decide)).trans (hv₁ _)
      rw [if_pos rfl]
      refine (mapHigh_spec hE hinv₂ hb₂ (Nat.le_refl _) hv₂ ⟨rfl, rfl, rfl⟩).bind
        fun r s₃ h₃ => ?_
      obtain ⟨hinv₃, hb₃, hsame₃, hyes₃⟩ := h₃
      cases r with
      | false =>
        refine (dropHigh_spec hE hinv₃ hb₃.alone (by decide)).bind fun _ s₄ h₄ => ?_
        have hb₄ := hb₃.drops (by decide) h₄.2
        exact (hb₄.uvmfree hE h₄.1).bind fun _ s₅ h₅ => (wp_pure _).2
          ⟨h₅, fun t ht => nomatch ht⟩
      | true =>
        refine (wp_pure _).2 ⟨hinv₃, fun t' ht' => ?_⟩
        cases ht'
        refine ⟨⟨hb₃.live, hb₃.unused, fun v hle hlt => ?_⟩, hb₃.alone⟩
        by_cases he : v = TRAPFRAME
        · rw [he]
          exact hyes₃ rfl
        · rw [hsame₃ v hle he, eq_trampoline hle hlt he]
          exact hyes₂ rfl

end release

end OopsOS.Pg
