import OopsOS.PageTables
import OopsOS.FramePool
import OopsOS.Family

namespace OopsOS.Pg
set_option autoImplicit true
open Function
attribute [local grind =] update_apply

variable {s s' : PgState} {X X' L L' : Multiset Nat} {t vpn f : Nat} {e : Pte} {c : Bool}

inductive Place where
  | leaf (t vpn : Nat)
  | node (t : Nat) (n : Node)
  | root (t : Nat)
  | buf (i : Nat)
deriving DecidableEq

def Pte.frame (e : Pte) (vpn : Nat) : Nat := if e.valid = true ∧ vpn < TRAPFRAME then e.num else 0

def Pte.slot (e : Pte) : Nat := if e.swapped = true ∧ e.valid = false then e.num + 1 else 0

def PgState.held (s : PgState) : Place → Nat
  | .leaf t vpn => (s.pte t vpn).frame vpn
  | .node t n => (s.table t).node n
  | .root t => if s.live t = true then t else 0
  | .buf i => ((s.pbuf i).map Buffered.frame).getD 0

def PgState.slotAt (s : PgState) (k : Nat × Nat) : Nat := (s.pte k.1 k.2).slot

def entries (n : Nat) : Finset (Nat × Nat) := Finset.range (n + 1) ×ˢ Finset.range NVPN

def Node.places (n : Nat) : Finset (Nat × Node) :=
  (Finset.range (n + 1) ×ˢ Finset.range 512).image (fun k => (k.1, .mid k.2)) ∪
    (Finset.range (n + 1) ×ˢ Finset.range (512 * 512)).image (fun k => (k.1, .low k.2))

def places (n : Nat) : Finset Place :=
  (entries n).image (fun k => .leaf k.1 k.2) ∪ (Node.places n).image (fun k => .node k.1 k.2) ∪
    (Finset.range (n + 1)).image .root ∪ (Finset.range SWAP_PBUF_SIZE).image .buf

def Node.inside : Node → Prop
  | mid i => i < 512
  | low j => j < 512 * 512

theorem Node.mid_inside (h : vpn < NVPN) : (Node.mid (vpn / 2 ^ 18)).inside :=
  Nat.div_lt_of_lt_mul (h.trans (by decide))

theorem Node.low_inside (h : vpn < NVPN) : (Node.low (vpn / 2 ^ 9)).inside :=
  Nat.div_lt_of_lt_mul (h.trans (by decide))

theorem mem_entries : k ∈ entries n ↔ k.1 ≤ n ∧ k.2 < NVPN := by
  rw [entries, Finset.mem_product, Finset.mem_range, Finset.mem_range, Nat.lt_succ_iff]

theorem Node.mem_places : (t, m) ∈ Node.places n ↔ t ≤ n ∧ m.inside := by
  cases m <;> simp [Node.places, Node.inside, Nat.lt_succ_iff]

theorem leaf_mem : Place.leaf t vpn ∈ places n ↔ t ≤ n ∧ vpn < NVPN := by
  simp [places, mem_entries]

theorem node_mem : Place.node t m ∈ places n ↔ t ≤ n ∧ m.inside := by
  simp [places, Node.mem_places]

theorem root_mem : Place.root t ∈ places n ↔ t ≤ n := by
  simp [places, Nat.lt_succ_iff]

theorem buf_mem : Place.buf i ∈ places n ↔ i < SWAP_PBUF_SIZE := by
  simp [places]

def PgState.refs (s : PgState) (X : Multiset Nat) : Multiset Nat :=
  values (places s.nframes) s.held + s.kernel + X

def PgState.slots (s : PgState) (L : Multiset Nat) : Multiset Nat :=
  values (entries s.nframes) s.slotAt + L

def PgState.pool (s : PgState) : Multiset Nat := ∑ c ∈ Finset.range NCPU, (s.free c : Multiset Nat)

structure Shaped (s : PgState) : Prop where
  empty : ∀ t, s.live t = false → s.table t = .empty
  frame : ∀ t, s.live t = true → IsFrame s.nframes t
  used : ∀ t vpn, (s.pte t vpn).valid = true ∨ (s.pte t vpn).swapped = true →
    vpn < NVPN ∧ (s.table t).node (.mid (vpn / 2 ^ 18)) ≠ 0 ∧ (s.table t).node
      (.low (vpn / 2 ^ 9)) ≠ 0
  single : ∀ t vpn, (s.pte t vpn).valid = true → (s.pte t vpn).swapped = false
  mapped : ∀ t vpn, (s.pte t vpn).valid = true → vpn < TRAPFRAME → (s.pte t vpn).num ≠ 0
  node : ∀ t n, (s.table t).node n ≠ 0 → n.inside
  low : ∀ t j, (s.table t).node (.low j) ≠ 0 → (s.table t).node (.mid (j / 512)) ≠ 0
  high : ∀ t vpn, TRAPFRAME ≤ vpn →
    (s.pte t vpn).user = false ∧ (s.pte t vpn).swapped = false ∧ (s.pte t vpn).cow = false
  user : ∀ t vpn, (s.pte t vpn).swapped = true → (s.pte t vpn).user = true
  roots : ∀ p, s.root p ≠ 0 → s.live (s.root p) = true ∧
    ∀ vpn, TRAPFRAME ≤ vpn → vpn < NVPN → (s.pte (s.root p) vpn).valid = true

def PgState.Unbuffered (s : PgState) (k : Nat) : Prop :=
  ∀ i b, i < SWAP_PBUF_SIZE → s.pbuf i = some b → b.slot ≠ k

/-- Both copies of a swapped page are as it was swapped out, and what was brought back was too. -/
structure Content (s : PgState) : Prop where
  marked : ∀ i b, i < SWAP_PBUF_SIZE → s.pbuf i = some b → s.swapmap b.slot = true
  copies : ∀ i b, i < SWAP_PBUF_SIZE → s.pbuf i = some b → s.data b.frame = s.disk b.slot
  distinct : ∀ i j b b', i < SWAP_PBUF_SIZE → j < SWAP_PBUF_SIZE → s.pbuf i = some b →
    s.pbuf j = some b' → b.slot = b'.slot → i = j
  kept : ∀ t vpn, (s.pte t vpn).swapped = true → s.disk (s.pte t vpn).num = s.saved t vpn
  right : ∀ x ∈ s.fetched, x.found = x.saved

/-- The invariant of memory, with frames `X` in hand and lost slots `L`; `c`: also for the contents
of swap. -/
structure Inv (c : Bool) (s : PgState) (X L : Multiset Nat) : Prop where
  shaped : Shaped s
  frames : Counted s.nframes s.cnt s.pool (s.refs X)
  slots : ∀ k, k < SWAP_PAGES → (s.slots L).count (k + 1) = if s.swapmap k = true then 1 else 0
  slotRange : ∀ x ∈ s.slots L, 0 < x ∧ x ≤ SWAP_PAGES
  phand : s.phand < SWAP_PBUF_SIZE
  exclusive : ∀ i b, i < SWAP_PBUF_SIZE → s.pbuf i = some b → b.frame ≠ 0 ∧ s.cnt b.frame = 1
  content : c = true → Content s

section updates

theorem setPte_pte (t' vpn' : Nat) :
    (s.setPte t vpn e).pte t' vpn' = if t' = t ∧ vpn' = vpn then e else s.pte t' vpn' := by
  unfold PgState.pte PgState.setPte
  by_cases ht : t' = t
  · subst ht
    by_cases hv : vpn' = vpn
    · subst hv
      simp
    · simp [hv]
  · simp [ht]

@[simp] theorem setPte_self : (s.setPte t vpn e).pte t vpn = e := by
  rw [setPte_pte, if_pos ⟨rfl, rfl⟩]

theorem forall_setPte {P : Nat → Nat → Pte → Prop} (he : P t vpn e)
    (h : ∀ t' vpn', P t' vpn' (s.pte t' vpn'))
    (t' vpn' : Nat) : P t' vpn' ((s.setPte t vpn e).pte t' vpn') := by
  rw [setPte_pte]
  split
  · next hself =>
    obtain ⟨rfl, rfl⟩ := hself
    exact he
  · exact h t' vpn'

theorem setPte_of_ne (h : ¬ (t' = t ∧ vpn' = vpn)) :
    (s.setPte t vpn e).pte t' vpn' = s.pte t' vpn' := by
  rw [setPte_pte, if_neg h]

@[simp] theorem setPte_node (t' : Nat) :
    ((s.setPte t vpn e).table t').node = (s.table t').node := by
  unfold PgState.setPte
  by_cases ht : t' = t
  · subst ht
    simp
  · simp [ht]

@[simp] theorem setNode_pte (t' vpn' : Nat) : (s.setNode t m f).pte t' vpn' = s.pte t' vpn' := by
  unfold PgState.pte PgState.setNode
  by_cases ht : t' = t
  · subst ht
    simp
  · simp [ht]

theorem setNode_node (t' : Nat) (m' : Node) :
    ((s.setNode t m f).table t').node m' = if t' = t ∧ m' = m then f else (s.table t').node m' := by
  unfold PgState.setNode
  by_cases ht : t' = t
  · subst ht
    by_cases hm : m' = m
    · subst hm
      simp
    · simp [hm]
  · simp [ht]

theorem held_congr (hleaf : ∀ t v, k = .leaf t v → s'.pte t v = s.pte t v)
    (hnode : ∀ t m, k = .node t m → (s'.table t).node m = (s.table t).node m)
    (hroot : ∀ t, k = .root t → s'.live t = s.live t)
    (hbuf : ∀ i, k = .buf i → s'.pbuf i = s.pbuf i) : s'.held k = s.held k := by
  cases k with
  | leaf t v => exact congrArg (Pte.frame · v) (hleaf t v rfl)
  | node t m => exact hnode t m rfl
  | root t => exact congrArg (fun b : Bool => if b = true then t else 0) (hroot t rfl)
  | buf i => exact congrArg (fun b => (b.map Buffered.frame).getD 0) (hbuf i rfl)

theorem held_setPte :
    (s.setPte t vpn e).held = update s.held (.leaf t vpn) (e.frame vpn) := by
  refine eq_update_iff.2 ⟨congrArg (Pte.frame · vpn) setPte_self, fun k hk => ?_⟩
  refine held_congr (fun t' v he => setPte_of_ne ?_) (fun t' m _ => by rw [setPte_node])
    (fun _ _ => rfl) fun _ _ => rfl
  rintro ⟨rfl, rfl⟩
  exact hk he

theorem slotAt_setPte : (s.setPte t vpn e).slotAt = update s.slotAt (t, vpn) e.slot := by
  funext k
  by_cases h : k = (t, vpn)
  · subst h
    simp [PgState.slotAt]
  · rw [update_of_ne h, PgState.slotAt, setPte_of_ne]
    · rfl
    · intro he
      exact h (Prod.ext he.1 he.2)

theorem held_setNode : (s.setNode t m f).held = update s.held (.node t m) f := by
  refine eq_update_iff.2
    ⟨?_, fun k hk => held_congr (fun t' v _ => setNode_pte t' v) (fun t' m' he => ?_)
    (fun _ _ => rfl) fun _ _ => rfl⟩
  · exact (setNode_node t m).trans (if_pos ⟨rfl, rfl⟩)
  · rw [setNode_node, if_neg]
    rintro ⟨rfl, rfl⟩
    exact hk he

theorem slots_setNode : (s.setNode t m f).slots L = s.slots L := by
  unfold PgState.slots PgState.slotAt
  simp only [setNode_pte]
  rfl

end updates

/-- What `Shaped` says of the entry for `vpn` in a table with the given nodes. -/
structure Pte.Fit (node : Node → Nat) (vpn : Nat) (e : Pte) : Prop where
  used : e.valid = true ∨ e.swapped = true →
    vpn < NVPN ∧ node (.mid (vpn / 2 ^ 18)) ≠ 0 ∧ node (.low (vpn / 2 ^ 9)) ≠ 0
  single : e.valid = true → e.swapped = false
  mapped : e.valid = true → vpn < TRAPFRAME → e.num ≠ 0
  high : TRAPFRAME ≤ vpn → e.user = false ∧ e.swapped = false ∧ e.cow = false
  user : e.swapped = true → e.user = true

structure Table.Fit (T : Table) : Prop where
  entry : ∀ vpn, (T.pte vpn).Fit T.node vpn
  node : ∀ n, T.node n ≠ 0 → n.inside
  low : ∀ j, T.node (.low j) ≠ 0 → T.node (.mid (j / 512)) ≠ 0

theorem Shaped.of_fit (hfit : ∀ t, (s.table t).Fit)
    (hempty : ∀ t, s.live t = false → s.table t = .empty)
    (hframe : ∀ t, s.live t = true → IsFrame s.nframes t)
    (hroots : ∀ p, s.root p ≠ 0 → s.live (s.root p) = true ∧
      ∀ vpn, TRAPFRAME ≤ vpn → vpn < NVPN → (s.pte (s.root p) vpn).valid = true) : Shaped s :=
  have hentry t v := (hfit t).entry v
  ⟨hempty, hframe, fun t v => (hentry t v).used, fun t v => (hentry t v).single,
    fun t v => (hentry t v).mapped, fun t => (hfit t).node, fun t => (hfit t).low,
    fun t v => (hentry t v).high, fun t v => (hentry t v).user, hroots⟩

section
variable (h : Shaped s)
include h

theorem Shaped.live_of_used
    (hu : (s.pte t vpn).valid = true ∨ (s.pte t vpn).swapped = true) : s.live t = true := by
  by_contra hl
  have he := h.empty t (Bool.eq_false_of_not_eq_true hl)
  rw [PgState.pte, he] at hu
  rcases hu with hu | hu <;> cases hu

theorem Shaped.entry_mem (hu : (s.pte t vpn).valid = true ∨ (s.pte t vpn).swapped = true) :
    t ≤ s.nframes ∧ vpn < NVPN :=
  ⟨(h.frame t (h.live_of_used hu)).2, (h.used t vpn hu).1⟩

theorem Shaped.live_of_node (hn : (s.table t).node m ≠ 0) : s.live t = true := by
  by_contra hl
  rw [h.empty t (Bool.eq_false_of_not_eq_true hl)] at hn
  exact hn rfl

theorem Shaped.fit (t : Nat) : (s.table t).Fit :=
  ⟨fun v => ⟨h.used t v, h.single t v, h.mapped t v, h.high t v, h.user t v⟩, h.node t, h.low t⟩

theorem Shaped.setTable (hempty : s.live t = false → T = .empty) (hT : T.Fit)
    (hroots : ∀ p, s.root p = t → ∀ vpn, TRAPFRAME ≤ vpn → vpn < NVPN →
      (s.pte t vpn).valid = true → (T.pte vpn).valid = true) :
    Shaped { s with table := update s.table t T } := by
  refine .of_fit ((forall_update_iff s.table fun _ T => T.Fit).2 ⟨hT, fun t' _ => h.fit t'⟩)
    ((forall_update_iff s.table fun t T => s.live t = false → T = .empty).2
      ⟨hempty, fun t' _ => h.empty t'⟩) h.frame fun p hp =>
        ⟨(h.roots p hp).1, fun vpn hle hlt => ?_⟩
  have hv := (h.roots p hp).2 vpn hle hlt
  show ((update s.table t T (s.root p)).pte vpn).valid = true
  by_cases hr : s.root p = t
  · rw [hr, update_self]
    exact hroots p hr vpn hle hlt (hr ▸ hv)
  · rw [update_of_ne hr]
    exact hv

theorem Shaped.setPte (hlive : s.live t = true)
    (hu : e.valid = true ∨ e.swapped = true → vpn < NVPN ∧
      (s.table t).node (.mid (vpn / 2 ^ 18)) ≠ 0 ∧ (s.table t).node (.low (vpn / 2 ^ 9)) ≠ 0)
    (hs : e.valid = true → e.swapped = false)
    (hn : e.valid = true → vpn < TRAPFRAME → e.num ≠ 0) (hus : e.swapped = true → e.user = true)
    (hh : TRAPFRAME ≤ vpn → (e.user = false ∧ e.swapped = false ∧ e.cow = false) ∧
      ((∃ p, s.root p = t) → vpn < NVPN → e.valid = true)) : Shaped (s.setPte t vpn e) := by
  have he : e.Fit (s.table t).node vpn := ⟨hu, hs, hn, fun hle => (hh hle).1, hus⟩
  refine h.setTable (fun hd => absurd (hlive.symm.trans hd) Bool.noConfusion) { h.fit t with
    entry := (forall_update_iff (s.table t).pte fun v e => e.Fit (s.table t).node v).2
      ⟨he, fun v _ => (h.fit t).entry v⟩ } fun p hp => ?_
  exact (forall_update_iff (s.table t).pte fun v e =>
    TRAPFRAME ≤ v → v < NVPN → (s.pte t v).valid = true → e.valid = true).2
      ⟨fun hle hlt _ => (hh hle).2 ⟨p, hp⟩ hlt, fun _ _ _ _ hv => hv⟩

theorem Shaped.setNode (hlive : s.live t = true) (hm : m.inside) (hf : f ≠ 0)
    (hlow : ∀ j, m = .low j → (s.table t).node (.mid (j / 512)) ≠ 0) :
    Shaped (s.setNode t m f) := by
  have hset {n : Node} (hn : (s.table t).node n ≠ 0) : update (s.table t).node m f n ≠ 0 := by
    rw [update_apply]
    split
    · exact hf
    · exact hn
  have hfit := h.fit t
  refine h.setTable (fun hd => absurd (hlive.symm.trans hd) Bool.noConfusion) ⟨fun v =>
      { hfit.entry v with used := fun hu => ((hfit.entry v).used hu).imp_right (.imp hset hset) },
    (forall_update_iff (s.table t).node fun n f => f ≠ 0 → n.inside).2
      ⟨fun _ => hm, fun n _ => hfit.node n⟩,
    fun j hj => hset ?_⟩ fun _ _ _ _ _ hv => hv
  by_cases hjm : .low j = m
  · exact hlow j hjm.symm
  · exact hfit.low j ((update_of_ne hjm f _).symm.trans_ne hj)

end

section owners
variable {k : Place}

theorem Inv.isFrame (h : Inv c s X L) (hk : k ∈ places s.nframes) (hf : s.held k ≠ 0) :
    IsFrame s.nframes (s.held k) :=
  h.frames.range _ (Multiset.mem_add.2 (.inl (Multiset.mem_add.2 (.inl
    (mem_values.2 ⟨hf, k, hk, rfl⟩)))))

theorem Inv.count_refs (h : Inv c s X L) (hf : IsFrame s.nframes f) :
    s.cnt f = ((values (places s.nframes) s.held).count f + (s.kernel : Multiset Nat).count f +
      X.count f : Nat) := by
  rw [h.frames.count f hf, PgState.refs, Multiset.count_add, Multiset.count_add]

theorem Inv.sole (h : Inv c s X L) (hk : k ∈ places s.nframes) (hf : s.held k ≠ 0)
    (h1 : s.cnt (s.held k) = 1) :
    (∀ k' ∈ places s.nframes, s.held k' = s.held k → k' = k) ∧ s.held k ∉ s.kernel ∧
      s.held k ∉ X := by
  have hcount := h.count_refs (h.isFrame hk hf)
  have hpos := count_values_pos (v := s.held) hk hf
  rw [h1] at hcount
  refine ⟨fun k' hk' he => ?_, fun hm => ?_, fun hm => ?_⟩
  · exact eq_of_count_le_one (x := s.held k) (by omega) hf hk' he hk rfl
  · have := Multiset.count_pos.2 (Multiset.mem_coe.2 hm)
    omega
  · have := Multiset.count_pos.2 hm
    omega

end owners

theorem refs_update {k : Place} (hk : k ∈ places s.nframes) (hheld : s'.held = update s.held k f)
    (hn : s'.nframes = s.nframes) (hker : s'.kernel = s.kernel)
    (hX : X' + nonzero f = X + nonzero (s.held k)) : s'.refs X' = s.refs X := by
  unfold PgState.refs
  rw [hheld, hn, hker]
  exact values_replace hk hX

theorem refs_put {k : Place} (hk : k ∈ places s.nframes) (hheld : s'.held = update s.held k f)
    (hn : s'.nframes = s.nframes) (hker : s'.kernel = s.kernel) (h0 : s.held k = 0) (hf : f ≠ 0) :
    s'.refs X = s.refs (f ::ₘ X) := by
  refine refs_update hk hheld hn hker ?_
  rw [h0, nonzero_zero, nonzero_of_ne hf, add_zero, add_comm, Multiset.singleton_add]

theorem refs_take {k : Place} (hk : k ∈ places s.nframes) (hheld : s'.held = update s.held k 0)
    (hn : s'.nframes = s.nframes) (hker : s'.kernel = s.kernel) (hf : s.held k = f) (h0 : f ≠ 0) :
    s'.refs (f ::ₘ X) = s.refs X := by
  refine refs_update hk hheld hn hker ?_
  rw [hf, nonzero_zero, nonzero_of_ne h0, add_zero, add_comm, Multiset.singleton_add]

theorem refs_setPte (hmem : t ≤ s.nframes ∧ vpn < NVPN)
    (hX : X' + nonzero (e.frame vpn) = X + nonzero ((s.pte t vpn).frame vpn)) :
    (s.setPte t vpn e).refs X' = s.refs X :=
  refs_update (leaf_mem.2 hmem) held_setPte rfl rfl hX

theorem slots_setPte (hmem : t ≤ s.nframes ∧ vpn < NVPN)
    (hL : L' + nonzero e.slot = L + nonzero (s.pte t vpn).slot) :
    (s.setPte t vpn e).slots L' = s.slots L := by
  have h := values_replace (K := 0) (S := entries s.nframes) (v := s.slotAt) (k := (t, vpn))
    (mem_entries.2 hmem) hL
  rw [add_zero, add_zero] at h
  unfold PgState.slots
  rw [slotAt_setPte]
  exact h

theorem refs_setNode (hmem : t ≤ s.nframes ∧ m.inside) (h0 : (s.table t).node m = 0) (hf : f ≠ 0) :
    (s.setNode t m f).refs X = s.refs (f ::ₘ X) :=
  refs_put (node_mem.2 hmem) held_setNode rfl rfl h0 hf

theorem held_buf (hb : s.pbuf i = some b) : s.held (.buf i) = b.frame := by
  show ((s.pbuf i).map Buffered.frame).getD 0 = b.frame
  rw [hb]
  rfl

theorem Content.setData (h : Content s)
    (hf : ∀ i b, i < SWAP_PBUF_SIZE → s.pbuf i = some b → b.frame ≠ f) (d : Page) :
    Content (s.setData f d) where
  __ := h
  copies i b hi hb := by
    show update s.data f d b.frame = s.disk b.slot
    rw [update_of_ne (hf i b hi hb)]
    exact h.copies i b hi hb

theorem pool_update (hc : i < NCPU) (l : List Nat) :
    (∑ j ∈ Finset.range NCPU, (update s.free i l j : Multiset Nat)) + (s.free i : Multiset Nat) =
      s.pool + (l : Multiset Nat) := by
  have h := sum_update_add (S := Finset.range NCPU) (k := i) (Finset.mem_range.2 hc)
    (fun j => (s.free j : Multiset Nat)) (l : Multiset Nat)
  rw [PgState.pool, ← h]
  congr 1
  apply Finset.sum_congr rfl
  intro j _
  by_cases hj : j = i
  · subst hj
    simp
  · simp [hj]

theorem pool_release (hc : i < NCPU) : (s.release i f).pool = f ::ₘ s.pool := by
  apply add_right_cancel (b := (s.free i : Multiset Nat))
  refine (pool_update hc (f :: s.free i)).trans ?_
  rw [← Multiset.cons_coe, Multiset.add_cons, Multiset.cons_add]

theorem pool_take (hc : i < NCPU) (hf : s.free i = f :: l) : s.pool = f ::ₘ (s.take i).pool := by
  apply add_right_cancel (b := ((s.free i).tail : Multiset Nat))
  refine (pool_update hc (s.free i).tail).symm.trans ?_
  rw [hf, Multiset.cons_add, ← Multiset.cons_coe, Multiset.add_cons, List.tail_cons]
  show f ::ₘ (∑ j ∈ Finset.range NCPU, (update s.free i l j : Multiset Nat) + (l : Multiset Nat)) =
    _
  unfold PgState.pool PgState.take
  rw [hf]
  rfl

theorem Pte.slot_of_swapped (hs : e.swapped = true) (hv : e.valid = false) : e.slot = e.num + 1 :=
  if_pos ⟨hs, hv⟩

theorem Shaped.swapped_invalid (h : Shaped s) (hs : (s.pte t vpn).swapped = true) :
    (s.pte t vpn).valid = false := by
  by_contra hv
  have hn := h.single t vpn (Bool.eq_true_of_not_eq_false hv)
  rw [hs] at hn
  cases hn

theorem Content.unbuffered (h : Content s) (h0 : s.swapmap k = false) : s.Unbuffered k := by
  intro i b hi hb he
  have hm := h.marked i b hi hb
  rw [he, h0] at hm
  cases hm

theorem Inv.unmark (h : Inv c s X ((k + 1) ::ₘ L)) (hb : c = true → s.Unbuffered k) :
    Inv c (s.setSlot k false) X L where
  shaped := { h.shaped with }
  __ := h
  slots j hj := by
    show (s.slots L).count (j + 1) = if update s.swapmap k false j = true then 1 else 0
    have hcount := h.slots j hj
    rw [PgState.slots, Multiset.add_cons] at hcount
    by_cases he : j = k
    · subst he
      rw [Multiset.count_cons_self] at hcount
      rw [update_self, if_neg Bool.false_ne_true, PgState.slots]
      split at hcount <;> omega
    · rw [Multiset.count_cons_of_ne (fun hn => he (Nat.succ.inj hn))] at hcount
      rw [update_of_ne he, ← hcount]
      rfl
  slotRange x hx := by
    apply h.slotRange x
    rw [PgState.slots, Multiset.add_cons]
    exact Multiset.mem_cons_of_mem hx
  content hc := {
    marked := fun i b hi hpb => by
      show update s.swapmap k false b.slot = true
      rw [update_of_ne (hb hc i b hi hpb)]
      exact (h.content hc).marked i b hi hpb
    __ := h.content hc }

theorem held_setBuf :
    (s.setBuf i b).held = update s.held (.buf i) ((b.map Buffered.frame).getD 0) := by
  refine eq_update_iff.2 ⟨?_, fun k hk => held_congr (fun _ _ _ => rfl) (fun _ _ _ => rfl)
    (fun _ _ => rfl) fun j hj => update_of_ne (fun he => hk (hj.trans (congrArg _ he))) _ _⟩
  show ((update s.pbuf i b i).map Buffered.frame).getD 0 = _
  rw [update_self]

theorem refs_unbuf (hi : i < SWAP_PBUF_SIZE) (hb : s.pbuf i = some b) (h0 : b.frame ≠ 0) :
    (s.setBuf i none).refs (b.frame ::ₘ X) = s.refs X :=
  refs_take (buf_mem.2 hi) held_setBuf rfl rfl (held_buf hb) h0

theorem forall_setBuf {P : Nat → Buffered → Prop} (hnew : ∀ b, o = some b → P i b)
    (hold : ∀ j b, j < SWAP_PBUF_SIZE → s.pbuf j = some b → P j b) (j : Nat) (b : Buffered)
    (hj : j < SWAP_PBUF_SIZE) (hb : (s.setBuf i o).pbuf j = some b) : P j b := by
  have hb : update s.pbuf i o j = some b := hb
  by_cases he : j = i
  · subst he
    rw [update_self] at hb
    exact hnew b hb
  · rw [update_of_ne he] at hb
    exact hold j b hj hb

theorem Content.setBuf (h : Content s) (ho : ∀ b, o = some b →
    s.swapmap b.slot = true ∧ s.data b.frame = s.disk b.slot ∧ s.Unbuffered b.slot) : Content
    (s.setBuf i o) where
  __ := h
  marked := forall_setBuf (fun b hb => (ho b hb).1) h.marked
  copies := forall_setBuf (fun b hb => (ho b hb).2.1) h.copies
  distinct j j' b b' hj hj' hb hb' := by
    refine forall_setBuf (P := fun j b => b.slot = b'.slot → j = j') (fun b hb => ?_)
      (fun j b hj hb => ?_) j b hj hb
    · exact forall_setBuf (P := fun j' b' => b.slot = b'.slot → i = j') (fun _ _ _ => rfl)
        (fun j' b' hj' hb' he => ((ho b hb).2.2 j' b' hj' hb' he.symm).elim) j' b' hj' hb'
    · exact forall_setBuf (P := fun j' b' => b.slot = b'.slot → j = j')
        (fun b' hb' he => ((ho b' hb').2.2 j b hj hb he).elim)
          (fun j' b' hj' => h.distinct j j' b b' hj hj' hb) j' b' hj' hb'

section
variable (h : Inv c s X L)
include h

theorem Inv.retable (hS : Shaped s')
    (honly : s' = { s with table := s'.table, live := s'.live }) (hrefs : s'.refs X' = s.refs X)
    (hslots : s'.slots L' = s.slots L)
    (hkept : c = true → ∀ t v, (s'.pte t v).swapped = true →
      s.disk (s'.pte t v).num = s.saved t v) :
    Inv c s' X' L' where
  shaped := hS
  frames := by
    rw [hrefs, honly]
    exact h.frames
  slots := by
    rw [hslots, honly]
    exact h.slots
  slotRange := by
    rw [hslots]
    exact h.slotRange
  phand := by
    rw [honly]
    exact h.phand
  exclusive := by
    rw [honly]
    exact h.exclusive
  content hc := by
    have hcont := h.content hc
    have hk := hkept hc
    rw [honly]
    exact ⟨hcont.marked, hcont.copies, hcont.distinct, hk, hcont.right⟩

theorem Inv.setPte (hmem : t ≤ s.nframes ∧ vpn < NVPN) (hS : Shaped (s.setPte t vpn e))
    (hX : X' + nonzero (e.frame vpn) = X + nonzero ((s.pte t vpn).frame vpn))
    (hL : L' + nonzero e.slot = L + nonzero (s.pte t vpn).slot)
    (hC : c = true → e.swapped = true → s.disk e.num = s.saved t vpn) :
    Inv c (s.setPte t vpn e) X' L' :=
  h.retable hS rfl (refs_setPte hmem hX) (slots_setPte hmem hL) fun hc =>
    forall_setPte (P := fun t vpn e => e.swapped = true → s.disk e.num = s.saved t vpn) (hC hc)
    (h.content hc).kept

theorem Inv.buf_sole (hi : i < SWAP_PBUF_SIZE) (hb : s.pbuf i = some b) :
    (∀ k ∈ places s.nframes, s.held k = b.frame → k = .buf i) ∧ b.frame ∉ s.kernel ∧
    b.frame ∉ X := by
  obtain ⟨h0, h1⟩ := h.exclusive i b hi hb
  rw [← held_buf hb] at h0 h1 ⊢
  exact h.sole (buf_mem.2 hi) h0 h1

theorem Inv.buf_ne_hand (hf : f ∈ X) (hi : i < SWAP_PBUF_SIZE) (hb : s.pbuf i = some b) :
    b.frame ≠ f := by
  rintro rfl
  exact (h.buf_sole hi hb).2.2 hf

theorem Inv.buf_ne_leaf (hv : (s.pte t vpn).valid = true) (hlt : vpn < TRAPFRAME)
    (hi : i < SWAP_PBUF_SIZE) (hb : s.pbuf i = some b) : b.frame ≠ (s.pte t vpn).num := by
  intro he
  have hleaf : s.held (.leaf t vpn) = b.frame := (if_pos ⟨hv, hlt⟩).trans he.symm
  cases (h.buf_sole hi hb).1 _ (leaf_mem.2 (h.shaped.entry_mem (.inl hv))) hleaf

theorem Inv.setData (hf : ∀ i b, i < SWAP_PBUF_SIZE → s.pbuf i = some b → b.frame ≠ f) (d : Page) :
    Inv c (s.setData f d) X L where
  shaped := { h.shaped with }
  __ := h
  content hc := (h.content hc).setData hf d

theorem Inv.other (env : Env) (noff : Nat) (cur : ProcSlot) (proc : ProcSlot → Proc)
    (hproc : ∀ p, (proc p).pagetable = s.root p) :
    Inv c { s with env := env, noff := noff, cur := cur, proc := proc } X L where
  shaped := {
    __ := h.shaped
    roots := fun p => by
      have hroots := h.shaped.roots p
      rw [← hproc p] at hroots
      exact hroots }
  __ := h
  content hc := { h.content hc with }

theorem Inv.env (env : Env) : Inv c (s.setEnv env) X L :=
  h.other env s.noff s.cur s.proc (fun _ => rfl)

theorem Inv.mem_slots (hs : (s.pte t vpn).swapped = true) :
    (s.pte t vpn).num + 1 ∈ values (entries s.nframes) s.slotAt := by
  have hslot := Pte.slot_of_swapped hs (h.shaped.swapped_invalid hs)
  exact mem_values.2
    ⟨Nat.succ_ne_zero _, (t, vpn), mem_entries.2 (h.shaped.entry_mem (.inr hs)), hslot⟩

theorem Inv.slot_lt (hs : (s.pte t vpn).swapped = true) : (s.pte t vpn).num < SWAP_PAGES :=
  (h.slotRange _ (Multiset.mem_add.2 (.inl (h.mem_slots hs)))).2

theorem Inv.slot_ne_hand (hk : k + 1 ∈ L) (hs : (s.pte t vpn).swapped = true) :
    (s.pte t vpn).num ≠ k := by
  intro he
  have hm := h.mem_slots hs
  rw [he] at hm
  have hle : k < SWAP_PAGES := (h.slotRange _ (Multiset.mem_add.2 (.inr hk))).2
  have hcount := h.slots k hle
  rw [PgState.slots, Multiset.count_add] at hcount
  have h1 := Multiset.count_pos.2 hm
  have h2 := Multiset.count_pos.2 hk
  split at hcount <;> omega

theorem Inv.marked (hs : (s.pte t vpn).swapped = true) : s.swapmap (s.pte t vpn).num = true := by
  have hcount := h.slots _ (h.slot_lt hs)
  rw [PgState.slots, Multiset.count_add] at hcount
  have h1 := Multiset.count_pos.2 (h.mem_slots hs)
  by_contra hn
  rw [if_neg hn] at hcount
  omega

theorem Inv.mark (hk : k < SWAP_PAGES) (h0 : s.swapmap k = false) :
    Inv c (s.mark k) X ((k + 1) ::ₘ L) where
  shaped := { h.shaped with }
  __ := h
  slots j hj := by
    show (s.slots ((k + 1) ::ₘ L)).count (j + 1) =
      if update s.swapmap k true j = true then 1 else 0
    have hcount := h.slots j hj
    rw [PgState.slots, Multiset.add_cons]
    by_cases he : j = k
    · subst he
      rw [h0, if_neg Bool.false_ne_true, PgState.slots] at hcount
      rw [Multiset.count_cons_self, hcount, update_self, if_pos rfl]
    · rw [Multiset.count_cons_of_ne (fun hn => he (Nat.succ.inj hn)), update_of_ne he]
      exact hcount
  slotRange x hx := by
    have hx : x ∈ s.slots ((k + 1) ::ₘ L) := hx
    rw [PgState.slots, Multiset.add_cons] at hx
    rcases Multiset.mem_cons.1 hx with rfl | hx
    · exact ⟨Nat.succ_pos k, hk⟩
    · exact h.slotRange x hx
  content hc := {
    marked := fun i b hi hb => by
      show update s.swapmap k true b.slot = true
      by_cases he : b.slot = k
      · rw [he, update_self]
      · rw [update_of_ne he]
        exact (h.content hc).marked i b hi hb
    __ := h.content hc }

theorem Inv.setDisk (hk : k + 1 ∈ L) (hb : c = true → s.Unbuffered k) (d : Page) :
    Inv c (s.setDisk k d) X L where
  shaped := { h.shaped with }
  __ := h
  content hc := {
    __ := h.content hc
    copies := fun i b hi hpb => by
      show s.data b.frame = update s.disk k d b.slot
      rw [update_of_ne (hb hc i b hi hpb)]
      exact (h.content hc).copies i b hi hpb
    kept := fun t' vpn' hs => by
      show update s.disk k d (s.pte t' vpn').num = s.saved t' vpn'
      rw [update_of_ne (h.slot_ne_hand hk hs)]
      exact (h.content hc).kept t' vpn' hs }

theorem Inv.setSaved (t vpn : Nat) (hs : (s.pte t vpn).swapped = false) (d : Page) :
    Inv c (s.setSaved t vpn d) X L where
  shaped := { h.shaped with }
  __ := h
  content hc := {
    __ := h.content hc
    kept := fun t' vpn' hs' => by
      have hkept := (h.content hc).kept t' vpn' hs'
      show s.disk (s.pte t' vpn').num =
        update s.saved t (update (s.saved t) vpn d) t' vpn'
      by_cases ht : t' = t
      · subst ht
        have hv : vpn' ≠ vpn := by
          intro hv
          have hs' : (s.pte t' vpn').swapped = true := hs'
          rw [hv, hs] at hs'
          cases hs'
        rw [update_self, update_of_ne hv]
        exact hkept
      · rw [update_of_ne ht]
        exact hkept }

theorem Inv.setBuf (hrefs : (s.setBuf i o).refs X' = s.refs X)
    (hframe : ∀ b, o = some b → b.frame ≠ 0 ∧ s.cnt b.frame = 1)
    (ho : c = true → ∀ b, o = some b →
      s.swapmap b.slot = true ∧ s.data b.frame = s.disk b.slot ∧ s.Unbuffered b.slot) :
    Inv c (s.setBuf i o) X' L where
  shaped := { h.shaped with }
  frames := by
    rw [hrefs]
    exact h.frames
  __ := h
  exclusive := forall_setBuf hframe h.exclusive
  content hc := (h.content hc).setBuf (ho hc)

theorem Inv.unbuf (hi : i < SWAP_PBUF_SIZE) (hb : s.pbuf i = some b) :
    Inv c (s.setBuf i none) (b.frame ::ₘ X) L :=
  h.setBuf (refs_unbuf hi hb (h.exclusive i b hi hb).1) nofun fun _ => nofun

end

theorem Inv.setNode (h : Inv c s (f ::ₘ X) L) (hlive : s.live t = true) (hm : m.inside)
    (h0 : (s.table t).node m = 0)
    (hlow : ∀ j, m = .low j → (s.table t).node (.mid (j / 512)) ≠ 0) :
    Inv c (s.setNode t m f) X L := by
  have hf : IsFrame s.nframes f :=
    h.frames.range f (Multiset.mem_add.2 (.inr (Multiset.mem_cons_self f X)))
  have hf0 : f ≠ 0 := Nat.ne_of_gt hf.1
  refine h.retable (h.shaped.setNode hlive hm hf0 hlow) rfl
    (refs_setNode ⟨(h.shaped.frame t hlive).2, hm⟩ h0 hf0) slots_setNode fun hc t' v => ?_
  rw [setNode_pte]
  exact (h.content hc).kept t' v

theorem Content.unbuf (h : Content s) (hi : i < SWAP_PBUF_SIZE) (hb : s.pbuf i = some b) :
    (s.setBuf i none).Unbuffered b.slot := by
  intro j b' hj hb' he
  have hb' : update s.pbuf i none j = some b' := hb'
  by_cases hij : j = i
  · subst hij
    rw [update_self] at hb'
    cases hb'
  · rw [update_of_ne hij] at hb'
    exact hij (h.distinct j i b' b hj hi hb' hb he)

theorem Inv.putBuf (h : Inv c s (f ::ₘ X) L) (hnone : s.pbuf s.phand = none) (h1 : s.cnt f = 1)
    (hc : c = true → s.swapmap k = true ∧ s.data f = s.disk k ∧ s.Unbuffered k) :
    Inv c (s.putBuf ⟨k, f⟩) X L := by
  have hf : IsFrame s.nframes f :=
    h.frames.range f (Multiset.mem_add.2 (.inr (Multiset.mem_cons_self f X)))
  have hf0 : f ≠ 0 := Nat.ne_of_gt hf.1
  have hheld : s.held (.buf s.phand) = 0 := by
    show ((s.pbuf s.phand).map Buffered.frame).getD 0 = 0
    rw [hnone]
    rfl
  have hset : Inv c (s.setBuf s.phand (some ⟨k, f⟩)) X L := by
    refine h.setBuf (refs_put (buf_mem.2 h.phand) held_setBuf rfl rfl hheld hf0) (fun b hb => ?_)
      fun hct b hb => ?_
    · cases hb
      exact ⟨hf0, h1⟩
    · cases hb
      exact hc hct
  exact {
    shaped := { hset.shaped with }
    __ := hset
    phand := Nat.mod_lt _ (by decide)
    content := fun hct => { hset.content hct with } }

end OopsOS.Pg
