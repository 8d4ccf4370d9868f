import OopsOS.FrameCounts

namespace OopsOS.Pg
set_option autoImplicit true

variable {s s' : PgState} {X L : Multiset Nat} {t vpn k : Nat} {op : Op}

def PgState.holders (s : PgState) (k : Nat) : Nat :=
  ((entries s.nframes).filter fun i => (s.pte i.1 i.2).swapped = true ∧
    (s.pte i.1 i.2).valid = false ∧ (s.pte i.1 i.2).num = k).card

/-- A slot is in use exactly if one entry is swapped to it, and no entry is swapped to another. -/
def PgState.SlotsOwned (s : PgState) : Prop :=
  ∀ k, k < SWAP_PAGES → s.holders k = if s.swapmap k = true then 1 else 0

/-- No two entries are swapped to one slot, and none is to a slot that is not in use. -/
def PgState.SlotsUnshared (s : PgState) : Prop :=
  ∀ k, k < SWAP_PAGES → s.holders k ≤ if s.swapmap k = true then 1 else 0

theorem slotAt_iff : s.slotAt i = k + 1 ↔ (s.pte i.1 i.2).swapped = true ∧
    (s.pte i.1 i.2).valid = false ∧ (s.pte i.1 i.2).num = k := by
  show (s.pte i.1 i.2).slot = k + 1 ↔ _
  unfold Pte.slot
  split
  · next hs => exact ⟨fun he => ⟨hs.1, hs.2, Nat.succ.inj he⟩, fun he => congrArg (· + 1) he.2.2⟩
  · next hs => exact ⟨fun he => (nomatch he), fun he => (hs ⟨he.1, he.2.1⟩).elim⟩

theorem count_slots (L : Multiset Nat) :
    (s.slots L).count (k + 1) = s.holders k + L.count (k + 1) := by
  unfold PgState.slots
  rw [Multiset.count_add, count_values_iff (Nat.succ_ne_zero k) fun _ => slotAt_iff]
  rfl

theorem Inv.slotsOwned (h : Inv false s X 0) : s.SlotsOwned := by
  intro k hk
  have hcount := h.slots k hk
  rwa [count_slots, Multiset.count_zero, add_zero] at hcount

theorem Inv.slotsUnshared (h : Inv false s X L) : s.SlotsUnshared := by
  intro k hk
  rw [← h.slots k hk, count_slots]
  exact Nat.le_add_right _ _

theorem Inv.slotLost (h : Inv false s X L) (hL : L ≠ 0) : ¬ s.SlotsOwned := by
  intro howned
  obtain ⟨x, hx⟩ := Multiset.exists_mem_of_ne_zero hL
  obtain ⟨hpos, hle⟩ := h.slotRange x (Multiset.mem_add.2 (.inr hx))
  obtain ⟨k, rfl⟩ := Nat.exists_eq_succ_of_ne_zero (Nat.ne_of_gt hpos)
  have hcount := h.slots k hle
  rw [count_slots, howned k hle] at hcount
  exact Nat.ne_of_gt (Multiset.count_pos.2 hx)
    (Nat.add_left_cancel (hcount.trans (add_zero _).symm))

def Op.Swaps (op : Op) : Prop := ∀ t oldsz newsz, op ≠ .uvmalloc t oldsz newsz

def Op.Regular (s : PgState) (op : Op) : Prop := op.Proper s ∧ op.Spares s ∧ op.Swaps

theorem always_slotsOwned_iff (h : Inv false s X 0)
    (hrun : Along fire (fun s op => op.Regular s) s es) :
    Always fire PgState.SlotsOwned s es ↔ Along fire (fun s op => ¬ op.LosesSlot s) s es := by
  refine always_iff_along_of (I := fun s => ∃ X, Inv false s X 0)
    (fun s hs => hs.choose_spec.slotsOwned)
    ?_ ?_ ⟨X, h⟩ hrun
  · rintro s op s' ⟨X, h⟩ hop hkeep hfire
    obtain ⟨r, hr⟩ := fire_run hfire
    obtain ⟨Y, Z, hinv, -, hZ, -⟩ :=
      (op.step h hop.1 hop.2.1 (fun hc => nomatch hc) hop.2.2).of_ok hr
    rw [hZ.2 hkeep, add_zero] at hinv
    exact ⟨_, hinv⟩
  · rintro s op s' ⟨X, h⟩ hop hlose hfire
    obtain ⟨r, hr⟩ := fire_run hfire
    obtain ⟨Y, Z, hinv, -, hZ, -⟩ :=
      (op.step h hop.1 hop.2.1 (fun hc => nomatch hc) hop.2.2).of_ok hr
    rw [add_zero] at hinv
    exact hinv.slotLost fun h0 => hZ.1 h0 (not_not.1 hlose)

instance (s : PgState) (t lo hi : Nat) : Decidable (Spares s t lo hi) :=
  decidable_of_iff (∀ v, v < hi → lo ≤ v ∧ TRAPFRAME ≤ v → (s.pte t v).valid = false)
    ⟨fun h v hlo hhi hle => h v hhi ⟨hlo, hle⟩, fun h v hhi hv => h v hv.1 hhi hv.2⟩

instance Op.Regular.decidable (s : PgState) (op : Op) : Decidable (op.Regular s) :=
  match op with
  | .uvmalloc t oldsz newsz => isFalse fun h => h.2.2 t oldsz newsz rfl
  | .uvmdealloc t oldsz newsz =>
    decidable_of_iff (Pg.Spares s t (pagesOf newsz) (pagesOf oldsz))
      ⟨fun h => ⟨trivial, h, fun _ _ _ he => nomatch he⟩, fun h => h.2.1⟩
  | .uvmunmap t va npages =>
    decidable_of_iff (Pg.Spares s t (va / PGSIZE) (va / PGSIZE + npages))
      ⟨fun h => ⟨trivial, h, fun _ _ _ he => nomatch he⟩, fun h => h.2.1⟩
  | .kalloc | .kfree _ | .uvmcopy _ _ _ | .uvmshare _ _ _ | .cowalloc _ _ | .uvmfree _ _ | .swapout
  | .swapoutProc _ _ | .swapin _ _ | .copyin _ _ | .copyout _ _ | .argaddr _ | .pageFault _ _
  | .store _ _ _ | .create _ | .setProc _ _ | .switch _ =>
    decidable_of_iff (Op.Proper s _)
    ⟨fun h => ⟨h, trivial, fun _ _ _ he => nomatch he⟩, fun h => h.1⟩

theorem always_slotsUnshared (h : Inv false s X L)
    (hrun : Along fire (fun s op => op.Regular s) s es) :
    Always fire PgState.SlotsUnshared s es := by
  refine hrun.always (I := fun s => ∃ X L, Inv false s X L)
    (fun s hs => hs.choose_spec.choose_spec.slotsUnshared) ?_ ⟨X, L, h⟩
  rintro s op s' ⟨X, L, h⟩ hop hfire
  obtain ⟨r, hr⟩ := fire_run hfire
  obtain ⟨Y, Z, hinv, -⟩ := (op.step h hop.1 hop.2.1 (fun hc => nomatch hc) hop.2.2).of_ok hr
  exact ⟨_, _, hinv⟩

/-- Slots are never shared, and none is lost exactly if no page is supplied over a swapped one. -/
theorem swap_slots_owned {es : List Op} (h : Inv false s X 0)
    (hrun : Along fire (fun s op => op.Regular s) s es) :
    Always fire PgState.SlotsUnshared s es ∧
      (Always fire PgState.SlotsOwned s es ↔ Along fire (fun s op => ¬ op.LosesSlot s) s es) :=
  ⟨always_slotsUnshared h hrun, always_slotsOwned_iff h hrun⟩

/-- A page is used, swapped out, brought back and swapped out again, and the process ends. -/
def swapRun : List Op :=
  [.kalloc, .create 1, .setProc 0 { Proc.unused with pagetable := 2, sz := 8192, sp := 1 },
    .pageFault 4096 .load, .swapout, .swapin 2 1, .swapout, .uvmunmap 2 0 2]

theorem swap_slots_owned_swapRun : Along fire (fun s op => op.Regular s) (.boot 12) swapRun ∧
    Always fire PgState.SlotsUnshared (.boot 12) swapRun ∧
      (Always fire PgState.SlotsOwned (.boot 12) swapRun ↔
        Along fire (fun s op => ¬ op.LosesSlot s) (.boot 12) swapRun) :=
  ⟨by decide +kernel, swap_slots_owned (.boot false 12) (by decide +kernel)⟩

def mixedVmas : List Vma :=
  [⟨true, 0, 100, false, true, false, false, none, 0, 0⟩,
    ⟨true, 100, 3996, false, true, true, false, none, 0, 0⟩,
    ⟨true, 4096, 4096, true, true, false, false, none, 0, 0⟩]

def fullRun : List Op :=
  [.kalloc, .create 1, .setProc 0 { Proc.unused with pagetable := 2, sz := 8192, vma := mixedVmas },
    .pageFault 0 .load, .pageFault 4096 .load]

/-- The allocation for a store to the first page swaps that page out. -/
theorem swap_slot_lost : ∃ es, Along fire (fun s op => op.Regular s) (.boot 8) es ∧
    ¬ Always fire PgState.SlotsOwned (.boot 8) es := by
  have hrun : ((runEvents fire (.boot 8) fullRun).any fun s =>
      (s.swapready && !(s.pte (s.root s.cur) 0).swapped && !(s.pte (s.root s.cur) 0).cow) &&
        ((supply s 100 .store).isSome &&
          lands kalloc s (fun r s₁ => r.isSome && (s₁.pte (s.root s.cur) 0).swapped)) &&
        (fire s (.pageFault 100 .store)).isSome) = true := by decide +kernel
  have hregular : Along fire (fun s op => op.Regular s) (.boot 8)
      (fullRun ++ [.pageFault 100 .store]) := by decide +kernel
  refine ⟨fullRun ++ [.pageFault 100 .store], hregular, fun hall => ?_⟩
  cases hs : runEvents fire (.boot 8) fullRun with
  | none =>
    rw [hs] at hrun
    cases hrun
  | some s₁ =>
    rw [hs] at hrun
    simp only [Option.any_some, Bool.and_eq_true, Bool.not_eq_true'] at hrun
    obtain ⟨⟨⟨⟨hready, hsw⟩, hcow⟩, hp, hk⟩, hfire⟩ := hrun
    obtain ⟨p, hp⟩ := Option.isSome_iff_exists.1 hp
    obtain ⟨r, s₂, hk, hr⟩ := exists_of_lands hk
    obtain ⟨hr, hs₂⟩ := Bool.and_eq_true_iff.1 hr
    obtain ⟨f, rfl⟩ := Option.isSome_iff_exists.1 hr
    refine ((always_slotsOwned_iff (.boot false 8) hregular).1 hall).last hs hfire ?_
    have hplain : ((s₁.pte (s₁.root s₁.cur) (100 / PGSIZE)).valid &&
        (s₁.pte (s₁.root s₁.cur) (100 / PGSIZE)).cow) = false := by
      rw [show 100 / PGSIZE = 0 from rfl, hcow, Bool.and_false]
    exact ⟨hready, hsw, hplain, p, f, s₂, hp, hk, hs₂⟩

/-- Every page that was brought back had the bytes with which it was swapped out. -/
def PgState.Faithful (s : PgState) : Prop := ∀ x ∈ s.fetched, x.found = x.saved

def PgState.Stale (s : PgState) : Prop :=
  ∃ i b, i < SWAP_PBUF_SIZE ∧ s.pbuf i = some b ∧ s.swapmap b.slot = false

theorem Content.fresh (h : Content s) : ¬ s.Stale := by
  rintro ⟨i, b, hi, hb, hfree⟩
  exact Bool.false_ne_true (hfree.symm.trans (h.marked i b hi hb))

theorem Inv.forget (h : Inv c s X L) : Inv false s X L :=
  { h with content := fun hc => nomatch hc }

theorem Unmaps.stale (h : Unmaps t lo hi s s') (hn : ¬ NoneBuffered s t lo hi) : s'.Stale := by
  unfold NoneBuffered at hn
  push Not at hn
  obtain ⟨v, hlo, hhi, hs, hb⟩ := hn
  unfold PgState.Unbuffered at hb
  push Not at hb
  obtain ⟨i, b, hi, hb, hk⟩ := hb
  refine ⟨i, b, hi, ?_, ?_⟩
  · rw [h.pbuf]
    exact hb
  · rw [hk]
    exact h.freed v hlo hhi hs

section swap
variable (P : Nat → Option Buffered) (M : Nat → Bool)

def SwapIs (s : PgState) : Prop := s.pbuf = P ∧ s.swapmap = M

theorem kfree_swap (f : Nat) : Maintains (fun _ => True) (SwapIs P M) (kfree f) := by
  intro s h
  refine (kfree_only trivial).mono fun _ s₁ honly => ?_
  have honly : s₁ = { s with cnt := s₁.cnt, data := s₁.data, free := s₁.free, env := s₁.env } :=
    honly
  rw [honly]
  exact h

theorem setNode_swap (t : Nat) (m : Node) (f : Nat) :
    Maintains (fun _ => True) (SwapIs P M) (setNode t m f) := fun _ h => h

theorem freeLow_swap (t j : Nat) : Maintains (fun _ => True) (SwapIs P M) (freeLow t j) := by
  refine .bind .get fun s => .ite (.pure _) ?_
  generalize List.any _ _ = wild
  cases wild with
  | true => exact fun _ _ => trivial
  | false => exact .bind (setNode_swap P M t _ 0) fun _ => kfree_swap P M _

theorem freewalk_swap (t : Nat) : Maintains (fun _ => True) (SwapIs P M) (freewalk t) := by
  have hmid (i : Nat) : Maintains (fun _ => True) (SwapIs P M) (freeMid t i) :=
    .bind .get fun s => .ite (.pure _) (.bind (.loop fun j _ => freeLow_swap P M t j) fun _ =>
      .bind (setNode_swap P M t _ 0) fun _ => kfree_swap P M _)
  exact .bind (.loop fun i _ => hmid i) fun _ => .bind (fun _ h => h) fun _ => kfree_swap P M t

end swap

theorem uvmfree_stale (h : Inv c s X L) (hp : ∀ p, s.root p ≠ t)
    (hn : ¬ NoneBuffered s t 0 (pagesOf sz)) :
    wp (fun _ => True) (procFreepagetable t sz) s (fun _ s' => s'.Stale) := by
  refine wp_procFreepagetable (fun _ _ => trivial) h.forget hp fun s₁ hinv honly hkept hhigh => ?_
  have hn₁ : ¬ NoneBuffered s₁ t 0 (pagesOf sz) := by
    intro hnb
    refine hn fun v hlo hhi hs i b hi hpb => ?_
    have he := hkept v (h.shaped.low_of_swapped hs)
    rw [← he] at hs ⊢
    exact hnb v hlo hhi hs i b hi (by rw [honly]; exact hpb)
  unfold uvmfree
  have hspec := uvmunmap_spec (E := fun _ => True) (fun _ _ => trivial) hinv t 0 (pagesOf sz)
    (by rw [Nat.zero_div, Nat.zero_add]; exact hhigh) (fun hc => nomatch hc)
  rw [Nat.zero_div, Nat.zero_add] at hspec
  refine hspec.bind fun _ s₂ h₂ => ?_
  obtain ⟨i, b, hi, hb, hfree⟩ := h₂.2.stale hn₁
  refine (freewalk_swap s₂.pbuf s₂.swapmap t s₂ ⟨rfl, rfl⟩).mono fun _ s₃ h₃ => ⟨i, b, hi, ?_, ?_⟩
  · rw [h₃.1]
    exact hb
  · rw [h₃.2]
    exact hfree

theorem Op.stale_step (h : Inv c s X L) (hop : op.Regular s) (hn : ¬ op.Unbuffered s) :
    wp (fun _ => True) op.exec s (fun _ s' => s'.Stale) := by
  cases op with
  | uvmdealloc t oldsz newsz =>
    refine (uvmdealloc_spec (fun _ _ => trivial) h.forget t oldsz newsz hop.2.1
      (fun hc => nomatch hc)).bind fun _ s₁ h₁ => h₁.2.stale fun hnb => hn fun v hlo hhi => ?_
    exact hnb v hlo (hhi.trans_le (Nat.le_max_right _ _))
  | uvmunmap t va n =>
    exact (uvmunmap_spec (fun _ _ => trivial) h.forget t va n hop.2.1
      (fun hc => nomatch hc)).bind fun _ s₁ h₁ => h₁.2.stale hn
  | uvmfree t sz => exact (uvmfree_stale h hop.1.2 hn).bind fun _ s₁ h₁ => h₁
  | _ => exact (hn trivial).elim

theorem Op.content_step (h : Inv true s X L) (hop : op.Regular s) (hb : op.Unbuffered s)
    (hfire : fire s op = some s') : ∃ X L, Inv true s' X L := by
  obtain ⟨r, hr⟩ := fire_run hfire
  obtain ⟨Y, Z, hinv, -⟩ := (op.step h hop.1 hop.2.1 (fun _ => hb) hop.2.2).of_ok hr
  exact ⟨_, _, hinv⟩

theorem Reaches.content
    (hrun : Along fire (fun s op => op.Regular s ∧ op.Unbuffered s) (.boot n) es)
    (hs : runEvents fire (.boot n) es = some s) : ∃ X L, Inv true s X L := by
  refine (Reaches.run hrun hs).invariant (I := fun s => ∃ X L, Inv true s X L) ?_
    ⟨0, 0, .boot true n⟩
  rintro s op s' ⟨X, L, h⟩ hop hfire
  exact op.content_step h hop.1 hop.2 hfire

/-- Swapping is faithful exactly if no page is unmapped while its slot is in the page buffer. -/
theorem swap_keeps_contents {es : List Op} (h : Inv true s X L)
    (hrun : Along fire (fun s op => op.Regular s) s es) :
    Always fire (fun s => s.Faithful ∧ ¬ s.Stale) s es ↔
      Along fire (fun s op => op.Unbuffered s) s es := by
  refine always_iff_along_of (I := fun s => ∃ X L, Inv true s X L) ?_ ?_ ?_ ⟨X, L, h⟩ hrun
  · rintro s ⟨X, L, h⟩
    exact ⟨(h.content rfl).right, (h.content rfl).fresh⟩
  · rintro s op s' ⟨X, L, h⟩ hop hb hfire
    exact op.content_step h hop hb hfire
  · rintro s op s' ⟨X, L, h⟩ hop hn hfire hgood
    obtain ⟨r, hr⟩ := fire_run hfire
    exact hgood.2 ((op.stale_step h hop hn).of_ok hr)

instance (s : PgState) (k : Nat) : Decidable (s.Unbuffered k) :=
  decidable_of_iff (∀ i, i < SWAP_PBUF_SIZE → ∀ b ∈ s.pbuf i, b.slot ≠ k)
    ⟨fun h i b hi => h i hi b, fun h i hi b => h i b hi⟩

instance (s : PgState) (t lo hi : Nat) : Decidable (NoneBuffered s t lo hi) :=
  decidable_of_iff
    (∀ v, v < hi → lo ≤ v ∧ (s.pte t v).swapped = true → s.Unbuffered (s.pte t v).num)
    ⟨fun h v hlo hhi hs => h v hhi ⟨hlo, hs⟩, fun h v hhi hv => h v hv.1 hhi hv.2⟩

instance Op.Unbuffered.decidable (s : PgState) : (op : Op) → Decidable (op.Unbuffered s)
  | uvmdealloc t oldsz newsz =>
    inferInstanceAs (Decidable (NoneBuffered s t (pagesOf newsz) (pagesOf oldsz)))
  | uvmunmap t va n =>
    inferInstanceAs (Decidable (NoneBuffered s t (va / PGSIZE) (va / PGSIZE + n)))
  | uvmfree t sz => inferInstanceAs (Decidable (NoneBuffered s t 0 (pagesOf sz)))
  | kalloc | kfree _ | uvmalloc _ _ _ | uvmcopy _ _ _ | uvmshare _ _ _ | cowalloc _ _ | swapout
  | swapoutProc _ _ | swapin _ _ | copyin _ _ | copyout _ _ | argaddr _ | pageFault _ _
  | store _ _ _
  | create _ | setProc _ _ | switch _ => inferInstanceAs (Decidable True)

theorem swap_keeps_contents_swapRun : Along fire (fun s op => op.Regular s) (.boot 12) swapRun ∧
    (Always fire (fun s => s.Faithful ∧ ¬ s.Stale) (.boot 12) swapRun ↔
      Along fire (fun s op => op.Unbuffered s) (.boot 12) swapRun) :=
  ⟨by decide +kernel, swap_keeps_contents (.boot true 12) (by decide +kernel)⟩

def PgState.fillSlot (s : PgState) (t k : Nat) : PgState :=
  ((s.mark k).setSaved t k (s.disk k)).setPte t k ({ Pte.zero with user := true }.toSlot k)

def PgState.fillSlots (s : PgState) (t : Nat) : Nat → PgState
  | 0 => s
  | n + 1 => (s.fillSlots t n).fillSlot t (n + 1)

/-- A table whose pages from 1 to 511 are unused, as the slots of their numbers are. -/
structure Vacant (s : PgState) (t : Nat) : Prop where
  live : s.live t = true
  mid : (s.table t).node (.mid 0) ≠ 0
  low : (s.table t).node (.low 0) ≠ 0
  free : ∀ v, v < 511 → (s.pte t (v + 1)).Unused ∧ s.swapmap (v + 1) = false

instance (s : PgState) (t : Nat) : Decidable (Vacant s t) :=
  decidable_of_iff
    ((s.live t = true ∧ (s.table t).node (.mid 0) ≠ 0 ∧ (s.table t).node (.low 0) ≠ 0) ∧
      ∀ v, v < 511 → (s.pte t (v + 1)).Unused ∧ s.swapmap (v + 1) = false)
    ⟨fun h => ⟨h.1.1, h.1.2.1, h.1.2.2, h.2⟩, fun h => ⟨⟨h.live, h.mid, h.low⟩, h.free⟩⟩

theorem fillSlots_frame (s : PgState) (t n : Nat) : (s.fillSlots t n).live = s.live ∧
    (∀ m, ((s.fillSlots t n).table t).node m = (s.table t).node m) ∧
    ∀ v, n < v → (s.fillSlots t n).pte t v = s.pte t v ∧
    (s.fillSlots t n).swapmap v = s.swapmap v := by
  induction n with
  | zero => exact ⟨rfl, fun _ => rfl, fun _ _ => ⟨rfl, rfl⟩⟩
  | succ n ih =>
    obtain ⟨hlive, hnode, hrest⟩ := ih
    refine ⟨hlive, fun m => ?_, fun v hv => ?_⟩
    · show (PgState.table (PgState.setPte _ t (n + 1) _) t).node m = _
      rw [setPte_node]
      exact hnode m
    · obtain ⟨hpte, hmap⟩ := hrest v (by omega)
      refine ⟨(setPte_of_ne fun he => by omega).trans hpte, ?_⟩
      exact (Function.update_of_ne (by omega) _ _).trans hmap

theorem Inv.fillSlots (h : Inv c s X L) (hv : Vacant s t) (n : Nat) (hn : n < 512) :
    Inv c (s.fillSlots t n) X L := by
  induction n with
  | zero => exact h
  | succ n ih =>
    have hinv := ih (by omega)
    obtain ⟨hlive, hnode, hrest⟩ := fillSlots_frame s t n
    obtain ⟨hpte, hmap⟩ := hrest (n + 1) (by omega)
    obtain ⟨hunused, hslot⟩ := hv.free n (by omega)
    have hmark := hinv.mark (k := n + 1) hn (hmap.trans hslot)
    have hsaved := hmark.setSaved t (n + 1) (by
      show ((s.fillSlots t n).pte t (n + 1)).swapped = false
      rw [hpte]
      exact hunused.2) ((s.fillSlots t n).disk (n + 1))
    have hpages : n + 1 < TRAPFRAME := hn.trans (by decide)
    refine hsaved.mapSlot ((congrFun hlive t).trans hv.live) ?_ hpages
      ((congrArg Pte.valid hpte).trans hunused.1) ((congrArg Pte.swapped hpte).trans hunused.2) rfl
      fun _ => setSaved_self.symm
    show PgState.Reached (s.fillSlots t n) t (n + 1)
    unfold PgState.Reached
    rw [hnode, hnode, Nat.div_eq_of_lt (by omega : n + 1 < 2 ^ 18), Nat.div_eq_of_lt
      (by omega : n + 1 < 2 ^ 9)]
    exact ⟨hv.mid, hv.low⟩

def onePage (t : Nat) : Proc :=
  { Proc.unused with pagetable := t, sz := 4096, vma :=
    [⟨true, 0, 4096, false, true, true, false, none, 0, 0⟩] }

def twoPages : List Op :=
  [.kalloc, .kalloc, .create 1, .create 2, .setProc 0 (onePage 3),
    .setProc 1 (onePage 6), .pageFault 0 .load, .switch 1,
    .pageFault 0 .load, .store 3 0 fun _ => 7]

def reuse : List Op := [.swapoutProc 0 1, .uvmunmap 3 0 1, .swapoutProc 1 1, .swapin 6 0]

/-- When there is one free slot left, the second process gets the page of the first. -/
theorem swap_serves_other_page : ∃ s es, (∃ X L, Inv true s X L) ∧
    Along fire (fun s op => op.Regular s) s es ∧ ¬ Always fire PgState.Faithful s es := by
  have hsetup : Along fire (fun s op => op.Regular s ∧ op.Unbuffered s) (.boot 20) twoPages := by
    decide +kernel
  have hrun : ((runEvents fire (.boot 20) twoPages).any fun s : PgState =>
      decide (Vacant s 3) && decide
        (Along fire (fun s op => op.Regular s) (s.fillSlots 3 511) reuse) &&
        (runEvents fire (s.fillSlots 3 511) reuse).any fun s =>
          s.fetched.any fun x => x.found 0 != x.saved 0) = true := by decide +kernel
  obtain ⟨s₁, hs₁, hrun⟩ := (Option.any_eq_true _ _).1 hrun
  simp only [Bool.and_eq_true, decide_eq_true_eq] at hrun
  obtain ⟨⟨hvacant, hregular⟩, hend⟩ := hrun
  obtain ⟨X, L, hinv⟩ := Reaches.content hsetup hs₁
  refine ⟨s₁.fillSlots 3 511, reuse, ⟨X, L, hinv.fillSlots hvacant 511 (by decide)⟩, hregular, ?_⟩
  intro hall
  obtain ⟨s₂, hs₂, hbad⟩ := (Option.any_eq_true _ _).1 hend
  obtain ⟨x, hx, hne⟩ := List.any_eq_true.1 hbad
  have heq := hall.last hs₂ x hx
  rw [heq] at hne
  simp at hne

end OopsOS.Pg
