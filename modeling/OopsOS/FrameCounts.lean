import OopsOS.PageOps

namespace OopsOS.Pg
set_option autoImplicit true
open Function

variable {s s' : PgState} {X L : Multiset Nat} {t vpn f va : Nat} {E : Panic → Prop} {op : Op}

def PgState.mappings (s : PgState) (f : Nat) : Nat :=
  ((entries s.nframes).filter fun k =>
    (s.pte k.1 k.2).valid = true ∧ k.2 < TRAPFRAME ∧ (s.pte k.1 k.2).num = f).card

def PgState.owners (s : PgState) (f : Nat) : Nat :=
  s.kernel.count f +
    ((Finset.range SWAP_PBUF_SIZE).filter fun i => (s.pbuf i).map Buffered.frame = some f).card +
    ((Node.places s.nframes).filter fun k => (s.table k.1).node k.2 = f).card +
    if s.live f = true then 1 else 0

/-- The count of a frame is that of its mappings and owners; free frames are listed once. -/
def PgState.Exact (s : PgState) : Prop :=
  ∀ f, IsFrame s.nframes f → s.cnt f = (s.mappings f + s.owners f : Nat) ∧
    ∑ i ∈ Finset.range NCPU, (s.free i).count f = if s.cnt f = 0 then 1 else 0

theorem values_places (n : Nat) (v : Place → Nat) : values (places n) v =
    values (entries n) (fun k => v (.leaf k.1 k.2)) + values (Node.places n)
    (fun k => v (.node k.1 k.2)) + values (Finset.range (n + 1)) (fun t => v (.root t)) +
      values (Finset.range SWAP_PBUF_SIZE) (fun i => v (.buf i)) := by
  simp only [values_eq_sum]
  unfold places
  rw [Finset.sum_union, Finset.sum_union, Finset.sum_union, Finset.sum_image, Finset.sum_image,
    Finset.sum_image, Finset.sum_image]
  · exact fun _ _ _ _ he => Place.buf.inj he
  · exact fun _ _ _ _ he => Place.root.inj he
  · exact fun _ _ _ _ he => Prod.ext (Place.node.inj he).1 (Place.node.inj he).2
  · exact fun _ _ _ _ he => Prod.ext (Place.leaf.inj he).1 (Place.leaf.inj he).2
  · rw [Finset.disjoint_left]
    intro k hk hk'
    obtain ⟨_, _, rfl⟩ := Finset.mem_image.1 hk
    simp at hk'
  · rw [Finset.disjoint_right]
    intro k hk hk'
    obtain ⟨_, _, rfl⟩ := Finset.mem_image.1 hk
    simp at hk'
  · rw [Finset.disjoint_right]
    intro k hk hk'
    obtain ⟨_, _, rfl⟩ := Finset.mem_image.1 hk
    simp at hk'

theorem count_values_iff {κ : Type} [DecidableEq κ] {S : Finset κ} {v : κ → Nat} {p : κ → Prop}
    [DecidablePred p] (h0 : f ≠ 0) (h : ∀ k, v k = f ↔ p k) :
    (values S v).count f = (S.filter p).card := by
  rw [count_values _ _ h0]
  exact congrArg Finset.card (Finset.filter_congr fun k _ => eq_comm.trans (h k))

theorem held_leaf_iff (h0 : f ≠ 0) : s.held (.leaf t vpn) = f ↔
    (s.pte t vpn).valid = true ∧ vpn < TRAPFRAME ∧ (s.pte t vpn).num = f := by
  show (s.pte t vpn).frame vpn = f ↔ _
  unfold Pte.frame
  split
  · next hv => exact ⟨fun he => ⟨hv.1, hv.2, he⟩, fun he => he.2.2⟩
  · next hv => exact ⟨fun he => (h0 he.symm).elim, fun he => (hv ⟨he.1, he.2.1⟩).elim⟩

theorem held_root_iff (h0 : f ≠ 0) : s.held (.root t) = f ↔ s.live f = true ∧ t = f := by
  show (if s.live t = true then t else 0) = f ↔ _
  split
  · next hl => exact ⟨fun he => ⟨he ▸ hl, he⟩, fun he => he.2⟩
  · next hl => exact ⟨fun he => (h0 he.symm).elim, fun he => (hl (he.2 ▸ he.1)).elim⟩

theorem held_buf_iff (h0 : f ≠ 0) : s.held (.buf i) = f ↔
    (s.pbuf i).map Buffered.frame = some f := by
  show ((s.pbuf i).map Buffered.frame).getD 0 = f ↔ _
  cases (s.pbuf i).map Buffered.frame with
  | none => exact ⟨fun he => (h0 he.symm).elim, fun he => nomatch he⟩
  | some g => exact ⟨congrArg some, Option.some.inj⟩

theorem count_refs_zero (hf : IsFrame s.nframes f) :
    (s.refs 0).count f = s.mappings f + s.owners f := by
  have h0 : f ≠ 0 := Nat.ne_of_gt hf.1
  have hroot : ((Finset.range (s.nframes + 1)).filter fun t => s.live f = true ∧ t = f).card =
      if s.live f = true then 1 else 0 := by
    split
    · next hl =>
      refine Finset.card_eq_one.2 ⟨f, Finset.ext fun t => ?_⟩
      rw [Finset.mem_filter, Finset.mem_range, Finset.mem_singleton]
      exact ⟨fun ht => ht.2.2, fun ht => ⟨ht ▸ Nat.lt_succ_of_le hf.2, hl, ht⟩⟩
    · next hl => exact Finset.card_eq_zero.2 (Finset.filter_eq_empty_iff.2 fun _ _ ht => hl ht.1)
  unfold PgState.refs PgState.owners PgState.mappings
  rw [add_zero, values_places, Multiset.count_add, Multiset.count_add, Multiset.count_add,
    Multiset.count_add, Multiset.coe_count, count_values_iff h0 fun _ => held_leaf_iff h0,
    count_values_iff h0 fun _ => held_root_iff h0, count_values_iff h0 fun _ => held_buf_iff h0,
    count_values_iff h0 fun _ => Iff.rfl, hroot]
  show _ + ((Node.places s.nframes).filter fun k => (s.table k.1).node k.2 = f).card + _ + _ + _ = _
  omega

theorem count_pool (f : Nat) : s.pool.count f = ∑ i ∈ Finset.range NCPU, (s.free i).count f := by
  unfold PgState.pool
  rw [Multiset.count_sum']
  simp only [Multiset.coe_count]

theorem Inv.inexact (h : Inv false s Y L) (hY : Y ≠ 0) : ¬ s.Exact := by
  intro hex
  obtain ⟨f, hf⟩ := Multiset.exists_mem_of_ne_zero hY
  have hframe := h.frames.range f (mem_refs_hand hf)
  have hcount := h.frames.count f hframe
  have hrefs : s.refs Y = s.refs 0 + Y := by
    unfold PgState.refs
    rw [add_zero]
  rw [hrefs, Multiset.count_add, count_refs_zero hframe, (hex f hframe).1] at hcount
  have hpos := Multiset.count_pos.2 hf
  omega

def Short (s : PgState) : Prop := ∃ f, IsFrame s.nframes f ∧ s.cnt f < (s.refs 0).count f

theorem Short.inexact (h : Short s) : ¬ s.Exact := by
  obtain ⟨f, hf, hlt⟩ := h
  intro hex
  rw [count_refs_zero hf, (hex f hf).1] at hlt
  exact Int.lt_irrefl _ hlt

theorem kfree_lowers : wp (fun _ => True) (kfree f) s (fun _ s' => AllocOnly s s' ∧
    IsFrame s.nframes f ∧ s'.cnt f = s.cnt f - 1 ∧ ∀ g, s'.cnt g ≤ s.cnt g) := by
  unfold kfree
  rw [wp_bind, wp_get, wp_ite]
  split
  · trivial
  · next hin =>
    have hframe : IsFrame s.nframes f := by
      have h0 : f ≠ 0 := fun he => hin (.inl he)
      have hle : ¬ s.nframes < f := fun hlt => hin (.inr hlt)
      exact ⟨Nat.pos_of_ne_zero h0, Nat.le_of_not_lt hle⟩
    have hset (n : Int) (hn : n = s.cnt f - 1) :
        update s.cnt f n f = s.cnt f - 1 ∧ ∀ g, update s.cnt f n g ≤ s.cnt g := by
      refine ⟨(update_self _ _ _).trans hn, fun g => ?_⟩
      by_cases hg : g = f
      · subst hg
        rw [update_self]
        omega
      · rw [update_of_ne hg]
    rw [wp_ite]
    split
    · next h1 =>
      refine (wp_bind _ _).2 (wp_nextCpu fun i env _ => ?_)
      exact (wp_modify _).2 ⟨rfl, hframe, hset 0 h1.symm⟩
    · exact (wp_set _).2 ⟨rfl, hframe, hset _ rfl⟩

theorem refs_setHigh (hle : TRAPFRAME ≤ vpn) : (s.setPte t vpn e).refs X = s.refs X := by
  have hzero (e : Pte) : e.frame vpn = 0 := if_neg fun hv => Nat.not_le.2 hv.2 hle
  unfold PgState.refs
  rw [held_setPte, hzero, update_eq_self_iff.2 (show s.held (.leaf t vpn) = 0 from hzero _).symm]
  rfl

theorem unmapHigh_lowers (hle : TRAPFRAME ≤ vpn) :
    wp (fun _ => True) (unmapPage t vpn true) s (fun _ s' => s'.nframes = s.nframes ∧
      s'.refs 0 = s.refs 0 ∧ (∀ g, s'.cnt g ≤ s.cnt g) ∧
      ((s.pte t vpn).valid = true → s.Reached t vpn → IsFrame s.nframes (s.pte t vpn).num ∧
        s'.cnt (s.pte t vpn).num = s.cnt (s.pte t vpn).num - 1)) := by
  unfold unmapPage
  rw [wp_bind]
  refine wp_lookup (fun _ => trivial) (fun _ hn => ?_) fun _ _ => ?_
  · exact ⟨rfl, rfl, fun _ => Int.le_refl _, fun _ hr => (hn hr).elim⟩
  · rw [wp_ite]
    split
    · next hv =>
      have hno {Q : Prop} (hval : (s.pte t vpn).valid = true) : Q :=
        (Bool.false_ne_true (hv.symm.trans hval)).elim
      rw [wp_ite]
      split
      · unfold swapfree
        rw [wp_bind, wp_ite]
        split
        · exact ⟨rfl, refs_setHigh hle, fun _ => Int.le_refl _, fun hval => hno hval⟩
        · exact ⟨rfl, refs_setHigh (s := s.setSlot _ false) hle, fun _ => Int.le_refl _,
            fun hval => hno hval⟩
      · exact ⟨rfl, refs_setHigh hle, fun _ => Int.le_refl _, fun hval => hno hval⟩
    · rw [wp_ite]
      split
      · trivial
      · rw [if_pos rfl]
        refine kfree_lowers.bind fun _ s₁ h₁ => wp_setPte.2 ?_
        obtain ⟨honly, hframe, hcnt, hle'⟩ := h₁
        have honly : s₁ = { s with
          cnt := s₁.cnt, data := s₁.data, free := s₁.free, env := s₁.env } := honly
        refine ⟨by rw [honly]; rfl, ?_, hle', fun _ _ => ⟨hframe, hcnt⟩⟩
        rw [refs_setHigh hle, honly]
        rfl

def KeepsCounts (s : PgState) (op : Op) : Prop := ∀ s', op.exec s = .ok (false, s') → Steady s s'

/-- The operation unmaps no trapframe as a page of the process and loses no frame. -/
def Op.Accounts (s : PgState) (op : Op) : Prop := op.Spares s ∧ ¬ op.LosesFrame s

section
variable (h : Inv false s 0 L)
include h

theorem Inv.exact : s.Exact := by
  intro f hf
  have hcount := h.frames.count f hf
  have hfree := h.frames.free f
  rw [count_refs_zero hf] at hcount
  refine ⟨hcount, ?_⟩
  rw [← count_pool, hfree, count_refs_zero hf, hcount]
  refine if_congr ?_ rfl rfl
  rw [and_iff_right hf, Nat.cast_eq_zero]

theorem uvmunmap_short (hn : ¬ Spares s t (va / PGSIZE) (va / PGSIZE + n)) :
    wp (fun _ => True) (uvmunmap t va n true) s (fun _ s' => Short s') := by
  unfold uvmunmap
  rw [wp_ite]
  split
  · trivial
  · refine (wp_loop (fun i _ s' => Inv false s' 0 L ∧ Unmaps t (va / PGSIZE) i s s' ∧
      Spares s t (va / PGSIZE) i ∨ Short s' ∧ TRAPFRAME ≤ i)
      (.inl ⟨h, .refl _ _ s, fun v hlo hhi => (Nat.not_lt.2 hlo hhi).elim⟩) ?_).mono fun _ s₁ h₁ =>
        ?_
    · intro i _ s₁ hlo hhi h₁
      rcases h₁ with ⟨hinv, hu, hsp⟩ | ⟨⟨f, hf, hlt⟩, hle⟩
      · have he := hu.outside t i fun hr => Nat.lt_irrefl i hr.2.2
        by_cases hbad : TRAPFRAME ≤ i ∧ (s.pte t i).valid = true
        · have hv : (s₁.pte t i).valid = true := by
            rw [he]
            exact hbad.2
          refine (unmapHigh_lowers hbad.1).mono fun _ s₂ h₂ => .inr ⟨?_, by omega⟩
          obtain ⟨hnf, hrefs, -, hlow⟩ := h₂
          obtain ⟨hframe, hcnt⟩ := hlow hv (hinv.shaped.used t i (.inl hv)).2
          refine ⟨(s₁.pte t i).num, by rw [hnf]; exact hframe, ?_⟩
          rw [hcnt, hrefs, ← hinv.frames.count _ hframe]
          exact Int.sub_one_lt_of_le (Int.le_refl _)
        · have hgood : TRAPFRAME ≤ i → (s.pte t i).valid = false := fun hle =>
            Bool.eq_false_of_not_eq_true fun hv => hbad ⟨hle, hv⟩
          refine (unmapPage_spec (fun _ _ => trivial) hinv (fun hle => by rw [he]; exact hgood hle)
            (fun hc => nomatch hc)).mono fun _ s₂ h₂ => .inl
              ⟨h₂.1, hu.trans h₂.2 hlo (Nat.le_succ i), ?_⟩
          intro v hvlo hvhi hle
          by_cases hvi : v = i
          · rw [hvi]
            exact hgood (hvi ▸ hle)
          · exact hsp v hvlo (by omega) hle
      · refine (unmapHigh_lowers hle).mono fun _ s₂ h₂ => .inr ⟨⟨f, ?_, ?_⟩, by omega⟩
        · rw [h₂.1]
          exact hf
        · rw [h₂.2.1]
          exact Int.lt_of_le_of_lt (h₂.2.2.1 f) hlt
    · rcases h₁ with ⟨-, -, hsp⟩ | ⟨hs, -⟩
      · exact (hn hsp).elim
      · exact hs

theorem uvmdealloc_short (hn : ¬ Spares s t (pagesOf newsz) (pagesOf oldsz)) :
    wp (fun _ => True) (uvmdealloc t oldsz newsz) s (fun _ s' => Short s') := by
  have hpages : pagesOf newsz < pagesOf oldsz := by
    by_contra hle
    exact hn fun v hlo hhi => (Nat.not_lt.2 (Nat.le_of_not_lt hle) (hlo.trans_lt hhi)).elim
  have hsz : ¬ oldsz ≤ newsz := fun hle => Nat.not_lt.2 (pagesOf_mono hle) hpages
  unfold uvmdealloc
  rw [if_neg hsz, if_pos hpages, wp_bind]
  refine (uvmunmap_short h ?_).mono fun _ s₁ h₁ => h₁
  rw [pgRoundUp_div, Nat.add_sub_cancel' (Nat.le_of_lt hpages)]
  exact hn

theorem Op.frames_step (hproper : op.Proper s) (hacc : op.Accounts s) :
    wp (fun _ => True) op.exec s
    (fun r s' => (∃ L', Inv false s' 0 L') ∧ (r = false → Steady s s')) := by
  by_cases hop : ∃ t oldsz newsz, op = .uvmalloc t oldsz newsz
  · obtain ⟨t, oldsz, newsz, rfl⟩ := hop
    refine (uvmalloc_spec (fun _ => trivial) h hproper.1 hproper.2 oldsz newsz).bind
      fun r s₁ h₁ => ?_
    obtain ⟨L', hinv, hr⟩ := h₁
    exact ⟨⟨L', hinv⟩, fun hf => hr (Option.isNone_iff_eq_none.1 (Option.isSome_eq_false_iff.1 hf))⟩
  · refine (op.step h hproper hacc.1 (fun hc => nomatch hc) fun t o n he => hop ⟨t, o, n, he⟩).mono
      fun r s₁ h₁ => ?_
    obtain ⟨Y, Z, hinv, hY, -, hr⟩ := h₁
    rw [hY.2 hacc.2, zero_add] at hinv
    exact ⟨⟨_, hinv⟩, hr⟩

theorem Op.frames_break (hproper : op.Proper s) (hacc : ¬ op.Accounts s) :
    wp (fun _ => True) op.exec s (fun _ s' => ¬ s'.Exact) := by
  by_cases hsp : op.Spares s
  · have hl : op.LosesFrame s := by
      by_contra hl
      exact hacc ⟨hsp, hl⟩
    have hop : ∀ t o n, op ≠ .uvmalloc t o n := by
      rintro t o n rfl
      exact hl
    refine (op.step h hproper hsp (fun hc => nomatch hc) hop).mono fun r s₁ h₁ => ?_
    obtain ⟨Y, Z, hinv, hY, -⟩ := h₁
    rw [add_zero] at hinv
    exact hinv.inexact fun h0 => hY.1 h0 hl
  · cases op with
    | uvmdealloc t oldsz newsz =>
      exact (uvmdealloc_short h hsp).bind fun _ s₁ h₁ => h₁.inexact
    | uvmunmap t va n => exact (uvmunmap_short h hsp).bind fun _ s₁ h₁ => h₁.inexact
    | _ => exact (hsp trivial).elim

theorem always_exact_iff (hrun : Along fire (fun s op => op.Proper s) s es) :
    Always fire PgState.Exact s es ↔ Along fire (fun s op => op.Accounts s) s es := by
  refine always_iff_along_of (I := fun s => ∃ L, Inv false s 0 L) (fun s hs => hs.choose_spec.exact)
    ?_ ?_ ⟨L, h⟩ hrun
  · rintro s op s' ⟨L, h⟩ hproper hacc hfire
    obtain ⟨r, hr⟩ := fire_run hfire
    exact ((op.frames_step h hproper hacc).of_ok hr).1
  · rintro s op s' ⟨L, h⟩ hproper hacc hfire
    obtain ⟨r, hr⟩ := fire_run hfire
    exact (op.frames_break h hproper hacc).of_ok hr

theorem keepsCounts_along (hrun : Along fire (fun s op => op.Proper s) s es)
    (hacc : Along fire (fun s op => op.Accounts s) s es) : Along fire KeepsCounts s es := by
  refine (hrun.and hacc).steps (I := fun s => ∃ L, Inv false s 0 L) ?_ ?_ ⟨L, h⟩
  · rintro s op _ ⟨L, h⟩ hop _ s' hr
    exact ((op.frames_step h hop.1 hop.2).of_ok hr).2 rfl
  · rintro s op s' ⟨L, h⟩ hop hfire
    obtain ⟨r, hr⟩ := fire_run hfire
    exact ((op.frames_step h hop.1 hop.2).of_ok hr).1

end

theorem frame_counts_exact {es : List Op} (h : Inv false s 0 L)
    (hrun : Along fire (fun s op => op.Proper s) s es) :
    Always fire PgState.Exact s es ∧ Along fire KeepsCounts s es ↔
      Along fire (fun s op => op.Accounts s) s es :=
  ⟨fun hboth => (always_exact_iff h hrun).1 hboth.1, fun hacc =>
    ⟨(always_exact_iff h hrun).2 hacc, keepsCounts_along h hrun hacc⟩⟩

def lifeRun : List Op :=
  [.kalloc, .create 1, .uvmalloc 2 0 8192, .cowalloc 2 0, .uvmdealloc 2 8192 4096, .swapout,
    .uvmfree 2 4096, .kfree 1]

theorem frame_counts_exact_life :
    Along fire (fun s op => op.Proper s) (.boot 12) lifeRun ∧
      (Always fire PgState.Exact (.boot 12) lifeRun ∧ Along fire KeepsCounts (.boot 12) lifeRun ↔
        Along fire (fun s op => op.Accounts s) (.boot 12) lifeRun) :=
  ⟨by decide +kernel, frame_counts_exact (.boot false 12) (by decide +kernel)⟩

def tailVma : Vma := ⟨true, 4096, 100, false, true, true, false, none, 0, 0⟩

def leakRun : List Op :=
  [.kalloc, .create 1, .setProc 0 { Proc.unused with pagetable := 2, sz := 4096, vma := [tailVma] },
    .pageFault 4096 .load, .setProc 0 .unused]

theorem frame_leaks : ∃ es, Along fire (fun s op => op.Proper s) (.boot 8) es ∧
    ¬ Always fire PgState.Exact (.boot 8) es := by
  have hrun : ((runEvents fire (.boot 8) leakRun).any fun s =>
      (s.pte 2 1).valid && (fire s (.uvmfree 2 4096)).isSome) = true := by decide +kernel
  have hproper : Along fire (fun s op => op.Proper s) (.boot 8) (leakRun ++ [.uvmfree 2 4096]) := by
    decide +kernel
  refine ⟨leakRun ++ [.uvmfree 2 4096], hproper, fun hall => ?_⟩
  cases hs : runEvents fire (.boot 8) leakRun with
  | none =>
    rw [hs] at hrun
    cases hrun
  | some s₁ =>
    rw [hs] at hrun
    obtain ⟨hv, hfire⟩ := Bool.and_eq_true_iff.1 hrun
    have hacc := ((always_exact_iff (.boot false 8) hproper).1 hall).last hs hfire
    exact hacc.2 ⟨1, by decide, by decide, hv⟩

end OopsOS.Pg
