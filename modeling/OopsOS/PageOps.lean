import OopsOS.PageFaults
import OopsOS.PageRelease
import OopsOS.Traces

namespace OopsOS.Pg
set_option autoImplicit true
open Function

variable {s s' s'' : PgState} {X L : Multiset Nat} {t vpn f va : Nat} {e perm : Pte} {c : Bool}
  {E : Panic → Prop} {g : Bool} {cause : Cause}

def PgState.own (s : PgState) (f : Nat) : PgState := { s with kernel := f :: s.kernel }

def PgState.disown (s : PgState) (f : Nat) : PgState := { s with kernel := s.kernel.erase f }

def PgState.setCur (s : PgState) (p : ProcSlot) : PgState := { s with cur := p }

/-- The operations on memory. `copyin`, `copyout` and `argaddr` prepare a page, `store` is one of
the user. -/
inductive Op where
  | kalloc
  | kfree (f : Nat)
  | uvmalloc (t oldsz newsz : Nat)
  | uvmdealloc (t oldsz newsz : Nat)
  | uvmcopy (old new sz : Nat)
  | uvmshare (old new sz : Nat)
  | cowalloc (t vpn : Nat)
  | uvmunmap (t va npages : Nat)
  | uvmfree (t sz : Nat)
  | swapout
  | swapoutProc (p : ProcSlot) (maxPages : Int)
  | swapin (t vpn : Nat)
  | copyin (t va : Nat)
  | copyout (t va : Nat)
  | argaddr (va : Nat)
  | pageFault (va : Nat) (cause : Cause)
  | store (t vpn : Nat) (d : Page)
  | create (trapframe : Nat)
  | setProc (p : ProcSlot) (pr : Proc)
  | switch (p : ProcSlot)

def locked (m : PgM α) : PgM α := do
  acquire
  let r ← m
  release
  pure r

def Op.exec : Op → PgM Bool
  | kalloc => do
    match ← Pg.kalloc with
    | none => pure false
    | some f => do
      modify fun s => s.own f
      pure true
  | kfree f => do
    modify fun s => s.disown f
    Pg.kfree f
    pure true
  | uvmalloc t oldsz newsz => do
    let r ← Pg.uvmalloc t oldsz newsz
    pure r.isSome
  | uvmdealloc t oldsz newsz => do
    let _ ← Pg.uvmdealloc t oldsz newsz
    pure true
  | uvmcopy old new sz => locked (Pg.uvmcopy old new sz)
  | uvmshare old new sz => locked (Pg.uvmshare old new sz)
  | cowalloc t vpn => do
    let r ← Pg.cowalloc t vpn
    pure r.isSome
  | uvmunmap t va npages => do
    Pg.uvmunmap t va npages true
    pure true
  | uvmfree t sz => do
    procFreepagetable t sz
    pure true
  | swapout => Pg.swapout
  | swapoutProc p maxPages => do
    let _ ← Pg.swapoutProc p maxPages
    pure true
  | swapin t vpn => do
    let r ← Pg.swapin t vpn
    pure (decide (0 ≤ r))
  | copyin t va => do
    let r ← preparePage t va .load
    pure r.isSome
  | copyout t va => do
    let r ← outPage t va
    pure r.isSome
  | argaddr va => Pg.argaddr va
  | pageFault va cause => do
    Pg.pageFault va cause
    pure true
  | store t vpn d => do
    let s ← get
    if (s.pte t vpn).valid = true ∧ (s.pte t vpn).user = true ∧ (s.pte t vpn).write = true then do
      setData (s.pte t vpn).num d
      pure true
    else pure false
  | create trapframe => do
    let _ ← procPagetable trapframe
    pure true
  | setProc p pr => do
    Pg.setProc p pr
    pure true
  | switch p => do
    modify fun s => s.setCur p
    pure true

def fire (s : PgState) (op : Op) : Option PgState :=
  match op.exec s with
  | .ok (_, s') => some s'
  | .error _ => none

theorem fire_run (h : fire s op = some s') : ∃ r, op.exec s = .ok (r, s') := by
  unfold fire at h
  split at h
  · next r s₁ hrun =>
    cases h
    exact ⟨r, hrun⟩
  · cases h

/-- How the kernel uses an operation: on frames, tables and processes that it has for it. -/
def Op.Proper (s : PgState) : Op → Prop
  | kfree f => f ∈ s.kernel
  | uvmalloc t _ _ => s.live t = true ∧ Trapped s t
  | uvmcopy old new _ | uvmshare old new _ => old ≠ new ∧ Fresh s new
  | uvmfree t _ => s.live t = true ∧ ∀ p, s.root p ≠ t
  | copyin _ _ | copyout _ _ | argaddr _ | pageFault _ _ => s.root s.cur ≠ 0
  | setProc _ pr => pr.pagetable = 0 ∨ s.live pr.pagetable = true ∧ Trapped s pr.pagetable
  | _ => True

theorem trapped_iff : Trapped s t ↔
    (s.pte t TRAPFRAME).valid = true ∧ (s.pte t TRAMPOLINE).valid = true := by
  constructor
  · exact fun h => ⟨h _ (Nat.le_refl _) (by decide), h _ (by decide) (by decide)⟩
  · rintro ⟨h1, h2⟩ v hle hlt
    by_cases he : v = TRAPFRAME
    · rw [he]
      exact h1
    · rw [show v = TRAMPOLINE by
        have hlt : v < TRAPFRAME + 2 := hlt
        show v = TRAPFRAME + 1
        omega]
      exact h2

instance : Decidable (Trapped s t) := decidable_of_iff _ trapped_iff.symm

instance : Decidable (e.Unused) := inferInstanceAs (Decidable (_ ∧ _))

instance : Decidable (Fresh s t) :=
  decidable_of_iff (s.live t = true ∧ (∀ v, v < TRAPFRAME → (s.pte t v).Unused) ∧ Trapped s t)
    ⟨fun h => ⟨h.1, h.2.1, h.2.2⟩, fun h => ⟨h.live, h.unused, h.trapped⟩⟩

instance Op.Proper.decidable (s : PgState) : (op : Op) → Decidable (op.Proper s)
  | kfree f => inferInstanceAs (Decidable (f ∈ s.kernel))
  | uvmalloc t _ _ => inferInstanceAs (Decidable (s.live t = true ∧ Trapped s t))
  | uvmcopy old new _ | uvmshare old new _ => inferInstanceAs (Decidable (old ≠ new ∧ Fresh s new))
  | uvmfree t _ => inferInstanceAs (Decidable (s.live t = true ∧ ∀ p, s.root p ≠ t))
  | copyin _ _ | copyout _ _ | argaddr _ | pageFault _ _ =>
    inferInstanceAs (Decidable (s.root s.cur ≠ 0))
  | setProc _ pr =>
    inferInstanceAs
    (Decidable (pr.pagetable = 0 ∨ s.live pr.pagetable = true ∧ Trapped s pr.pagetable))
  | kalloc | uvmdealloc _ _ _ | cowalloc _ _ | uvmunmap _ _ _ | swapout | swapoutProc _ _
  | swapin _ _
  | store _ _ _ | create _ | switch _ => inferInstanceAs (Decidable True)

/-- No trapframe or trampoline page is unmapped as if it were a page of the process. -/
def Op.Spares (s : PgState) : Op → Prop
  | uvmdealloc t oldsz newsz => Pg.Spares s t (pagesOf newsz) (pagesOf oldsz)
  | uvmunmap t va npages => Pg.Spares s t (va / PGSIZE) (va / PGSIZE + npages)
  | _ => True

/-- No slot of a page that is unmapped is in the page buffer. -/
def Op.Unbuffered (s : PgState) : Op → Prop
  | uvmdealloc t oldsz newsz => NoneBuffered s t (pagesOf newsz) (pagesOf oldsz)
  | uvmunmap t va npages => NoneBuffered s t (va / PGSIZE) (va / PGSIZE + npages)
  | uvmfree t sz => NoneBuffered s t 0 (pagesOf sz)
  | _ => True

def Overwrites (s : PgState) (t va : Nat) (cause : Cause) : Prop :=
  s.root s.cur = t ∧ (s.pte t (va / PGSIZE)).swapped = true ∧ ∃ p s₁ f s₂,
    supply s va cause = some p ∧ Stuck t (va / PGSIZE) s s₁ ∧ Pg.kalloc s₁ = .ok (some f, s₂)

def Displaces (s : PgState) (va : Nat) (cause : Cause) : Prop :=
  s.swapready = true ∧ (s.pte (s.root s.cur) (va / PGSIZE)).swapped = false ∧
    ((s.pte (s.root s.cur) (va / PGSIZE)).valid && (s.pte (s.root s.cur) (va / PGSIZE)).cow) =
    false ∧
    ∃ p f s₁, supply s va cause = some p ∧ Pg.kalloc s = .ok (some f, s₁) ∧
      (s₁.pte (s.root s.cur) (va / PGSIZE)).swapped = true

def Op.LosesSlot (s : PgState) : Op → Prop
  | uvmfree t sz => ∃ v, pagesOf sz ≤ v ∧ (s.pte t v).swapped = true
  | copyin t va => Overwrites s t va .load
  | copyout t va => Overwrites s t va .store
  | argaddr va => va ≠ 0 ∧ Overwrites s (s.root s.cur) va .load
  | pageFault va cause => Displaces s va cause
  | _ => False

def Op.LosesFrame (s : PgState) : Op → Prop
  | uvmfree t sz => ∃ v, pagesOf sz ≤ v ∧ v < TRAPFRAME ∧ (s.pte t v).valid = true
  | _ => False

def Stepped (c : Bool) (X L : Multiset Nat) (s : PgState) (op : Op) (r : Bool) (s' : PgState) :
    Prop :=
  ∃ Y Z, Inv c s' (Y + X) (Z + L) ∧ (Y = 0 ↔ ¬ op.LosesFrame s) ∧ (Z = 0 ↔ ¬ op.LosesSlot s) ∧
    (r = false → Steady s s')

def Accounted (c : Bool) (X L : Multiset Nat) (P : Prop) (s : PgState) : Prop :=
  ∃ Z, Inv c s X (Z + L) ∧ (Z = 0 ↔ ¬ P)

theorem Accounted.stepped {P : Prop} (h : Accounted c X L P s') (hf : ¬ op.LosesFrame s)
    (hs : op.LosesSlot s ↔ P) (hr : r = false → Steady s s') : Stepped c X L s op r s' := by
  obtain ⟨Z, hinv, hZ⟩ := h
  refine ⟨0, Z, ?_, iff_of_true rfl hf, hZ.trans (not_congr hs.symm), hr⟩
  rw [zero_add]
  exact hinv

theorem Stuck.unique (h : Stuck t vpn s s') (h' : Stuck t vpn s s'') : s' = s'' := by
  rcases h with ⟨hno, rfl⟩ | ⟨hready, -, -, hk⟩
  · rcases h' with ⟨-, rfl⟩ | ⟨hready, -⟩
    · rfl
    · exact (Bool.false_ne_true (hno.symm.trans hready)).elim
  · rcases h' with ⟨hno, -⟩ | ⟨-, -, -, hk'⟩
    · exact (Bool.false_ne_true (hno.symm.trans hready)).elim
    · rw [hk] at hk'
      cases hk'
      rfl

theorem Evicts.swapped (h : Evicts g X s s') (hinv : Inv c s X L)
    (hs : (s.pte t vpn).swapped = true) :
    (s'.pte t vpn).swapped = true :=
  (Pte.core_swapped (h.invalid (hinv.shaped.swapped_invalid hs))).trans hs

theorem Supplied.loses (h : Supplied c X L t vpn f p s s₁ s') :
    nonzero (s₁.pte t vpn).slot = 0 ↔ ¬ (s₁.pte t vpn).swapped = true := by
  by_cases hs : (s₁.pte t vpn).swapped = true
  · rw [Pte.slot_of_swapped hs h.invalid, nonzero_of_ne (Nat.succ_ne_zero _)]
    exact iff_of_false (Multiset.singleton_ne_zero _) (not_not.2 hs)
  · have hslot : (s₁.pte t vpn).slot = 0 := if_neg fun he => hs he.1
    rw [hslot]
    exact iff_of_true rfl hs

theorem Walked.stuck (hw : Walked c X L t vpn s (some f) s') (hs : Stuck t vpn s s'')
    (hsw : (s.pte t vpn).swapped = true) : False := by
  rcases hw with ⟨-, -, hns⟩ | ⟨hr, -⟩ | ⟨-, -, f', s₁, hb⟩
  · exact Bool.false_ne_true (hns.symm.trans hsw)
  · cases hr
  · exact hb.moving s'' hs

theorem Walked.keeps (hw : Walked c X L t (va / PGSIZE) s (some f) s') :
    ¬ Overwrites s t va cause := by
  rintro ⟨-, hs, -, s₁, -, -, -, hstuck, -⟩
  exact hw.stuck hstuck hs

theorem BroughtBack.apart (h : BroughtBack c X L t vpn f s s₁ s') : Apart t vpn (vpn + 1) s s' := by
  obtain ⟨x, env, rfl⟩ := h.result
  exact (h.reclaim.apart _ _ _).trans
    (Apart.setPte (s := (s₁.setSlot (s.pte t vpn).num false).addFetched x)
    (Nat.le_refl vpn) (Nat.lt_succ_self vpn))

theorem wp_locked {m : PgM α} {Q : α → PgState → Prop}
    (h : wp E m (s.setNoff (s.noff + 1)) (fun a s' => Q a (s'.setNoff (s'.noff - 1)))) :
    wp E (locked m) s Q :=
  (wp_bind _ _).2 ((wp_modify _).2 ((wp_bind _ _).2 (h.mono fun _ _ h' =>
    (wp_bind _ _).2 ((wp_modify _).2 ((wp_pure _).2 h')))))

theorem Steady.refl (s : PgState) : Steady s s := fun _ _ _ _ _ _ => rfl

section
variable (h : Inv c s X L)
include h

theorem Accounted.kept {P : Prop} (hno : ¬ P) : Accounted c X L P s := by
  refine ⟨0, ?_, iff_of_true rfl hno⟩
  rw [zero_add]
  exact h

theorem Inv.setKernel {K : List Nat} (hK : (K : Multiset Nat) + X' = s.kernel + X) :
    Inv c { s with kernel := K } X' L where
  shaped := { h.shaped with }
  frames := by
    have hrefs : PgState.refs { s with kernel := K } X' = s.refs X := by
      show values (places s.nframes) s.held + (K : Multiset Nat) + X' = _
      rw [add_assoc, hK, ← add_assoc]
      rfl
    rw [hrefs]
    exact h.frames
  __ := h
  content hc := { h.content hc with }

theorem Inv.disown (hf : f ∈ s.kernel) : Inv c (s.disown f) (f ::ₘ X) L := by
  apply h.setKernel
  rw [Multiset.add_cons, ← Multiset.cons_add, ← Multiset.coe_erase,
    Multiset.cons_erase (Multiset.mem_coe.2 hf)]

theorem Inv.kill : Inv c s.kill X L := by
  refine h.other s.env s.noff s.cur _ fun q => ?_
  by_cases hq : q = s.cur
  · subst hq
    rw [update_self]
    rfl
  · rw [update_of_ne hq]
    rfl

theorem kalloc_run (hk : kalloc s = .ok (r, s')) : Alloced c X L s r s' :=
  (kalloc_spec (E := fun _ => True) (fun _ _ => trivial) h).of_ok hk

theorem Supplied.overwrites (hw : Walked c X L t (va / PGSIZE) s none s')
    (ht : s.root s.cur = t) (hp : supply s va cause = some p)
    (hsup : Supplied c X L t (va / PGSIZE) f p s' s₁ s'') :
    nonzero (s₁.pte t (va / PGSIZE)).slot = 0 ↔ ¬ Overwrites s t va cause := by
  obtain ⟨hn, hstuck, hsame⟩ := hw.missing h
  rw [hsup.loses, not_iff_not]
  constructor
  · intro hs₁
    have hs : (s.pte t (va / PGSIZE)).swapped = true := by
      by_contra hns
      have hns : (s.pte t (va / PGSIZE)).swapped = false := Bool.eq_false_of_not_eq_true hns
      obtain ⟨rfl, hu⟩ := hsame hns
      have hfree (hold : Evictable s' t (va / PGSIZE)) : False := by
        unfold Pte.userFrame at hu
        rw [if_pos ⟨hold.valid, hold.user⟩] at hu
        cases hu
      cases hsup.reclaim.entry t (va / PGSIZE) with
      | kept he => exact Bool.false_ne_true (hns.symm.trans ((Pte.core_swapped he).symm.trans hs₁))
      | dropped hold => exact hfree hold
      | swapped k hold => exact hfree hold
    exact ⟨ht, hs, p, s', f, s₁, hp, hstuck hs, hsup.alloc⟩
  · intro ho
    exact hsup.reclaim.swapped hn.1 (hn.2.swapped h ho.2.1)

theorem Refused.keeps (hw : Walked c X L t (va / PGSIZE) s none s')
    (hno : Refused s s' t va cause) : ¬ Overwrites s t va cause := by
  rintro ⟨ht, hs, p, s₁, f, s₂, hp, hstuck, hk⟩
  obtain ⟨hn, hstuck', -⟩ := hw.missing h
  obtain rfl := hstuck.unique (hstuck' hs)
  have hs₂ := (kalloc_run hn.1 hk).2.1.swapped hn.1 (hn.2.swapped h hs)
  exact hno p f s₂ ht hp hk ((kalloc_run hn.1 hk).1.shaped.used t _ (.inr hs₂)).2

theorem Prepared.outcome (hp : Prepared c X L t va cause s r s') :
    Accounted c X L (Overwrites s t va cause) s' ∧ (r.isSome = false → Steady s s') := by
  cases hp with
  | present hw => exact ⟨.kept (hw.inv h) hw.keeps, fun hr => nomatch hr⟩
  | missing hw hg hno =>
    exact ⟨.kept hg.1 (hno.keeps h hw), fun _ => ((hw.missing h).1.2.grow.trans hg.2).steady⟩
  | supplied hw ht hp hsup =>
    exact ⟨⟨_, hsup.inv, hsup.overwrites h hw ht hp⟩, fun hr => nomatch hr⟩

theorem Walked.apart (hw : Walked c X L t vpn s r s') : Apart t vpn (vpn + 1) s s' ∧
      ((s.pte t vpn).valid = true → s' = s) := by
  rcases hw with ⟨rfl, -, -⟩ | ⟨-, hs, hn, -⟩ | ⟨-, hs, f, s₁, hb⟩
  · exact ⟨(Evicts.refl (g := false) X s').apart _ _ _, fun _ => rfl⟩
  · exact ⟨hn.2.apart _ _ _, fun hv =>
      (Bool.false_ne_true ((h.shaped.swapped_invalid hs).symm.trans hv)).elim⟩
  · exact ⟨hb.apart, fun hv =>
      (Bool.false_ne_true ((h.shaped.swapped_invalid hs).symm.trans hv)).elim⟩

theorem Walked.steady (hw : Walked c X L t vpn s r s') (hev : Evicts g X s' s'') :
    Steady s s'' := by
  obtain ⟨ha, hsame⟩ := hw.apart h
  by_cases hv : (s.pte t vpn).valid = true
  · obtain rfl := hsame hv
    exact hev.steady
  · refine (ha.trans (hev.apart _ _ _)).steady fun v hlo hhi hval => ?_
    have he : v = vpn := by omega
    rw [he] at hval
    exact (hv hval).elim

theorem Cowed.steady (hc : Cowed c X L t vpn s r s') (hr : r = none) : Steady s s' := by
  cases hc with
  | absent hw => exact hw.steady h (.refl (g := false) X s')
  | sole => cases hr
  | copied hw _ hc =>
    subst hr
    exact hw.steady h hc.2

theorem Cowed.failed (hc : Cowed c X L t vpn s none s')
    (hv : (s.pte t vpn).valid = true) : Next c X L s s' := by
  cases hc with
  | absent hw => exact (hw.missing h).1
  | copied hw _ hc =>
    obtain rfl := (hw.apart h).2 hv
    exact hc

theorem Opened.outcome (ho : Opened c X L t va s r s') :
    Accounted c X L (Overwrites s t va .store) s' ∧ (r.isSome = false → Steady s s') := by
  cases ho with
  | present hw => exact ⟨.kept (hw.inv h) hw.keeps, fun hr => nomatch hr⟩
  | cowed hw _ hc =>
    refine ⟨.kept (hc.inv (hw.inv h)) hw.keeps, fun hr => ?_⟩
    cases r with
    | none => exact hw.steady h (hc.failed (hw.inv h) hw.found.1).2
    | some f => cases hr
  | missing hw hg hno => exact Prepared.outcome h (.missing hw hg hno)
  | supplied hw ht hp hsup => exact Prepared.outcome h (.supplied hw ht hp hsup)

theorem Resolved.outcome (hr : Resolved c X L va cause s r s') :
    Accounted c X L (Displaces s va cause) s' := by
  have hcow (hv : (s.pte (s.root s.cur) (va / PGSIZE)).valid = true)
      (hcow : (s.pte (s.root s.cur) (va / PGSIZE)).cow = true) : ¬ Displaces s va cause := by
    rintro ⟨-, -, hplain, -⟩
    rw [hv, hcow] at hplain
    cases hplain
  cases hr with
  | outside hle =>
    refine .kept h ?_
    rintro ⟨-, -, -, p, f, s₁, hp, -⟩
    unfold supply at hp
    rw [if_pos hle] at hp
    cases hp
  | back hs hb =>
    refine .kept hb.inv ?_
    rintro ⟨-, hns, -⟩
    exact Bool.false_ne_true (hns.symm.trans hs)
  | stuck hn hwhy =>
    refine .kept hn.1 ?_
    rintro ⟨hready, hns, -⟩
    exact Bool.false_ne_true (hns.symm.trans (hwhy hready))
  | beyond _ hv hc => exact .kept h (hcow hv hc)
  | cowed hv hc hcw => exact .kept (hcw.inv h) (hcow hv hc)
  | absent hready hns hplain hp =>
    cases r with
    | false =>
      refine .kept hp.1.1 ?_
      rintro ⟨-, -, -, p, f, s₁, hsup, hk, hs⟩
      exact hp.2 p f s₁ hsup hk ((kalloc_run h hk).1.shaped.used _ _ (.inr hs)).2
    | true =>
      obtain ⟨p, f, s₁, hsup, hs⟩ := hp
      refine ⟨_, hs.inv, hs.loses.trans (not_congr ⟨fun hsw => ?_, ?_⟩)⟩
      · exact ⟨hready, hns, hplain, p, f, s₁, hsup, hs.alloc, hsw⟩
      · rintro ⟨-, -, -, p', f', s₁', -, hk, hsw⟩
        rw [hs.alloc] at hk
        cases hk
        exact hsw

theorem Inv.setNoff (n : Nat) : Inv c (s.setNoff n) X L :=
  h.other s.env n s.cur s.proc (fun _ => rfl)

theorem Inv.setProc (hp : pr.pagetable = 0 ∨ s.live pr.pagetable = true ∧ Trapped s pr.pagetable) :
    Inv c (s.setProc p pr) X L where
  shaped := {
    __ := h.shaped
    roots := fun q hq => by
      by_cases he : q = p
      · have hroot : (s.setProc p pr).root q = pr.pagetable := by
          show (update s.proc p pr q).pagetable = pr.pagetable
          rw [he, update_self]
        rw [hroot] at hq ⊢
        exact hp.resolve_left hq
      · have hroot : (s.setProc p pr).root q = s.root q := by
          show (update s.proc p pr q).pagetable = (s.proc q).pagetable
          rw [update_of_ne he]
        rw [hroot] at hq ⊢
        exact h.shaped.roots q hq }
  __ := h
  content hc := { h.content hc with }

theorem Inv.store (hv : (s.pte t vpn).valid = true)
    (hu : (s.pte t vpn).user = true) (d : Page) : Inv c (s.setData (s.pte t vpn).num d) X L :=
  h.setData (fun _ _ hi hb => h.buf_ne_leaf hv (h.shaped.low_of_user hu) hi hb) d

theorem uvmfree_step (hlive : s.live t = true) (hp : ∀ p, s.root p ≠ t)
    (hb : c = true → NoneBuffered s t 0 (pagesOf sz)) :
    wp (fun _ => True) (Op.uvmfree t sz).exec s (Stepped c X L s (.uvmfree t sz)) := by
  refine (procFreepagetable_spec (fun _ _ => trivial) h hlive hp hb).bind fun _ s₁ h₁ => ?_
  obtain ⟨Y, Z, hinv, hY, hZ⟩ := h₁
  refine (wp_pure _).2 ⟨Y, Z, hinv, ?_, ?_, fun hr => nomatch hr⟩
  · rw [Multiset.eq_zero_iff_forall_notMem]
    constructor
    · rintro hno ⟨v, hle, hlt, hv⟩
      exact hno _ ((hY _).2 ⟨v, hle, hlt, hv, rfl⟩)
    · intro hno f hf
      obtain ⟨v, hle, hlt, hv, -⟩ := (hY f).1 hf
      exact hno ⟨v, hle, hlt, hv⟩
  · rw [Multiset.eq_zero_iff_forall_notMem]
    constructor
    · rintro hno ⟨v, hle, hs⟩
      exact hno _ ((hZ _).2 ⟨v, hle, hs, rfl⟩)
    · intro hno k hk
      obtain ⟨v, hle, hs, -⟩ := (hZ k).1 hk
      exact hno ⟨v, hle, hs⟩

end

theorem Stepped.inv (h : Inv c s' X L) (hf : ¬ op.LosesFrame s) (hs : ¬ op.LosesSlot s)
    (hr : r = false → Steady s s') : Stepped c X L s op r s' :=
    (Accounted.kept h hs).stepped hf Iff.rfl hr

theorem Inv.own (h : Inv c s (f ::ₘ X) L) : Inv c (s.own f) X L := by
  apply h.setKernel
  rw [← Multiset.cons_coe, Multiset.cons_add, Multiset.add_cons]

theorem Op.step (op : Op) (h : Inv c s X L) (hproper : op.Proper s) (hspare : op.Spares s)
    (hbuf : c = true → op.Unbuffered s) (hno : ∀ t oldsz newsz, op ≠ .uvmalloc t oldsz newsz) :
    wp (fun _ => True) op.exec s (Stepped c X L s op) := by
  have hE : ∀ e : Panic, e ≠ .remap → True := fun _ _ => trivial
  cases op with
  | kalloc =>
    refine (kalloc_spec hE h).bind fun r s₁ h₁ => ?_
    cases r with
    | none => exact .inv h₁.1 id id fun _ => h₁.2.steady
    | some f => exact .inv h₁.1.own id id fun hr => nomatch hr
  | kfree f =>
    refine (wp_bind _ _).2 ((wp_modify _).2 ((wp_bind _ _).2
      ((kfree_spec (h.disown hproper)).mono fun _ s₁ h₁ => ?_)))
    exact .inv h₁.1 id id fun hr => nomatch hr
  | uvmalloc t oldsz newsz => exact (hno t oldsz newsz rfl).elim
  | uvmdealloc t oldsz newsz =>
    exact (uvmdealloc_spec hE h _ _ _ hspare hbuf).bind fun _ s₁ h₁ =>
      .inv h₁.1 id id fun hr => nomatch hr
  | uvmcopy old new sz =>
    refine wp_locked ((uvmcopy_spec (fun _ => trivial) (h.setNoff _) (Nat.succ_pos _) hproper.1
      ⟨hproper.2.live, hproper.2.unused, hproper.2.trapped⟩).mono fun r s₁ h₁ => ?_)
    exact .inv (h₁.1.setNoff _) id id h₁.2
  | uvmshare old new sz =>
    refine wp_locked ((uvmshare_spec (fun _ => trivial) (h.setNoff _) (Nat.succ_pos _) hproper.1
      ⟨hproper.2.live, hproper.2.unused, hproper.2.trapped⟩).mono fun r s₁ h₁ => ?_)
    exact .inv (h₁.1.setNoff _) id id h₁.2
  | cowalloc t vpn =>
    refine (cowalloc_spec hE h).bind fun r s₁ h₁ => .inv (h₁.inv h) id id fun hr => ?_
    exact h₁.steady h (Option.isSome_eq_false_iff.1 hr |> Option.isNone_iff_eq_none.1)
  | uvmunmap t va npages =>
    exact (uvmunmap_spec hE h _ _ _ hspare hbuf).bind fun _ s₁ h₁ =>
      .inv h₁.1 id id fun hr => nomatch hr
  | uvmfree t sz => exact uvmfree_step h hproper.1 hproper.2 hbuf
  | swapout =>
    exact (swapout_spec (fun _ _ _ => trivial) (fun _ _ => trivial) s h.next).mono
      fun _ s₁ h₁ => .inv h₁.1 id id fun _ => h₁.2.steady
  | swapoutProc p maxPages =>
    exact (swapoutProc_spec (fun _ _ _ => trivial) (fun _ _ => trivial) p maxPages s h.next).bind
      fun _ s₁ h₁ => .inv h₁.1 id id fun hr => nomatch hr
  | swapin t vpn =>
    refine (swapin_spec hE h).bind fun r s₁ h₁ => ?_
    rcases h₁ with ⟨rfl, rfl, -⟩ | ⟨rfl, hn, -⟩ | ⟨rfl, -, f, s₂, hb⟩
    · exact .inv h id id fun hr => nomatch hr
    · exact .inv hn.1 id id fun _ => hn.2.steady
    · exact .inv hb.inv id id fun hr => nomatch hr
  | copyin t va =>
    refine (preparePage_spec hE h hproper fun _ _ _ => trivial).bind fun r s₁ h₁ => ?_
    obtain ⟨hacc, hr⟩ := h₁.outcome h
    exact hacc.stepped id Iff.rfl hr
  | copyout t va =>
    refine (outPage_spec hE h hproper fun _ _ _ => trivial).bind fun r s₁ h₁ => ?_
    obtain ⟨hacc, hr⟩ := h₁.outcome h
    exact hacc.stepped id Iff.rfl hr
  | argaddr va =>
    refine (argaddr_spec hE h hproper fun _ _ => trivial).mono fun r s₁ h₁ => ?_
    rcases h₁ with ⟨h0, rfl, rfl⟩ | ⟨h0, r', hp, rfl⟩
    · exact .inv h id (fun hl => hl.1 h0) fun hr => nomatch hr
    · obtain ⟨hacc, hr⟩ := hp.outcome h
      exact hacc.stepped id (and_iff_right h0) hr
  | pageFault va cause =>
    refine (pageFault_spec hE h hproper fun _ _ _ _ => trivial).bind fun _ s₁ h₁ => ?_
    obtain ⟨ok, s₂, hr, rfl⟩ := h₁
    obtain ⟨Z, hinv, hZ⟩ := hr.outcome h
    refine (wp_pure _).2 (Accounted.stepped ⟨Z, ?_, hZ⟩ id Iff.rfl fun hf => nomatch hf)
    cases ok with
    | true => exact hinv
    | false => exact hinv.kill
  | store t vpn d =>
    refine (wp_bind _ _).2 (wp_get.2 ?_)
    rw [wp_ite]
    split
    · next hw =>
      exact (wp_bind _ _).2 (wp_setData.2 ((wp_pure _).2
        (.inv (h.store hw.1 hw.2.1 d) id id fun hr => nomatch hr)))
    · exact .inv h id id fun _ => .refl s
  | create trapframe =>
    exact (procPagetable_spec hE h trapframe).bind fun _ s₁ h₁ =>
      .inv h₁.1 id id fun hr => nomatch hr
  | setProc p pr =>
    exact (wp_bind _ _).2 ((wp_modify _).2 (.inv (h.setProc hproper) id id fun hr => nomatch hr))
  | switch p =>
    refine (wp_bind _ _).2 ((wp_modify _).2 (.inv ?_ id id fun hr => nomatch hr))
    exact h.other s.env s.noff p s.proc (fun _ => rfl)

def Env.quiet : Env := ⟨[], [], [], [], [], [], []⟩

def Proc.unused : Proc := ⟨0, 0, 0, 0, false, []⟩

def PgState.boot (n : Nat) : PgState where
  nframes := n
  data := fun _ _ => 1
  cnt := fun _ => 0
  free := fun i => if i = 0 then List.range' 1 n else []
  table := fun _ => .empty
  live := fun _ => false
  swapready := true
  swapmap := fun _ => false
  hint := 0
  disk := fun _ _ => 0
  pbuf := fun _ => none
  phand := 0
  proc := fun _ => .unused
  cur := 0
  midsched := false
  noff := 0
  strict := true
  env := .quiet
  kernel := []
  saved := fun _ _ _ => 0
  fetched := []

theorem refs_boot (n : Nat) : (PgState.boot n).refs 0 = 0 := by
  unfold PgState.refs
  rw [values_eq_zero]
  · rfl
  · intro k _
    cases k <;> rfl

theorem slots_boot (n : Nat) : (PgState.boot n).slots 0 = 0 := by
  unfold PgState.slots
  rw [values_eq_zero, zero_add]
  exact fun _ _ => rfl

theorem Inv.boot (c : Bool) (n : Nat) : Inv c (.boot n) 0 0 where
  shaped := {
    empty := fun _ _ => rfl
    frame := fun _ ht => nomatch ht
    used := fun _ _ hu => nomatch hu
    single := fun _ _ hv => nomatch hv
    mapped := fun _ _ hv => nomatch hv
    node := fun _ _ hn => (hn rfl).elim
    low := fun _ _ hj => (hj rfl).elim
    high := fun _ _ _ => ⟨rfl, rfl, rfl⟩
    user := fun _ _ hs => nomatch hs
    roots := fun _ hr => (hr rfl).elim }
  frames := by
    rw [refs_boot]
    refine ⟨fun _ _ => rfl, fun f hf => (Multiset.notMem_zero f hf).elim, fun f => ?_⟩
    have hpool : (PgState.boot n).pool = (List.range' 1 n : Multiset Nat) := by
      unfold PgState.pool
      rw [Finset.sum_eq_single 0]
      · rfl
      · intro i _ hi
        show ((if i = 0 then List.range' 1 n else [] : List Nat) : Multiset Nat) = 0
        rw [if_neg hi]
        rfl
      · exact fun h0 => (h0 (by decide)).elim
    rw [hpool, Multiset.coe_count, List.Nodup.count (List.nodup_range')]
    refine if_congr ?_ rfl rfl
    rw [List.mem_range'_1, Multiset.count_zero, and_iff_left rfl]
    show 1 ≤ f ∧ f < 1 + n ↔ 0 < f ∧ f ≤ n
    omega
  slots k _ := by
    rw [slots_boot]
    rfl
  slotRange x hx := by
    rw [slots_boot] at hx
    exact (Multiset.notMem_zero x hx).elim
  phand := Nat.zero_lt_succ _
  exclusive _ _ _ hb := nomatch hb
  content _ := {
    marked := fun _ _ _ hb => nomatch hb
    copies := fun _ _ _ hb => nomatch hb
    distinct := fun _ _ _ _ _ _ hb => nomatch hb
    kept := fun _ _ hs => nomatch hs
    right := fun _ hx => nomatch hx }

end OopsOS.Pg
