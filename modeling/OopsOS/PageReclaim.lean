import OopsOS.PageAccounts

namespace OopsOS.Pg
set_option autoImplicit true
open Function
attribute [local grind =] update_apply

variable {s s' s'' : PgState} {X L : Multiset Nat} {t vpn f : Nat} {e : Pte} {c : Bool}
  {E : Panic → Prop} {g : Bool} {Q : Unit → PgState → Prop} {rest : Env → Env}

theorem wp_answer {α : Type} {view : Env → List α} {d : α}
    {Q : α → PgState → Prop} (h : ∀ a env, Q a (s.setEnv env)) :
    wp E (answer view rest d) s Q := h _ _

theorem wp_setPte : wp E (setPte t vpn e) s Q ↔ Q () (s.setPte t vpn e) := Iff.rfl

theorem wp_setData : wp E (setData f d) s Q ↔ Q () (s.setData f d) := Iff.rfl

theorem wp_nextCpu {Q : Nat → PgState → Prop} (h : ∀ i env, i < NCPU → Q i (s.setEnv env)) :
    wp E nextCpu s Q := h _ _ (Nat.mod_lt _ (by decide))

def AllocOnly (s s' : PgState) : Prop :=
  s' = { s with cnt := s'.cnt, data := s'.data, free := s'.free, env := s'.env }

theorem AllocOnly.pte (h : AllocOnly s s') : s'.pte t vpn = s.pte t vpn := by
  unfold AllocOnly at h
  rw [h]
  rfl

structure Frees (f : Nat) (s s' : PgState) : Prop where
  only : AllocOnly s s'
  data : ∀ g, g ≠ f → s'.data g = s.data g
  cnt : ∀ g, g ≠ f → s'.cnt g = s.cnt g
  self : s'.cnt f = s.cnt f - 1
  shared : s.cnt f ≠ 1 → s'.data f = s.data f

theorem Frees.release (h1 : s.cnt f = 1) : Frees f s (s.release i f) where
  only := rfl
  data _ hg := update_of_ne hg _ _
  cnt _ hg := update_of_ne hg _ _
  self := (update_self f 0 s.cnt).trans (by rw [h1]; rfl)
  shared hn := (hn h1).elim

structure Takes (f : Nat) (s s' : PgState) : Prop where
  only : AllocOnly s s'
  data : ∀ g, g ≠ f → s'.data g = s.data g
  cnt : ∀ g, g ≠ f → s'.cnt g = s.cnt g
  self : s'.cnt f = 1

theorem refs_cons (f : Nat) (X : Multiset Nat) : s.refs (f ::ₘ X) = f ::ₘ s.refs X := by
  unfold PgState.refs
  rw [Multiset.add_cons]

theorem mem_refs_hand (hf : f ∈ X) : f ∈ s.refs X := Multiset.mem_add.2 (.inr hf)

/-- Counts, data and free lists may change but for the frames in the page buffer. -/
theorem Inv.realloc (h : Inv c s X L)
    (hC : Counted s.nframes cnt (PgState.pool { s with cnt := cnt, data := data, free := free })
      (s.refs X'))
    (hbuf : ∀ j b, j < SWAP_PBUF_SIZE → s.pbuf j = some b →
      cnt b.frame = s.cnt b.frame ∧ data b.frame = s.data b.frame) :
    Inv c { s with cnt := cnt, data := data, free := free } X' L where
  __ := h
  shaped := { h.shaped with }
  frames := hC
  exclusive j b hj hb :=
    ⟨(h.exclusive j b hj hb).1, (hbuf j b hj hb).1.trans (h.exclusive j b hj hb).2⟩
  content hc := {
    __ := h.content hc
    copies := fun j b hj hb => (hbuf j b hj hb).2.trans ((h.content hc).copies j b hj hb) }

theorem Inv.release (h : Inv c s (f ::ₘ X) L) (h1 : s.cnt f = 1) (hi : i < NCPU) :
    Inv c (s.release i f) X L := by
  have hframes := h.frames
  rw [refs_cons] at hframes
  refine h.realloc ?_ fun j b hj hb => ?_
  · show Counted s.nframes _ (s.release i f).pool _
    rw [pool_release hi]
    exact hframes.drop_last h1
  · have hne := h.buf_ne_hand (Multiset.mem_cons_self f X) hj hb
    exact ⟨update_of_ne hne _ _, update_of_ne hne _ _⟩

theorem Inv.setCnt (h : Inv c s X L) (hC : Counted s.nframes (update s.cnt f n) s.pool (s.refs X'))
    (hbuf : ∀ j b, j < SWAP_PBUF_SIZE → s.pbuf j = some b → b.frame ≠ f) :
    Inv c (s.setCnt f n) X' L :=
  h.realloc hC fun j b hj hb => ⟨update_of_ne (hbuf j b hj hb) _ _, rfl⟩

theorem frame_in_range (hf : IsFrame n f) : ¬ (f = 0 ∨ n < f) := by
  have h1 := hf.1
  have h2 := hf.2
  omega

theorem wp_kfree_last (hf : IsFrame s.nframes f) (h1 : s.cnt f = 1)
    (h : ∀ i env, i < NCPU → Q () ((s.setEnv env).release i f)) :
    wp E (kfree f) s Q := by
  show wp E (if f = 0 ∨ s.nframes < f then _ else _) s _
  rw [if_neg (frame_in_range hf), if_pos (by omega), wp_bind]
  apply wp_nextCpu
  intro i env hi
  exact h i env hi

theorem kfree_spec (h : Inv c s (f ::ₘ X) L) :
    wp E (kfree f) s (fun _ s' => Inv c s' X L ∧ Frees f s s') := by
  have hf : f ∈ f ::ₘ X := Multiset.mem_cons_self f X
  have hframe := h.frames.range f (mem_refs_hand hf)
  by_cases h1 : s.cnt f = 1
  · refine wp_kfree_last hframe h1 fun i env hi => ?_
    have hfr : Frees f (s.setEnv env) _ := .release (i := i) h1
    exact ⟨(h.env env).release h1 hi, rfl, hfr.data, hfr.cnt, hfr.self, hfr.shared⟩
  · have hframes := h.frames
    rw [refs_cons] at hframes
    show wp E (if f = 0 ∨ s.nframes < f then _ else _) s _
    rw [if_neg (frame_in_range hframe), if_neg (by omega)]
    refine (wp_set _).2
      ⟨h.setCnt (hframes.drop (by omega)) fun j b hj hb => h.buf_ne_hand hf hj hb, rfl,
      fun _ _ => rfl, fun g hg => ?_, ?_, fun _ => rfl⟩
    · exact update_of_ne hg _ _
    · exact update_self f _ s.cnt

theorem Inv.take (h : Inv c s X L) (hi : i < NCPU) (hl : s.free i = f :: l) :
    Inv c (s.take i) (f ::ₘ X) L ∧ f ∉ s.refs X := by
  have hpool := pool_take (s := s) hi hl
  have hf : f ∉ s.refs X :=
    (h.frames.of_mem_pool (by rw [hpool]; exact Multiset.mem_cons_self f _)).2
  have hhead : (s.free i).headD 0 = f := by
    rw [hl]
    rfl
  have hframes := h.frames
  rw [hpool] at hframes
  refine ⟨h.realloc ?_ fun j b hj hb => ?_, hf⟩
  · rw [hhead, refs_cons]
    exact hframes.take
  · have hne : b.frame ≠ (s.free i).headD 0 := by
      intro he
      rw [hhead] at he
      have hheld := held_buf hb
      have h0 := (h.exclusive j b hj hb).1
      exact hf (he ▸ Multiset.mem_add.2 (.inl (Multiset.mem_add.2 (.inl
        (mem_values.2 ⟨h0, _, buf_mem.2 hj, hheld⟩)))))
    exact ⟨update_of_ne hne _ _, update_of_ne hne _ _⟩

theorem mem_cpuOrder (hi : i ∈ cpuOrder j) (hj : j < NCPU) : i < NCPU := by
  unfold cpuOrder at hi
  rcases List.mem_cons.1 hi with rfl | hi
  · exact hj
  · exact List.mem_range.1 (List.mem_filter.1 hi).1

def Tried (c : Bool) (X L : Multiset Nat) (s : PgState) : Option Nat → PgState → Prop
  | none, s' => s' = { s with env := s'.env }
  | some f, s' => Inv c s' (f ::ₘ X) L ∧ Takes f s s' ∧ f ∉ s.refs X

theorem kallocTry_spec (h : Inv c s X L) : wp E kallocTry s (Tried c X L s) := by
  show wp E (nextCpu >>= _) s _
  rw [wp_bind]
  apply wp_nextCpu
  intro j env hj
  rw [wp_bind, wp_get]
  split
  · rfl
  · next i hfind =>
    change (cpuOrder j).find? (fun i => (s.free i).isEmpty = false) = some i at hfind
    have hi := mem_cpuOrder (List.mem_of_find?_eq_some hfind) hj
    have hne := List.find?_some hfind
    obtain ⟨f, l, hl⟩ : ∃ f l, s.free i = f :: l := by
      cases hl : s.free i with
      | nil =>
        rw [hl] at hne
        cases hne
      | cons f l => exact ⟨f, l, rfl⟩
    have hhead : (s.free i).headD 0 = f := by
      rw [hl]
      rfl
    obtain ⟨hinv, hf⟩ := (h.env env).take hi hl
    show Tried c X L s (some ((s.free i).headD 0)) _
    rw [hhead]
    refine ⟨hinv, ⟨rfl, fun g hg => ?_, fun g hg => ?_, ?_⟩, hf⟩
    · exact update_of_ne (fun he => hg (he.trans hhead)) _ _
    · exact update_of_ne (fun he => hg (he.trans hhead)) _ _
    · show update s.cnt ((s.free i).headD 0) 1 f = 1
      rw [hhead, update_self]

def Pte.core (e : Pte) : Pte := { e with accessed := false }

section core
variable {e e' : Pte}

theorem Pte.core_valid (h : e'.core = e.core) : e'.valid = e.valid :=
  (Pte.mk.inj h).1

theorem Pte.core_num (h : e'.core = e.core) : e'.num = e.num :=
  (Pte.mk.inj h).2.2.2.2.2.2.2.2

theorem Pte.core_user (h : e'.core = e.core) : e'.user = e.user :=
  (Pte.mk.inj h).2.2.2.2.1

theorem Pte.core_swapped (h : e'.core = e.core) : e'.swapped = e.swapped :=
  (Pte.mk.inj h).2.2.2.2.2.2.2.1

end core

def Proc.core (p : Proc) : Proc := { p with hand := 0 }

def PgState.SharedAt (s : PgState) (t vpn : Nat) : Prop :=
  ∃ p, s.root p = t ∧ (vmaLookup (s.proc p) (vpn * PGSIZE)).any (·.shared) = true

structure Evictable (s : PgState) (t vpn : Nat) : Prop where
  valid : (s.pte t vpn).valid = true
  user : (s.pte t vpn).user = true
  low : vpn < TRAPFRAME
  sole : s.cnt (s.pte t vpn).num = 1

inductive Fate (s s' : PgState) (t vpn : Nat) : Prop
  | kept (entry : (s'.pte t vpn).core = (s.pte t vpn).core)
      (page : (s.pte t vpn).valid = true → vpn < TRAPFRAME →
        s'.cnt (s.pte t vpn).num = s.cnt (s.pte t vpn).num ∧
          s'.data (s.pte t vpn).num = s.data (s.pte t vpn).num)
      (copy : (s.pte t vpn).swapped = true → s'.disk (s.pte t vpn).num = s.disk (s.pte t vpn).num)
  | dropped (old : Evictable s t vpn) (shared : s.SharedAt t vpn)
      (entry : (s'.pte t vpn).core = .zero)
  | swapped (k : Nat) (old : Evictable s t vpn)
      (entry : (s'.pte t vpn).core = (s.pte t vpn).core.toSlot k)
      (copy : s'.disk k = s.data (s.pte t vpn).num)

/-- What reclaiming does to the pages, with the frames `X` in hand; `g`: with new page-table pages.
-/
structure Touches (g : Bool) (X : Multiset Nat) (s s' : PgState) : Prop where
  nframes : s'.nframes = s.nframes
  live : s'.live = s.live
  kernel : s'.kernel = s.kernel
  noff : s'.noff = s.noff
  cur : s'.cur = s.cur
  swapready : s'.swapready = s.swapready
  midsched : s'.midsched = s.midsched
  proc : ∀ p, (s'.proc p).core = (s.proc p).core
  node : ∀ t m, g = false ∨ (s.table t).node m ≠ 0 → (s'.table t).node m = (s.table t).node m
  entry : ∀ t vpn, Fate s s' t vpn
  hand : ∀ f ∈ X, s'.data f = s.data f ∧ s'.cnt f = s.cnt f
  still : 0 < s.noff → (∀ t vpn, s'.pte t vpn = s.pte t vpn) ∧
    ∀ i b, s'.pbuf i = some b → s.pbuf i = some b

/-- What reclaiming memory does. Slots in use stay so, and none comes into the page buffer. -/
structure Evicts (g : Bool) (X : Multiset Nat) (s s' : PgState) :
    Prop extends Touches g X s s' where
  fresh : ∀ k, s.swapmap k = true → s'.swapmap k = true ∧ (s.Unbuffered k → s'.Unbuffered k)

theorem Fate.same (hpte : s'.pte t vpn = s.pte t vpn) (hcnt : s'.cnt = s.cnt)
    (hdata : s'.data = s.data) (hdisk : s'.disk = s.disk) : Fate s s' t vpn :=
  .kept (by rw [hpte]) (fun _ _ => ⟨by rw [hcnt], by rw [hdata]⟩) (fun _ => by rw [hdisk])

theorem Evictable.back (h : Evictable s' t vpn) (he : (s'.pte t vpn).core = (s.pte t vpn).core)
    (hp : (s.pte t vpn).valid = true → vpn < TRAPFRAME →
      s'.cnt (s.pte t vpn).num = s.cnt (s.pte t vpn).num ∧
        s'.data (s.pte t vpn).num = s.data (s.pte t vpn).num) : Evictable s t vpn := by
  have hv := (Pte.core_valid he).symm.trans h.valid
  refine ⟨hv, (Pte.core_user he).symm.trans h.user, h.low, ?_⟩
  rw [← (hp hv h.low).1, ← Pte.core_num he]
  exact h.sole

theorem Fate.of_invalid (h : Fate s s' t vpn) (hv : (s.pte t vpn).valid = false) :
    (s'.pte t vpn).core = (s.pte t vpn).core ∧
      ((s.pte t vpn).swapped = true → s'.disk (s.pte t vpn).num = s.disk (s.pte t vpn).num) := by
  cases h with
  | kept he _ hc => exact ⟨he, hc⟩
  | dropped hold => exact (Bool.false_ne_true (hv.symm.trans hold.valid)).elim
  | swapped k hold => exact (Bool.false_ne_true (hv.symm.trans hold.valid)).elim

theorem Touches.hidden (htable : s'.table = s.table) (hcnt : s'.cnt = s.cnt)
    (hdata : s'.data = s.data) (hdisk : s'.disk = s.disk) (hproc : s'.proc = s.proc)
    (hrest : (s'.nframes, s'.live, s'.kernel, s'.noff, s'.cur, s'.swapready, s'.midsched) =
      (s.nframes, s.live, s.kernel, s.noff, s.cur, s.swapready, s.midsched))
    (hpbuf : 0 < s.noff → ∀ i b, s'.pbuf i = some b → s.pbuf i = some b) : Touches g X s s' := by
  have hpte : ∀ t vpn, s'.pte t vpn = s.pte t vpn := by
    intro t vpn
    rw [PgState.pte, htable]
    rfl
  simp only [Prod.mk.injEq] at hrest
  obtain ⟨h1, h2, h3, h4, h5, h6, h7⟩ := hrest
  exact ⟨h1, h2, h3, h4, h5, h6, h7, fun p => by rw [hproc], fun t m _ => by rw [htable],
    fun t vpn => .same (hpte t vpn) hcnt hdata hdisk, fun f _ => ⟨by rw [hdata], by rw [hcnt]⟩,
    fun hn => ⟨hpte, hpbuf hn⟩⟩

theorem Touches.env (X : Multiset Nat) (s : PgState) (env : Env) : Touches g X s (s.setEnv env) :=
  .hidden rfl rfl rfl rfl rfl rfl fun _ _ _ hb => hb

section
variable (h : Touches g X s s')
include h

theorem Touches.root (p : ProcSlot) : s'.root p = s.root p :=
  (Proc.mk.inj (h.proc p)).1

theorem Touches.vma (p : ProcSlot) : (s'.proc p).vma = (s.proc p).vma :=
  (Proc.mk.inj (h.proc p)).2.2.2.2.2

theorem Touches.sharedAt (hs : s'.SharedAt t vpn) : s.SharedAt t vpn := by
  obtain ⟨p, hp, hv⟩ := hs
  refine ⟨p, (h.root p).symm.trans hp, ?_⟩
  unfold vmaLookup at hv ⊢
  rw [← h.vma p]
  exact hv

theorem Fate.trans (h' : Fate s' s'' t vpn) : Fate s s'' t vpn := by
  cases h.entry t vpn with
  | kept he hp hc =>
    have hnum := Pte.core_num he
    cases h' with
    | kept he' hp' hc' =>
      refine .kept (he'.trans he) (fun hv hlt => ?_) (fun hs => ?_)
      · have h1 := hp' ((Pte.core_valid he).trans hv) hlt
        have h2 := hp hv hlt
        rw [hnum] at h1
        exact ⟨h1.1.trans h2.1, h1.2.trans h2.2⟩
      · have h1 := hc' ((Pte.core_swapped he).trans hs)
        rw [hnum] at h1
        exact h1.trans (hc hs)
    | dropped hold hsh he' => exact .dropped (hold.back he hp) (h.sharedAt hsh) he'
    | swapped k hold he' hc' =>
      have hold' := hold.back he hp
      refine .swapped k hold' (he'.trans (by rw [he])) (hc'.trans ?_)
      rw [hnum]
      exact (hp hold'.valid hold'.low).2
  | dropped hold hsh he =>
    have hv : (s'.pte t vpn).valid = false := Pte.core_valid (e := .zero) he
    exact .dropped hold hsh ((h'.of_invalid hv).1.trans he)
  | swapped k hold he hc =>
    have hv : (s'.pte t vpn).valid = false :=
      Pte.core_valid (e := (s.pte t vpn).core.toSlot k) he
    have hs : (s'.pte t vpn).swapped = true :=
      Pte.core_swapped (e := (s.pte t vpn).core.toSlot k) he
    have hn : (s'.pte t vpn).num = k := Pte.core_num (e := (s.pte t vpn).core.toSlot k) he
    obtain ⟨he', hc'⟩ := h'.of_invalid hv
    have hcopy := hc' hs
    rw [hn] at hcopy
    exact .swapped k hold (he'.trans he) (hcopy.trans hc)

theorem Touches.trans (h' : Touches g X s' s'') : Touches g X s s'' where
  nframes := h'.nframes.trans h.nframes
  live := h'.live.trans h.live
  kernel := h'.kernel.trans h.kernel
  noff := h'.noff.trans h.noff
  cur := h'.cur.trans h.cur
  swapready := h'.swapready.trans h.swapready
  midsched := h'.midsched.trans h.midsched
  proc p := (h'.proc p).trans (h.proc p)
  node t m hm := by
    have h1 := h.node t m hm
    exact (h'.node t m (hm.imp_right fun hn => h1 ▸ hn)).trans h1
  entry t vpn := (h'.entry t vpn).trans h
  hand f hf := ⟨(h'.hand f hf).1.trans (h.hand f hf).1, (h'.hand f hf).2.trans (h.hand f hf).2⟩
  still hn := by
    have h1 := h.still hn
    have h2 := h'.still (h.noff ▸ hn)
    exact ⟨fun t vpn => (h2.1 t vpn).trans (h1.1 t vpn), fun i b hb => h1.2 i b (h2.2 i b hb)⟩

theorem Touches.evicts (hmap : s'.swapmap = s.swapmap) (hpbuf : s'.pbuf = s.pbuf) :
    Evicts g X s s' where
  toTouches := h
  fresh k hk := by
    refine ⟨by rw [hmap]; exact hk, fun hu i b hi hb => ?_⟩
    rw [hpbuf] at hb
    exact hu i b hi hb

end

theorem Evicts.trans (h : Evicts g X s s') (h' : Evicts g X s' s'') : Evicts g X s s'' where
  toTouches := h.toTouches.trans h'.toTouches
  fresh k hk := by
    have h1 := h.fresh k hk
    have h2 := h'.fresh k h1.1
    exact ⟨h2.1, fun hu => h2.2 (h1.2 hu)⟩

theorem Evicts.env (X : Multiset Nat) (s : PgState) (env : Env) : Evicts g X s (s.setEnv env) :=
  (Touches.env X s env).evicts rfl rfl

theorem Evicts.refl (X : Multiset Nat) (s : PgState) : Evicts g X s s := .env X s s.env

theorem Touches.weaken (h : Touches g X' s s') (hX : ∀ f ∈ X, f ∈ X') : Touches g X s s' :=
  { h with hand := fun f hf => h.hand f (hX f hf) }

theorem Evicts.weaken (h : Evicts g X' s s') (hX : ∀ f ∈ X, f ∈ X') : Evicts g X s s' :=
  ⟨h.toTouches.weaken hX, h.fresh⟩

theorem Touches.grow (h : Touches false X s s') : Touches true X s s' :=
  { h with node := fun t m _ => h.node t m (.inl rfl) }

theorem Evicts.grow (h : Evicts false X s s') : Evicts true X s s' := ⟨h.toTouches.grow, h.fresh⟩

theorem Touches.setPte (hn : s.noff = 0) (h : Fate s (s.setPte t vpn e) t vpn) :
    Touches g X s (s.setPte t vpn e) where
  nframes := rfl
  live := rfl
  kernel := rfl
  noff := rfl
  cur := rfl
  swapready := rfl
  midsched := rfl
  proc _ := rfl
  node t' m _ := by rw [setPte_node]
  entry t' vpn' := by
    by_cases he : t' = t ∧ vpn' = vpn
    · obtain ⟨rfl, rfl⟩ := he
      exact h
    · exact .same (setPte_of_ne he) rfl rfl rfl
  hand _ _ := ⟨rfl, rfl⟩
  still hpos := (Nat.ne_of_gt hpos hn).elim

theorem Touches.setDisk (h : ∀ t vpn, (s.pte t vpn).swapped = true → (s.pte t vpn).num ≠ k)
    (d : Page) : Touches g X s (s.setDisk k d) :=
  ⟨rfl, rfl, rfl, rfl, rfl, rfl, rfl, fun _ => rfl, fun _ _ _ => rfl,
    fun t vpn => .kept rfl (fun _ _ => ⟨rfl, rfl⟩) (fun hs => update_of_ne (h t vpn hs) _ _),
    fun _ _ => ⟨rfl, rfl⟩, fun _ => ⟨fun _ _ => rfl, fun _ _ hb => hb⟩⟩

theorem AllocOnly.touches (hs : AllocOnly s s')
    (hleaf : ∀ t vpn, (s.pte t vpn).valid = true → vpn < TRAPFRAME →
      s'.cnt (s.pte t vpn).num = s.cnt (s.pte t vpn).num ∧
        s'.data (s.pte t vpn).num = s.data (s.pte t vpn).num)
    (hhand : ∀ f ∈ X, s'.data f = s.data f ∧ s'.cnt f = s.cnt f) : Touches g X s s' := by
  have hpte : ∀ t vpn, s'.pte t vpn = s.pte t vpn := fun t vpn => by
    rw [hs]
    rfl
  refine ⟨?_, ?_, ?_, ?_, ?_, ?_, ?_, fun p => ?_, fun t m _ => ?_, fun t vpn => ?_, hhand,
    fun _ => ⟨hpte, fun i b hb => by rw [hs] at hb; exact hb⟩⟩
  any_goals rw [hs]
  refine .kept ?_ (hleaf t vpn) (fun _ => ?_)
  · rw [hs]
    rfl
  · rw [hs]

def PgState.Reached (s : PgState) (t vpn : Nat) : Prop :=
  (s.table t).node (.mid (vpn / 2 ^ 18)) ≠ 0 ∧ (s.table t).node (.low (vpn / 2 ^ 9)) ≠ 0

theorem wp_lookup {Q : Option Pte → PgState → Prop} (hE : NVPN ≤ vpn → E .walk)
    (hnone : vpn < NVPN → ¬ s.Reached t vpn → Q none s)
    (hsome : vpn < NVPN → s.Reached t vpn → Q (some (s.pte t vpn)) s) :
    wp E (lookup t vpn) s Q := by
  show wp E (if NVPN ≤ vpn then _ else _) s Q
  split
  · next h => exact hE h
  · next h =>
    have hlt : vpn < NVPN := Nat.lt_of_not_le h
    split
    · next hn => exact hnone hlt fun hr => hn.elim hr.1 hr.2
    · next hn => exact hsome hlt ⟨fun h0 => hn (.inl h0), fun h0 => hn (.inr h0)⟩

theorem wp_sleep (hE : s.strict = true → 0 < s.noff → E .schedLocks) (h : Q () s) :
    wp E sleep s Q := by
  show wp E (if s.strict = true ∧ 0 < s.noff then _ else _) s Q
  split
  · next hn => exact hE hn.1 hn.2
  · exact h

theorem wp_maySleep {view : Env → List Bool} {d : Bool}
    (hE : E .schedLocks) (h : ∀ env, Q () (s.setEnv env)) :
    wp E (do if ← answer view rest d then sleep else pure ()) s Q := by
  rw [wp_bind]
  apply wp_answer
  intro a env
  rw [wp_ite]
  split
  · exact wp_sleep (fun _ _ => hE) (h env)
  · exact h env

theorem wp_bread (hE : E .schedLocks) (h : ∀ env, Q () (s.setEnv env)) : wp E bread s Q :=
  wp_maySleep hE h

theorem wp_swapThrottle (hE : E .schedLocks)
    (h : ∀ env, Q () (s.setEnv env)) : wp E swapThrottle s Q := wp_maySleep hE h

def Next (c : Bool) (X L : Multiset Nat) (s s' : PgState) : Prop :=
  Inv c s' X L ∧ Evicts false X s s'

theorem Next.trans (h : Next c X L s s') (h' : Next c X L s' s'') : Next c X L s s'' :=
  ⟨h'.1, h.2.trans h'.2⟩

theorem Next.maintains {m : PgM α}
    (hm : ∀ s', Inv c s' X L → Evicts false X s s' → wp E m s' fun _ => Next c X L s') :
    Maintains E (Next c X L s) m :=
  fun _ h => (hm _ h.1 h.2).mono fun _ _ h' => h.trans h'

theorem Touches.proc_sz (h : Touches g X s s') (p : ProcSlot) : (s'.proc p).sz = (s.proc p).sz :=
  (Proc.mk.inj (h.proc p)).2.1

/-- Only a process that is larger than the address space is scanned beyond its end. -/
def Walks (E : Panic → Prop) (s : PgState) : Prop := ∀ p, NVPN < pagesOf (s.proc p).sz → E .walk

theorem Walks.touched (hw : Walks E s) (ht : Touches g X s s') : Walks E s' :=
  fun p hlt => hw p (ht.proc_sz p ▸ hlt)

theorem Pte.frame_of_valid (hv : e.valid = true) (hlt : vpn < TRAPFRAME) : e.frame vpn = e.num :=
  if_pos ⟨hv, hlt⟩

theorem Pte.frame_of_invalid (hv : e.valid = false) : e.frame vpn = 0 :=
  if_neg fun he => Bool.false_ne_true (hv.symm.trans he.1)

theorem Pte.slot_of_valid (hv : e.valid = true) : e.slot = 0 :=
  if_neg fun h => Bool.false_ne_true (h.2.symm.trans hv)

theorem Pte.slot_of_unswapped (hs : e.swapped = false) : e.slot = 0 :=
  if_neg fun he => Bool.false_ne_true (hs.symm.trans he.1)

/-- What the new entry holds goes into the table, and what the old one held comes out. -/
theorem Inv.replace (h : Inv c s (nonzero (e.frame vpn) + X) (nonzero e.slot + L))
    (hlive : s.live t = true)
    (hlt : vpn < TRAPFRAME) (hreach : e.valid = true ∨ e.swapped = true → s.Reached t vpn)
    (hs : e.valid = true → e.swapped = false) (hn : e.valid = true → e.num ≠ 0)
    (hus : e.swapped = true → e.user = true)
    (hC : c = true → e.swapped = true → s.disk e.num = s.saved t vpn) :
    Inv c (s.setPte t vpn e) (nonzero ((s.pte t vpn).frame vpn) + X)
    (nonzero (s.pte t vpn).slot + L) := by
  have hlt' : vpn < NVPN := hlt.trans (by decide)
  refine h.setPte ⟨(h.shaped.frame t hlive).2, hlt'⟩ ?_ (by abel) (by abel) hC
  exact h.shaped.setPte hlive (fun hu => ⟨hlt', hreach hu⟩) hs (fun hv _ => hn hv) hus
    fun hle => (Nat.not_le.2 hlt hle).elim

theorem Inv.storeSlot (h : Inv c s X ((k + 1) ::ₘ L)) (hlive : s.live t = true)
    (hlt : vpn < TRAPFRAME)
    (hreach : s.Reached t vpn) (hu : e.user = true) (hcopy : c = true → s.disk k = s.saved t vpn) :
    Inv c (s.setPte t vpn (e.toSlot k)) (nonzero ((s.pte t vpn).frame vpn) + X)
      (nonzero (s.pte t vpn).slot + L) := by
  have hslot : (e.toSlot k).slot = k + 1 := if_pos ⟨rfl, rfl⟩
  refine Inv.replace ?_ hlive hlt (fun _ => hreach) nofun nofun (fun _ => hu) fun hc _ => hcopy hc
  rw [Pte.frame_of_invalid rfl, hslot, nonzero_zero, zero_add, nonzero_of_ne (Nat.succ_ne_zero k),
    Multiset.singleton_add]
  exact h

theorem Inv.storeFrame (h : Inv c s (f ::ₘ X) L) (hlive : s.live t = true) (hlt : vpn < TRAPFRAME)
    (hreach : s.Reached t vpn) (hp : e.valid = true) (hs : e.swapped = false) (hn : e.num = f) :
    Inv c (s.setPte t vpn e) (nonzero ((s.pte t vpn).frame vpn) + X)
      (nonzero (s.pte t vpn).slot + L) := by
  have hf : f ≠ 0 := Nat.ne_of_gt (h.frames.range f (mem_refs_hand (Multiset.mem_cons_self f X))).1
  have hns : e.swapped ≠ true := fun hs' => Bool.false_ne_true (hs.symm.trans hs')
  refine Inv.replace ?_ hlive hlt (fun _ => hreach) (fun _ => hs) (fun _ => hn ▸ hf) (absurd · hns)
    fun _ => (absurd · hns)
  rw [Pte.frame_of_valid hp hlt, Pte.slot_of_valid hp, hn, nonzero_of_ne hf, nonzero_zero, zero_add,
    Multiset.singleton_add]
  exact h

section
variable (h : Inv c s X L)
include h

theorem Inv.leaf_sole (hf : f ∈ X) (h1 : s.cnt f = 1)
    (hv : (s.pte t vpn).valid = true) (hlt : vpn < TRAPFRAME) : (s.pte t vpn).num ≠ f := by
  intro he
  have hheld : s.held (.leaf t vpn) = f := (if_pos ⟨hv, hlt⟩).trans he
  have hf0 : f ≠ 0 := Nat.ne_of_gt (h.frames.range f (mem_refs_hand hf)).1
  have hs := h.sole (k := .leaf t vpn) (leaf_mem.2 (h.shaped.entry_mem (.inl hv)))
    (by rwa [hheld]) (by rwa [hheld])
  rw [hheld] at hs
  exact hs.2.2 hf

theorem Inv.leaf_mem_refs (hv : (s.pte t vpn).valid = true)
    (hlt : vpn < TRAPFRAME) : (s.pte t vpn).num ∈ s.refs X :=
  Multiset.mem_add.2 (.inl (Multiset.mem_add.2 (.inl (mem_values.2
    ⟨h.shaped.mapped t vpn hv hlt, .leaf t vpn, leaf_mem.2 (h.shaped.entry_mem (.inl hv)),
      if_pos ⟨hv, hlt⟩⟩))))

theorem Takes.touches (hf : f ∉ s.refs X) (ht : Takes f s s') : Touches g X s s' := by
  refine ht.only.touches (fun t vpn hv hlt => ?_) (fun g hg => ?_)
  · have hn : (s.pte t vpn).num ≠ f := fun he => hf (he ▸ h.leaf_mem_refs hv hlt)
    exact ⟨ht.cnt _ hn, ht.data _ hn⟩
  · have hn : g ≠ f := fun he => hf (he ▸ mem_refs_hand hg)
    exact ⟨ht.data g hn, ht.cnt g hn⟩

theorem Takes.evicts (hf : f ∉ s.refs X) (ht : Takes f s s') : Evicts g X s s' :=
  (ht.touches h hf).evicts (by rw [ht.only]) (by rw [ht.only])

theorem Inv.setFlags (hu : (s.pte t vpn).valid = true ∨ (s.pte t vpn).swapped = true)
    (hv : e.valid = (s.pte t vpn).valid) (hs : e.swapped = (s.pte t vpn).swapped)
    (hn : e.num = (s.pte t vpn).num) (hus : e.swapped = true → e.user = true)
    (hh : TRAPFRAME ≤ vpn → e.user = false ∧ e.cow = false) : Inv c (s.setPte t vpn e) X L := by
  have hmem := h.shaped.entry_mem hu
  have hframe : e.frame vpn = (s.pte t vpn).frame vpn := by
    rw [Pte.frame, Pte.frame, hv, hn]
  have hslot : e.slot = (s.pte t vpn).slot := by
    rw [Pte.slot, Pte.slot, hv, hs, hn]
  refine h.setPte hmem ?_ (by rw [hframe]) (by rw [hslot]) ?_
  · apply h.shaped.setPte (h.shaped.live_of_used hu)
    · exact fun _ => h.shaped.used t vpn hu
    · intro hv'
      rw [hs]
      exact h.shaped.single t vpn (hv ▸ hv')
    · intro hv' hlt
      rw [hn]
      exact h.shaped.mapped t vpn (hv ▸ hv') hlt
    · exact hus
    · intro hle
      have hhigh := h.shaped.high t vpn hle
      refine ⟨⟨(hh hle).1, hs.trans hhigh.2.1, (hh hle).2⟩, fun hp hlt => ?_⟩
      obtain ⟨p, rfl⟩ := hp
      rw [hv]
      have h0 : s.root p ≠ 0 := Nat.ne_of_gt (h.shaped.frame _ (h.shaped.live_of_used hu)).1
      exact (h.shaped.roots p h0).2 vpn hle hlt
  · intro hc hs'
    rw [hn]
    exact (h.content hc).kept t vpn (hs ▸ hs')

theorem Inv.next_env (env : Env) : Next c X L s (s.setEnv env) :=
  ⟨h.env env, .env X s env⟩

theorem Inv.next : Next c X L s s := ⟨h, .refl X s⟩

theorem Inv.clear_accessed (hn : s.noff = 0) (hv : (s.pte t vpn).valid = true) :
    Next c X L s (s.setPte t vpn { s.pte t vpn with accessed := false }) := by
  refine ⟨h.setFlags (.inl hv) rfl rfl rfl (h.shaped.user t vpn) fun hle => ?_, ?_⟩
  · exact ⟨(h.shaped.high t vpn hle).1, (h.shaped.high t vpn hle).2.2⟩
  · refine (Touches.setPte hn (.kept ?_ (fun _ _ => ⟨rfl, rfl⟩) (fun _ => rfl))).evicts rfl rfl
    rw [setPte_self]
    rfl

theorem Inv.clear (hu : (s.pte t vpn).valid = true ∨ (s.pte t vpn).swapped = true)
    (hlt : vpn < TRAPFRAME) : Inv c (s.setPte t vpn .zero) (nonzero ((s.pte t vpn).frame vpn) + X)
      (nonzero (s.pte t vpn).slot + L) := by
  refine Inv.replace (e := .zero) ?_ (h.shaped.live_of_used hu) hlt
    (fun hz => ?_) nofun nofun nofun nofun
  · rw [Pte.frame_of_invalid rfl, Pte.slot_of_unswapped rfl, nonzero_zero, zero_add, zero_add]
    exact h
  · rcases hz with hz | hz <;> cases hz

theorem Inv.clear_valid (hv : (s.pte t vpn).valid = true) (hlt : vpn < TRAPFRAME) :
    Inv c (s.setPte t vpn .zero) ((s.pte t vpn).num ::ₘ X) L := by
  have hclear := h.clear (.inl hv) hlt
  rw [Pte.frame_of_valid hv hlt, nonzero_of_ne (h.shaped.mapped t vpn hv hlt), Pte.slot_of_valid hv,
    nonzero_zero, zero_add, Multiset.singleton_add] at hclear
  exact hclear

end

theorem Frees.touches (h : Inv c s (f ::ₘ X) L) (h1 : s.cnt f = 1) (hfr : Frees f s s') :
    Touches g X s s' := by
  have hne : f ∉ X := by
    intro hm
    have hf := h.frames.range f (mem_refs_hand (Multiset.mem_cons_self f X))
    have hcount := h.count_refs hf
    rw [h1, Multiset.count_cons_self] at hcount
    have := Multiset.count_pos.2 hm
    omega
  refine hfr.only.touches (fun t vpn hv hlt => ?_) (fun g hg => ?_)
  · have hn := h.leaf_sole (Multiset.mem_cons_self f X) h1 hv hlt
    exact ⟨hfr.cnt _ hn, hfr.data _ hn⟩
  · have hn : g ≠ f := fun he => hne (he ▸ hg)
    exact ⟨hfr.data g hn, hfr.cnt g hn⟩

theorem Frees.evicts (h : Inv c s (f ::ₘ X) L) (h1 : s.cnt f = 1) (hfr : Frees f s s') :
    Evicts g X s s' :=
  (hfr.touches h h1).evicts (by rw [hfr.only]) (by rw [hfr.only])

theorem maintains_answer {α : Type} {view : Env → List α} {d : α} :
    Maintains E (Next c X L s) (answer view rest d) :=
  fun _ h => wp_answer fun _ _ => h.trans (h.1.next_env _)

theorem mem_slotOrder (hk : k ∈ slotOrder n) : k < SWAP_PAGES := by
  unfold slotOrder at hk
  rw [List.mem_map] at hk
  obtain ⟨i, -, rfl⟩ := hk
  exact Nat.mod_lt _ (by decide)

theorem wp_swapAlloc {Q : Option Nat → PgState → Prop} (hnone : Q none s)
    (hsome : ∀ k, k < SWAP_PAGES → s.swapmap k = false → Q (some k) (s.mark k)) :
    wp E swapAlloc s Q := by
  unfold swapAlloc
  rw [wp_bind, wp_get]
  split
  · exact hnone
  · next k hfind =>
    have hp := List.find?_some hfind
    exact hsome k (mem_slotOrder (List.mem_of_find?_eq_some hfind)) (of_decide_eq_true hp)

theorem setBuf_putBuf : (s.setBuf s.phand none).putBuf b = s.putBuf b := by
  unfold PgState.setBuf PgState.putBuf
  rw [update_idem]

theorem Inv.toSlot (h : Inv c s X ((k + 1) ::ₘ L)) (hv : (s.pte t vpn).valid = true)
    (hu : (s.pte t vpn).user = true) (hlt : vpn < TRAPFRAME)
    (hcopy : c = true → s.disk k = s.saved t vpn) :
    Inv c (s.setPte t vpn ((s.pte t vpn).toSlot k)) ((s.pte t vpn).num ::ₘ X) L := by
  have h' := h.storeSlot (h.shaped.live_of_used (.inl hv)) hlt
    (h.shaped.used t vpn (.inl hv)).2 hu hcopy
  rwa [Pte.frame_of_valid hv hlt, Pte.slot_of_valid hv, nonzero_of_ne
    (h.shaped.mapped t vpn hv hlt), nonzero_zero, zero_add, Multiset.singleton_add] at h'

theorem setSaved_self : (s.setSaved t vpn d).saved t vpn = d := by
  show update s.saved t (update (s.saved t) vpn d) t vpn = d
  rw [update_self, update_self]

theorem swapPbufPut_spec (h : Inv c s (f ::ₘ X) L) (hn : s.noff = 0) (h1 : s.cnt f = 1)
    (hc : c = true → s.swapmap k = true ∧ s.data f = s.disk k ∧ s.Unbuffered k) :
    wp E (swapPbufPut k f) s (fun _ s' => Inv c s' X L ∧ Touches false X s s' ∧
      s'.swapmap = s.swapmap ∧ ∀ j b, s'.pbuf j = some b → b.slot = k ∨ s.pbuf j = some b) := by
  have hput {s : PgState} (j : Nat) (b : Buffered) (hj : (s.putBuf ⟨k, f⟩).pbuf j = some b) :
      b.slot = k ∨ s.pbuf j = some b := by
    have hj : update s.pbuf s.phand (some ⟨k, f⟩) j = some b := hj
    by_cases he : j = s.phand
    · rw [he, update_self] at hj
      cases hj
      exact .inl rfl
    · rw [update_of_ne he] at hj
      exact .inr hj
  unfold swapPbufPut
  rw [wp_bind, wp_get, wp_bind]
  cases hb : s.pbuf s.phand with
  | none =>
    refine (wp_pure _).2 ((wp_modify _).2 ⟨h.putBuf hb h1 hc, ?_, rfl, hput⟩)
    exact .hidden rfl rfl rfl rfl rfl rfl fun hpos => (Nat.ne_of_gt hpos hn).elim
  | some b =>
    have hb1 := (h.exclusive _ b h.phand hb).2
    have hne : f ≠ b.frame :=
      fun he => h.buf_ne_hand (Multiset.mem_cons_self f X) h.phand hb he.symm
    have hout := h.unbuf h.phand hb
    have hframe := hout.frames.range _ (mem_refs_hand (Multiset.mem_cons_self b.frame _))
    refine wp_kfree_last hframe hb1 fun i env hi => (wp_modify _).2 ?_
    have hrel := (hout.env env).release hb1 hi
    have hinv := hrel.putBuf (k := k) (update_self _ _ _)
      ((update_of_ne hne _ _).trans h1) (fun hct => by
        obtain ⟨hm, hd, hu⟩ := hc hct
        refine ⟨hm, (update_of_ne hne _ _).trans hd, fun j b' hj hb' => ?_⟩
        have hb' : update s.pbuf s.phand none j = some b' := hb'
        by_cases he : j = s.phand
        · rw [he, update_self] at hb'
          cases hb'
        · rw [update_of_ne he] at hb'
          exact hu j b' hj hb')
    have hstate := setBuf_putBuf (s := (s.setEnv env).release i b.frame) (b := ⟨k, f⟩)
    have hfr : Frees b.frame ((s.setBuf s.phand none).setEnv env) _ := .release (i := i) hb1
    have hev := (hfr.touches (g := false) (hout.env env) hb1).weaken (X := X) fun g hg =>
      Multiset.mem_cons_of_mem hg
    have hev' : Touches false X s ((s.setBuf s.phand none).setEnv env) :=
      .hidden rfl rfl rfl rfl rfl rfl fun hpos => (Nat.ne_of_gt hpos hn).elim
    refine ⟨?_, ?_, rfl, hput (s := (s.setEnv env).release i b.frame)⟩
    · rw [← hstate]
      exact hinv
    · rw [← hstate]
      exact (hev'.trans hev).trans
        (.hidden rfl rfl rfl rfl rfl rfl fun hpos => (Nat.ne_of_gt hpos hn).elim)

section reclaim
variable (hE : ∀ e, e ≠ .remap → e ≠ .walk → E e)
include hE

theorem dropShared_spec (h : Inv c s X L) (hn : s.noff = 0) (hold : Evictable s t vpn)
    (hsh : s.SharedAt t vpn) :
    wp E (dropShared t vpn (s.pte t vpn)) s (fun _ s' => Next c X L s s') := by
  show wp E (nextWriteback >>= _) s _
  rw [wp_bind]
  apply wp_answer
  intro ok env
  rw [wp_ite]
  split
  · refine (wp_bind _ _).2 ?_
    refine (wp_modify _).2 ?_
    have henv := h.next_env env
    have hclear :=
      henv.1.clear_valid (show ((s.setEnv env).pte t vpn).valid = true from hold.valid) hold.low
    have hev : Evicts false X (s.setEnv env) ((s.setEnv env).setPte t vpn .zero) :=
      (Touches.setPte (s := s.setEnv env) (e := .zero) hn
        (.dropped ⟨hold.valid, hold.user, hold.low, hold.sole⟩ hsh
        (by rw [setPte_self]; rfl))).evicts rfl rfl
    refine (kfree_spec hclear).bind fun _ s₁ h₁ => ?_
    have hnext : Next c X L s s₁ := ⟨h₁.1, (henv.2.trans hev).trans (h₁.2.evicts hclear hold.sole)⟩
    refine (wp_bind _ _).2 (wp_swapThrottle (hE _ (by decide) (by decide)) fun env' => ?_)
    exact hnext.trans (h₁.1.next_env env')
  · exact h.next_env env

theorem evict_spec (h : Inv c s X L) (hn : s.noff = 0) (hold : Evictable s t vpn) :
    wp E (evict t vpn (s.pte t vpn)) s (fun _ s' => Next c X L s s') := by
  unfold evict
  rw [wp_bind]
  refine wp_swapAlloc ?_ ?_
  · exact (wp_pure _).2 h.next
  intro k hk h0
  have hunbuf : c = true → s.Unbuffered k := fun hc => (h.content hc).unbuffered h0
  have hhead : k + 1 ∈ (k + 1) ::ₘ L := Multiset.mem_cons_self _ _
  unfold swapWrite
  rw [wp_bind, wp_bind]
  refine wp_bread (hE _ (by decide) (by decide)) fun env => ?_
  rw [wp_bind]
  refine wp_sleep (fun _ _ => hE _ (by decide) (by decide)) ((wp_modify _).2 ?_)
  rw [wp_bind, wp_modify, wp_bind]
  refine (wp_modify _).2 ?_
  rw [wp_bind]
  have h1 := (h.mark hk h0).env env
  have e1 : Touches false X s ((s.mark k).setEnv env) :=
    .hidden rfl rfl rfl rfl rfl rfl fun _ _ _ hb => hb
  have h2 := h1.setDisk hhead hunbuf (s.data (s.pte t vpn).num)
  have e2 := e1.trans (.setDisk (k := k) (fun _ _ hs => h1.slot_ne_hand hhead hs)
    (s.data (s.pte t vpn).num))
  have h3 := h2.setSaved t vpn (h.shaped.single t vpn hold.valid)
    (s.data (s.pte t vpn).num)
  have e3 :
    Touches false X s ((((s.mark k).setEnv env).setDisk k (s.data (s.pte t vpn).num)).setSaved t vpn
      (s.data (s.pte t vpn).num)) :=
    e2.trans (.hidden rfl rfl rfl rfl rfl rfl fun _ _ _ hb => hb)
  have h4 := h3.toSlot (show (PgState.pte _ t vpn).valid = true from hold.valid) hold.user hold.low
    fun _ => by
    rw [setSaved_self]
    exact update_self _ _ _
  have e4 :=
    e3.trans (.setPte hn (show Fate _ (PgState.setPte _ t vpn ((s.pte t vpn).toSlot k)) t vpn from
    .swapped k ⟨hold.valid, hold.user, hold.low, hold.sole⟩ (by rw [setPte_self]; rfl)
      (update_self _ _ _)))
  refine (swapPbufPut_spec h4 hn hold.sole fun hc => ?_).mono fun _ s₁ h₁ => ?_
  · exact ⟨update_self _ _ _, (update_self k _ s.disk).symm, hunbuf hc⟩
  · obtain ⟨hinv, hev, hmap, hpbuf⟩ := h₁
    rw [wp_bind]
    refine wp_swapThrottle (hE _ (by decide) (by decide)) fun env' => ?_
    refine (wp_pure _).2 (Next.trans ⟨hinv, e4.trans hev, fun j hj => ?_⟩ (hinv.next_env env'))
    have hjk : j ≠ k := fun he => by
      rw [he, h0] at hj
      cases hj
    refine ⟨?_, fun hu i b hi hb => ?_⟩
    · rw [hmap]
      exact (update_of_ne hjk _ _).trans hj
    · rcases hpbuf i b hb with he | hb
      · exact fun hej => hjk (hej.symm.trans he)
      · exact hu i b hi hb

theorem scanPage_spec (hn : s.noff = 0) (p : ProcSlot) (hvpn : NVPN ≤ vpn → E .walk) :
    Maintains E (Next c X L s) (scanPage p vpn) := by
  refine Next.maintains fun s h hs => ?_
  rw [← hs.noff] at hn
  unfold scanPage
  rw [wp_bind, wp_get, wp_bind]
  refine wp_lookup hvpn (fun _ _ => (wp_pure _).2 h.next) fun _ _ => ?_
  rw [wp_ite]
  split
  · next hvu =>
    rw [wp_ite]
    split
    · exact (wp_bind _ _).2 ((wp_modify _).2 ((wp_pure _).2 (h.clear_accessed hn hvu.1)))
    · rw [wp_ite]
      split
      · next h1 =>
        have hlt : vpn < TRAPFRAME := by
          by_contra hle
          have hu := (h.shaped.high (s.root p) vpn (Nat.le_of_not_lt hle)).1
          exact Bool.false_ne_true (hu.symm.trans hvu.2)
        have hold : Evictable s (s.root p) vpn := ⟨hvu.1, hvu.2, hlt, h1⟩
        rw [wp_ite]
        split
        · next hsh => exact dropShared_spec hE h hn hold ⟨p, rfl, hsh⟩
        · exact evict_spec hE h hn hold
      · exact (wp_pure _).2 h.next
  · exact (wp_pure _).2 h.next

omit hE in
theorem Inv.setHand (h : Inv c s X L) (p : ProcSlot) (a : Nat) :
    Next c X L s (s.setProc p { s.proc p with hand := a }) := by
  have hroot := (forall_update_iff s.proc fun q pr => pr.pagetable = s.root q).2
    ⟨show { s.proc p with hand := a }.pagetable = _ from rfl, fun _ _ => rfl⟩
  have hcore := (forall_update_iff s.proc fun q pr => pr.core = (s.proc q).core).2
    ⟨show { s.proc p with hand := a }.core = _ from rfl, fun _ _ => rfl⟩
  exact ⟨h.other s.env s.noff s.cur _ hroot, Touches.evicts ⟨rfl, rfl, rfl, rfl, rfl, rfl, rfl,
    hcore,
    fun _ _ _ => rfl, fun _ _ => .same rfl rfl rfl rfl, fun _ _ => ⟨rfl, rfl⟩,
    fun _ => ⟨fun _ _ => rfl, fun _ _ hb => hb⟩⟩ rfl rfl⟩

omit hE in
theorem setHand_spec (p : ProcSlot) (vpn : Nat) : Maintains E (Next c X L s) (setHand p vpn) :=
  fun _ h => h.trans (h.1.setHand p _)

omit hE in
theorem advance_lt (h : vpn < npages) : advance npages vpn < npages := by
  unfold advance
  split <;> omega

omit hE in
theorem startPage_lt (h : npages ≠ 0) (hand : Nat) : startPage npages hand < npages := by
  unfold startPage
  split <;> omega

theorem swapoutLoop_spec (hn : s.noff = 0) (p : ProcSlot) (hbig : NVPN < npages → E .walk) (n : Nat)
    (hlt : vpn < npages) : Maintains E (Next c X L s) (swapoutLoop p npages n vpn) := by
  induction n generalizing vpn with
  | zero => exact .pure _
  | succ n ih =>
    refine (scanPage_spec hE hn p fun hle => hbig (hle.trans_lt hlt)).bind fun r => ?_
    cases r with
    | next => exact ih (advance_lt hlt)
    | full => exact .pure _
    | freed => exact (setHand_spec p _).bind fun _ => .pure _

theorem swapout_spec (hw : Walks E s) : Maintains E (Next c X L s) swapout := by
  refine Next.maintains fun s h hs => ?_
  unfold swapout
  rw [wp_bind, wp_get, wp_ite]
  split
  · exact h.next
  · next hok =>
    have hn : s.noff = 0 := Nat.eq_zero_of_not_pos fun hpos => hok (.inr (.inl hpos))
    have h0 : pagesOf (s.proc s.cur).sz ≠ 0 := fun h0 => hok (.inr (.inr h0))
    exact swapoutLoop_spec hE hn _ (hw.touched hs.toTouches _) _ (startPage_lt h0 _) s h.next

theorem swapoutProcLoop_spec (hn : s.noff = 0) (p : ProcSlot) (hbig : NVPN < npages → E .walk)
    (max n k : Nat) (hlt : vpn < npages) :
    Maintains E (Next c X L s) (swapoutProcLoop p npages max n vpn k) := by
  have hstop (vpn k : Nat) : Maintains E (Next c X L s) (do setHand p vpn; pure k) :=
    (setHand_spec p _).bind fun _ => .pure _
  induction n generalizing vpn k with
  | zero => exact hstop vpn k
  | succ n ih =>
    refine .ite ((scanPage_spec hE hn p fun hle => hbig (hle.trans_lt hlt)).bind fun r => ?_)
      (hstop vpn k)
    cases r with
    | next => exact ih _ (advance_lt hlt)
    | full => exact hstop vpn k
    | freed => exact ih _ (advance_lt hlt)

theorem swapoutProc_spec (hw : Walks E s) (p : ProcSlot) (max : Int) :
    Maintains E (Next c X L s) (swapoutProc p max) := by
  refine Next.maintains fun s h hs => ?_
  unfold swapoutProc
  rw [wp_bind, wp_get, wp_ite]
  split
  · exact h.next
  · next hok =>
    have hn : s.noff = 0 := Nat.eq_zero_of_not_pos fun hpos => hok (.inr (.inr hpos))
    rw [wp_ite]
    split
    · exact h.next
    · next h0 =>
      have hbig := hw.touched hs.toTouches p
      exact ((swapoutProcLoop_spec hE hn p hbig _ _ _ (startPage_lt h0 _)).bind fun _ => .pure _) s
        h.next

theorem midschedSuspendOne_spec (hw : Walks E s) :
    Maintains E (Next c X L s) midschedSuspendOne := by
  refine .bind .get fun s₁ =>
    .ite (.pure _) (maintains_answer.bindOption (.pure _) fun victim => ?_)
  exact .ite (.pure _) ((swapoutProc_spec hE hw _ _).bind fun _ => .pure _)

theorem suspendIfLow_spec (hw : Walks E s) : Maintains E (Next c X L s) suspendIfLow := by
  refine .bind .get fun s₁ => .ite (maintains_answer.bind fun low => ?_) (.pure _)
  exact .ite ((midschedSuspendOne_spec hE hw).bind fun _ => .pure _) (.pure _)

def Alloced (c : Bool) (X L : Multiset Nat) (s : PgState) : Option Nat → PgState → Prop
  | none, s' => Next c X L s s'
  | some f, s' => Inv c s' (f ::ₘ X) L ∧ Evicts false X s s' ∧ s'.cnt f = 1

omit hE in
theorem Tried.next (h : Inv c s X L) (ht : Tried c X L s none s') : Next c X L s s' := by
  have hs : s' = s.setEnv s'.env := ht
  rw [hs]
  exact h.next_env _

theorem kallocLoop_spec (hw : Walks E s) (n : Nat) (s' : PgState) (h : Next c X L s s') :
    wp E (kallocLoop n) s' (Alloced c X L s) := by
  induction n generalizing s' with
  | zero => exact h
  | succ n ih =>
    unfold kallocLoop
    refine (kallocTry_spec h.1).bind fun r s₁ h₁ => ?_
    cases r with
    | some f =>
      have hev := h.2.trans (h₁.2.1.evicts h.1 h₁.2.2)
      refine (suspendIfLow_spec hE (hw.touched hev.toTouches) s₁ h₁.1.next).bind fun _ s₂ h₂ => ?_
      have hf : f ∈ f ::ₘ X := Multiset.mem_cons_self f X
      exact ⟨h₂.1, hev.trans (h₂.2.weaken fun g hg => Multiset.mem_cons_of_mem hg),
        (h₂.2.hand f hf).2.trans h₁.2.1.self⟩
    | none =>
      have hn := h.trans (h₁.next h.1)
      show wp E (get >>= _) s₁ _
      rw [wp_bind, wp_get, wp_ite]
      split
      · exact hn
      · refine (swapout_spec hE hw s₁ hn).bind fun ok s₂ hn₂ => ?_
        rw [wp_ite]
        split
        · exact (suspendIfLow_spec hE hw s₂ hn₂).bind fun _ => ih
        · rw [wp_ite]
          split
          · refine (midschedSuspendOne_spec hE hw s₂ hn₂).bind fun ok s₃ hn₃ => ?_
            rw [wp_ite]
            split
            · exact ih s₃ hn₃
            · exact hn₃
          · exact hn₂

theorem kalloc_walks (hw : Walks E s) (h : Inv c s X L) : wp E kalloc s (Alloced c X L s) := by
  unfold kalloc
  rw [wp_bind]
  apply wp_answer
  intro refused env
  have henv := h.next_env env
  rw [wp_ite]
  split
  · exact henv
  · exact kallocLoop_spec hE hw _ _ henv

omit hE in
theorem kalloc_spec (hE : ∀ e, e ≠ .remap → E e) (h : Inv c s X L) :
    wp E kalloc s (Alloced c X L s) :=
  kalloc_walks (fun e he _ => hE e he) (fun _ _ => hE _ (by decide)) h

omit hE in
theorem kalloc_locked (h : Inv c s X L) (hn : 0 < s.noff) : wp E kalloc s (Tried c X L s) := by
  have hafter : ∀ env r s', Tried c X L (s.setEnv env) r s' → Tried c X L s r s' := by
    intro env r s' h'
    cases r with
    | none => exact h'
    | some f => exact ⟨h'.1, ⟨h'.2.1.only, h'.2.1.data, h'.2.1.cnt, h'.2.1.self⟩, h'.2.2⟩
  unfold kalloc
  rw [wp_bind]
  apply wp_answer
  intro refused env
  rw [wp_ite]
  split
  · rfl
  · unfold kallocLoop
    refine (kallocTry_spec (h.env env)).bind fun r s₁ h₁ => ?_
    cases r with
    | some f =>
      have hn₁ : s₁.noff = s.noff := by
        rw [h₁.2.1.only]
        rfl
      show wp E (suspendIfLow >>= _) s₁ _
      unfold suspendIfLow
      rw [wp_bind, wp_bind, wp_get, if_neg (fun hz => by rw [hn₁] at hz; omega)]
      exact hafter env _ _ h₁
    | none =>
      have hn₁ : s₁.noff = s.noff := by
        have hs : s₁ = (s.setEnv env).setEnv s₁.env := h₁
        rw [hs]
        rfl
      show wp E (get >>= _) s₁ _
      rw [wp_bind, wp_get, if_pos (by rw [hn₁]; exact hn)]
      exact hafter env _ _ h₁

end reclaim

end OopsOS.Pg
