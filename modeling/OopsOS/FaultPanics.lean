import OopsOS.SwapContents
import OopsOS.WalkBounds

namespace OopsOS.Pg
set_option autoImplicit true

variable {s s' s'' : PgState} {X L : Multiset Nat} {t vpn f va : Nat} {c : Bool} {cause : Cause}

/-- The accesses to user pages that the kernel handles: page faults, and addresses passed to the
kernel. -/
inductive Access where
  | fault (va : Nat) (cause : Cause)
  | copyin (t va : Nat)
  | copyout (t va : Nat)
  | argaddr (va : Nat)

def Access.op : Access → Op
  | fault va cause => .pageFault va cause
  | copyin t va => .copyin t va
  | copyout t va => .copyout t va
  | argaddr va => .argaddr va

def Access.table (s : PgState) : Access → Nat
  | fault _ _ | argaddr _ => s.root s.cur
  | copyin t _ | copyout t _ => t

def Access.addr : Access → Nat
  | fault va _ | copyin _ va | copyout _ va | argaddr va => va

def Access.kind : Access → Cause
  | fault _ cause => cause
  | copyin _ _ | argaddr _ => .load
  | copyout _ _ => .store

def UserPage (s : PgState) (t vpn : Nat) : Prop :=
  (s.pte t vpn).valid = true ∧ (s.pte t vpn).user = true

def Settled (s : PgState) (a : Access) (s' : PgState) : Prop :=
  UserPage s' (a.table s) (a.addr / PGSIZE) ∨ Evicts true 0 s s' ∨ (s'.proc s'.cur).killed = true

def Access.Safe (s : PgState) (a : Access) : Prop :=
  wp (fun e => e ≠ .remap ∧ e ≠ .walk) a.op.exec s (fun _ s' => Settled s a s')

def Access.Lacks (s : PgState) : Access → Prop
  | fault va _ => s.swapready = true ∧ (s.pte (s.root s.cur) (va / PGSIZE)).swapped = false ∧
      ((s.pte (s.root s.cur) (va / PGSIZE)).valid && (s.pte (s.root s.cur) (va / PGSIZE)).cow) =
        false
  | copyin t va | copyout t va => s.root s.cur = t ∧ (s.pte t (va / PGSIZE)).userFrame = none
  | argaddr va => va ≠ 0 ∧ (s.pte (s.root s.cur) (va / PGSIZE)).userFrame = none

def Access.Clashes (s : PgState) (a : Access) : Prop :=
  a.Lacks s ∧ Clash s (a.table s) a.addr a.kind

theorem Evicts.bare (h : Evicts g X s s') : Evicts g 0 s s' :=
  h.weaken fun _ hf => (Multiset.notMem_zero _ hf).elim

theorem Walked.userPage (h : Walked c X L t vpn s (some f) s') : UserPage s' t vpn :=
  ⟨h.found.1, h.found.2.1⟩

theorem Supplied.userPage (hp : supply s'' va cause = some p)
    (h : Supplied c X L t vpn f p s s₁ s') : UserPage s' t vpn := by
  unfold UserPage
  rw [h.entry]
  exact ⟨rfl, (supply_flags hp).1⟩

theorem BroughtBack.userPage (h : BroughtBack c X L t vpn f s s₁ s') : UserPage s' t vpn := by
  unfold UserPage
  rw [h.entry]
  exact ⟨rfl, h.before.shaped.user t vpn h.swapped⟩

theorem UserPage.userFrame (h : UserPage s t vpn) :
    (s.pte t vpn).userFrame = some (s.pte t vpn).num :=
  if_pos h

section
variable (h : Inv c s X L)
include h

theorem Cowed.userPage (hu : r = none → UserPage s t vpn)
    (hc : Cowed c X L t vpn s r s') : UserPage s' t vpn := by
  cases hc with
  | absent hw =>
    obtain ⟨-, -, hsame⟩ := hw.missing h
    have hnone := (hsame (h.shaped.single t vpn (hu rfl).1)).2
    rw [(hu rfl).userFrame] at hnone
    cases hnone
  | sole hw _ _ =>
    unfold UserPage
    rw [setPte_self]
    exact hw.userPage
  | copied hw hk hc =>
    have hinv := hw.inv h
    obtain ⟨hv, huser, rfl⟩ := hw.found
    have hlow := hinv.shaped.low_of_user huser
    cases r with
    | none =>
      obtain ⟨hcore, -⟩ := hc.2.kept hv hlow hk
      exact ⟨(Pte.core_valid hcore).trans hv, (Pte.core_user hcore).trans huser⟩
    | some g =>
      obtain ⟨-, s₂, halloc, hfree⟩ := hc
      obtain ⟨hcore, -⟩ := halloc.2.1.kept hv hlow hk
      unfold UserPage
      rw [hfree.only.pte, setPte_self]
      exact ⟨rfl, (Pte.core_user hcore).trans huser⟩

theorem Prepared.settled (hp : Prepared c X L t va cause s r s') :
    UserPage s' t (va / PGSIZE) ∨ Evicts true 0 s s' := by
  cases hp with
  | present hw => exact .inl hw.userPage
  | missing hw hg _ => exact .inr (((hw.missing h).1.2.grow.trans hg.2).bare)
  | supplied _ _ hp hsup => exact .inl (hsup.userPage hp)

theorem Opened.settled (ho : Opened c X L t va s r s') :
    UserPage s' t (va / PGSIZE) ∨ Evicts true 0 s s' := by
  cases ho with
  | present hw _ => exact .inl hw.userPage
  | cowed hw _ hc => exact .inl (hc.userPage (hw.inv h) fun _ => hw.userPage)
  | missing hw hg _ => exact .inr (((hw.missing h).1.2.grow.trans hg.2).bare)
  | supplied _ _ hp hsup => exact .inl (hsup.userPage hp)

theorem Resolved.userPage (hr : Resolved c X L va cause s true s') :
    UserPage s' (s.root s.cur) (va / PGSIZE) := by
  generalize hb : true = b at hr
  cases hr with
  | outside => cases hb
  | back _ hback => exact hback.userPage
  | stuck => cases hb
  | beyond => cases hb
  | cowed _ _ hcow =>
    refine hcow.userPage h fun hr => ?_
    rw [hr] at hb
    cases hb
  | absent _ _ _ hp =>
    subst hb
    obtain ⟨p, f, s₁, hsup, hs⟩ := hp
    exact hs.userPage hsup

theorem Access.settles (hroot : s.root s.cur ≠ 0) (hno : ¬ a.Clashes s) :
    wp (fun e => e ≠ .remap) a.op.exec s (fun _ s' => Settled s a s') := by
  cases a with
  | fault va cause =>
    refine (pageFault_spec (fun _ he => he) h hroot fun hready hs hplain hc =>
      (hno ⟨⟨hready, hs, hplain⟩, hc⟩).elim).bind fun _ s₁ h₁ => ?_
    obtain ⟨ok, s₂, hr, rfl⟩ := h₁
    cases ok with
    | true => exact .inl (hr.userPage h)
    | false => exact .inr (.inr (congrArg Proc.killed (Function.update_self s₂.cur _ s₂.proc)))
  | copyin t va =>
    refine (preparePage_spec (fun _ he => he) h hroot fun hu ht hc =>
      (hno ⟨⟨ht, hu⟩, hc⟩).elim).bind fun _ s₁ h₁ => ?_
    exact (h₁.settled h).imp_right .inl
  | copyout t va =>
    refine (outPage_spec (fun _ he => he) h hroot fun hu ht hc =>
      (hno ⟨⟨ht, hu⟩, hc⟩).elim).bind fun _ s₁ h₁ => ?_
    exact (h₁.settled h).imp_right .inl
  | argaddr va =>
    by_cases h0 : va = 0
    · subst h0
      exact .inr (.inl (.refl 0 s))
    · refine (argaddr_spec (fun _ he => he) h hroot fun hu hc => (hno ⟨⟨h0, hu⟩, hc⟩).elim).mono
        fun _ s₁ h₁ => ?_
      obtain ⟨h0', -⟩ | ⟨-, r, hp, -⟩ := h₁
      · exact (h0 h0').elim
      · exact (hp.settled h).imp_right .inl

theorem Clash.valid (hc : Clash s t va cause) : (s.pte t (va / PGSIZE)).valid = true := by
  obtain ⟨p, f, s₁, s₂, -, hk, -, hv⟩ := hc
  by_contra hn
  have hn := Bool.eq_false_of_not_eq_true hn
  have hcore := (kalloc_run h hk).2.1.invalid hn
  exact Bool.false_ne_true (hn.symm.trans ((Pte.core_valid hcore).symm.trans hv))

/-- The page is copied when it is written. -/
def Copies (s : PgState) (t vpn : Nat) : Prop :=
  ∃ f, (s.pte t vpn).userFrame = some f ∧ (s.pte t vpn).cow = true ∧ s.cnt f ≠ 1

/-- The states in which `kalloc` is called for a page that is not found. -/
def Misses (t va : Nat) (cause : Cause) (s s' : PgState) : Prop :=
  ∃ s₁, walkaddr t (va / PGSIZE) s = .ok (none, s₁) ∧ s₁.root s₁.cur = t ∧
    Draws t (va / PGSIZE) (supply s₁ va cause) s₁ s'

/-- The states in which the handler of an access calls `kalloc`. -/
def Access.Allocates (s : PgState) : Access → PgState → Prop
  | fault va cause, s' =>
      Fetches s (s.root s.cur) (va / PGSIZE) ∧ s' = s ∨
      (s.swapready = true ∧ va < (s.proc s.cur).sz ∧ Copies s (s.root s.cur) (va / PGSIZE)) ∧
        s' = s ∨
      (fault va cause).Lacks s ∧ Draws (s.root s.cur) (va / PGSIZE) (supply s va cause) s s'
  | copyin t va, s' => Fetches s t (va / PGSIZE) ∧ s' = s ∨ Misses t va .load s s'
  | copyout t va, s' =>
      Fetches s t (va / PGSIZE) ∧ s' = s ∨ Misses t va .store s s' ∨
      ∃ f, walkaddr t (va / PGSIZE) s = .ok (some f, s') ∧ Copies s' t (va / PGSIZE)
  | argaddr va, s' =>
      va ≠ 0 ∧
        (Fetches s (s.root s.cur) (va / PGSIZE) ∧ s' = s ∨ Misses (s.root s.cur) va .load s s')

theorem walkaddr_walked (hw : walkaddr t vpn s = .ok (r, s')) : Walked c X L t vpn s r s' :=
  (walkaddr_spec (E := fun _ => True) (fun _ _ => trivial) h).of_ok hw

variable (hroot : s.root s.cur ≠ 0)
include hroot

end

/-- No process is larger than the address space. -/
def Bounded (s : PgState) : Prop := ∀ p, pagesOf (s.proc p).sz ≤ NVPN

theorem Bounded.touched (hb : Bounded s) (ht : Touches g X s s') : Bounded s' :=
  fun p => ht.proc_sz p ▸ hb p

theorem Bounded.stays (hb : Bounded s) (h : Inv c s X L) : Stays kalloc s :=
  (kalloc_walks (fun _ _ hne => hne) (fun p hlt => absurd hlt (Nat.not_lt.2 (hb p))) h).mono
    fun _ _ _ => trivial

theorem Bounded.draws (hb : Bounded s) (h : Inv c s X L) (hlive : s.live t = true)
    (hd : Draws t (va / PGSIZE) (supply s va cause) s s') : Stays kalloc s' := by
  obtain ⟨p, hp, rfl | ⟨f, s₁, s₂, hk, hread, hpath⟩⟩ := hd
  · exact hb.stays h
  obtain ⟨hinv, hev, h1⟩ := kalloc_run h hk
  have hsame : wp (fun _ => True) (readIf p.reads) s₁ (fun _ s' => ∃ env, s' = s₁.setEnv env) :=
    wp_readIf trivial _ fun env => ⟨env, rfl⟩
  obtain ⟨env, rfl⟩ := hsame.of_ok hread
  have h₂ := ((hinv.env env).write_fresh (g := false) h1 p.bytes).1
  have hb₁ : Bounded ((s₁.setEnv env).setData f p.bytes) := fun q => hb.touched hev.toTouches q
  obtain ⟨-, rfl⟩ | ⟨hrun, -⟩ := hpath
  · exact hb₁.stays h₂
  · have hmid := Node.mid_inside (supply_lt (Option.isSome_iff_exists.2 ⟨p, hp⟩))
    have hgrown := (walkNode_spec (E := fun _ => True) (fun _ _ => trivial) h₂
      (hev.live_of hlive) hmid fun j hj => nomatch hj).of_ok hrun
    exact (hb₁.touched hgrown.1.2.toTouches).stays hgrown.1.1

theorem Bounded.misses (hb : Bounded s) (h : Inv c s X L) (hroot : s.root s.cur ≠ 0)
    (hm : Misses t va cause s s') : Stays kalloc s' := by
  obtain ⟨s₁, hw, rfl, hd⟩ := hm
  obtain ⟨hn, -⟩ := (walkaddr_walked h hw).missing h
  refine (hb.touched hn.2.toTouches).draws hn.1 (hn.1.shaped.roots _ ?_).1 hd
  rwa [hn.2.cur, hn.2.root]

def stackRun (sz sp hand : Nat) : List Op :=
  [.kalloc, .create 1,
    .setProc 0 { Proc.unused with pagetable := 2, sz := sz, sp := sp, hand := hand }]

theorem Access.unsafe_of_stops {a : Access} {q : Panic} (hq : q = .remap ∨ q = .walk)
    (h : stops a.op.exec s (fun e => decide (e = q)) = true) : ¬ a.Safe s := by
  intro hsafe
  obtain ⟨e, hm, he⟩ := exists_of_stops h
  obtain ⟨hremap, hwalk⟩ := hsafe.of_error hm
  rcases hq with rfl | rfl
  · exact hremap (of_decide_eq_true he)
  · exact hwalk (of_decide_eq_true he)

/-- A process larger than the address space touches an unmapped page when no frame is free. -/
theorem full_memory_walks : ∃ s, (∃ X L, Inv true s X L) ∧ s.root s.cur ≠ 0 ∧
    ¬ (Access.fault 4096 .load).Clashes s ∧ ¬ (Access.fault 4096 .load).Safe s := by
  have hrun : Along fire (fun s op => op.Regular s ∧ op.Unbuffered s) (.boot 4)
      (stackRun (2 ^ 38 + 8192) 1 (2 ^ 38 - 4096)) := by decide +kernel
  have hend : ((runEvents fire (.boot 4) (stackRun (2 ^ 38 + 8192) 1 (2 ^ 38 - 4096))).any fun s =>
      decide (s.root s.cur = 2 ∧ (s.pte 2 1).valid = false) &&
        stops (Access.fault 4096 .load).op.exec s fun e => decide (e = .walk)) = true := by
    decide +kernel
  obtain ⟨s, hs, hend⟩ := (Option.any_eq_true _ _).1 hend
  obtain ⟨hstart, hstop⟩ := Bool.and_eq_true_iff.1 hend
  obtain ⟨hroot, hv⟩ := of_decide_eq_true hstart
  obtain ⟨X, L, h⟩ := Reaches.content hrun hs
  refine ⟨s, ⟨X, L, h⟩, by rw [hroot]; decide, fun hc => ?_,
    Access.unsafe_of_stops (.inr rfl) hstop⟩
  have hv' : (s.pte (s.root s.cur) 1).valid = true := hc.2.valid h
  rw [hroot, hv] at hv'
  cases hv'

end OopsOS.Pg
