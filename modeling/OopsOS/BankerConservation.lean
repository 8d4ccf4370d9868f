import OopsOS.Family
import OopsOS.Banker

namespace OopsOS.Bank
set_option autoImplicit true
open Function

variable {s s' : BankState} {p q : ProcSlot} {e : Event} {nres r : Nat} {d m : Nat → Int}
  {es : List Event}

/-- Every unit is available or held by a process, and none by a process that has been freed. -/
structure BankState.Conserved (s : BankState) : Prop where
  avail : ∀ r < s.nres, 0 ≤ s.avail r
  range : ∀ p, s.active p = true → ∀ r < s.nres,
    0 ≤ s.alloc p r ∧ s.alloc p r ≤ s.max p r ∧ s.max p r ≤ s.total r
  sum : ∀ r < s.nres, s.avail r + ∑ p, s.alloc p r = s.total r
  freed : ∀ p, s.state p = .unused → ∀ r < s.nres, s.alloc p r = 0

structure Balanced (s : BankState) : Prop where
  conserved : s.Conserved
  idle : ∀ p, s.active p = false → ∀ r < s.nres, s.alloc p r = 0
  ready : ∀ p, s.active p = true → s.inited = true

theorem give_grab (s : BankState) (p : ProcSlot) (nres : Nat) (d : Nat → Int) :
    (s.grab p nres d).give p nres d = s := by
  have havail : (fun r => if r < nres then (if r < nres then s.avail r - d r else s.avail r) + d r
      else if r < nres then s.avail r - d r else s.avail r) = s.avail := by
    funext r
    split
    · omega
    · rfl
  have halloc :
    (fun r => if r < nres then (if r < nres then s.alloc p r + d r else s.alloc p r) - d r
      else if r < nres then s.alloc p r + d r else s.alloc p r) = s.alloc p := by
    funext r
    split
    · omega
    · rfl
  unfold BankState.give BankState.grab
  simp only [update_self, update_idem]
  rw [havail, halloc, update_eq_self]

theorem sum_update (f : ProcSlot → Nat → Int) (p : ProcSlot) (g : Nat → Int) (r : Nat) :
    ∑ q, update f p g q r + f p r = ∑ q, f q r + g r :=
  sum_apply_update_add (fun a : Nat → Int => a r) f p g

theorem ne_unused_of_live (h : s.state p = .live) : s.state p ≠ .unused := by
  rw [h]
  nofun

theorem ne_unused_of_update {f : ProcSlot → ProcState} (hx : x ≠ .unused)
    (h : update f p x q = .unused) : f q = .unused := by
  by_cases hqp : q = p
  · subst hqp
    exact absurd ((update_self ..).symm.trans h) hx
  · exact (update_of_ne hqp _ _).symm.trans h

def EmptyHanded (s : BankState) : Event → Prop
  | .reap p q => s.pthread q = some p ∧ s.state q = .zombie → ∀ r < s.nres, s.alloc q r = 0
  | .join p => ∀ q, s.deadThread p = some q → ∀ r < s.nres, s.alloc q r = 0
  | _ => True

section
variable (h : Balanced s)
include h

theorem Balanced.move (hinited : s'.inited = s.inited) (hnres : s'.nres = s.nres)
    (htotal : s'.total = s.total) (hstate : s'.state = s.state) (hpunused : s.state p ≠ .unused)
    (halloc : s'.alloc = update s.alloc p m) (hmax : ∀ q, q ≠ p → s'.max q = s.max q)
    (hactive : ∀ q, q ≠ p → s'.active q = s.active q)
    (havail : ∀ r < s.nres, 0 ≤ s'.avail r ∧ s'.avail r + m r = s.avail r + s.alloc p r)
    (hself : s'.active p = true → s.inited = true ∧ ∀ r < s.nres, 0 ≤ m r ∧ m r ≤ s'.max p r ∧
      s'.max p r ≤ s.total r)
    (hidle : s'.active p = false → ∀ r < s.nres, m r = 0) : Balanced s' := by
  have hp : s'.alloc p = m := by rw [halloc, update_self]
  have hq {q : ProcSlot} (hne : q ≠ p) : s'.alloc q = s.alloc q := by
    rw [halloc, update_of_ne hne]
  refine ⟨⟨fun r hr => ?_, fun q hact r hr => ?_, fun r hr => ?_, fun q hunused r hr => ?_⟩,
    fun q hact r hr => ?_, fun q hact => ?_⟩
  · rw [hnres] at hr
    exact (havail r hr).1
  · rw [hnres] at hr
    rw [htotal]
    by_cases hqp : q = p
    · rw [hqp] at hact ⊢
      rw [hp]
      exact (hself hact).2 r hr
    · rw [hactive q hqp] at hact
      rw [hq hqp, hmax q hqp]
      exact h.conserved.range q hact r hr
  · rw [hnres] at hr
    have hsum := sum_update s.alloc p m r
    have hold := h.conserved.sum r hr
    have hnew := (havail r hr).2
    rw [halloc, htotal]
    omega
  · rw [hnres] at hr
    rw [hstate] at hunused
    have hqp : q ≠ p := fun he => hpunused (he ▸ hunused)
    rw [hq hqp]
    exact h.conserved.freed q hunused r hr
  · rw [hnres] at hr
    by_cases hqp : q = p
    · rw [hqp] at hact ⊢
      rw [hp]
      exact hidle hact r hr
    · rw [hactive q hqp] at hact
      rw [hq hqp]
      exact h.idle q hact r hr
  · rw [hinited]
    by_cases hqp : q = p
    · rw [hqp] at hact
      exact (hself hact).1
    · rw [hactive q hqp] at hact
      exact h.ready q hact

theorem Balanced.bankerInit (nres : Nat) (total : Nat → Int) :
    Balanced (s.bankerInit nres total) := by
  unfold BankState.bankerInit
  split
  · exact h
  · split
    · exact h
    · next hpos =>
      split
      · exact h
      · have htotal (r : Nat) (hr : r < nres) : 0 ≤ total r := not_lt.1 fun hlt => hpos ⟨r, hr, hlt⟩
        refine ⟨⟨fun r hr => ?_, nofun, fun r hr => ?_, fun _ _ _ _ => rfl⟩, fun _ _ _ _ => rfl,
          nofun⟩
        · have hr : r < nres := hr
          simp only [hr, ↓reduceIte]
          exact htotal r hr
        · simp only [Finset.sum_const_zero, add_zero]

theorem Balanced.bankerSetMax (hp : s.state p = .live) (nres : Nat) (m : Nat → Int) :
    Balanced (s.bankerSetMax p nres m) := by
  unfold BankState.bankerSetMax
  split
  · next hok =>
    obtain ⟨hinited, rfl, hm⟩ := hok
    have hzero (hactive : ¬ s.active p = true) (r : Nat) (hr : r < s.nres) : s.alloc p r = 0 :=
      h.idle p (Bool.eq_false_of_not_eq_true hactive) r hr
    refine h.move (m := if s.active p then s.alloc p else fun _ => 0) rfl rfl rfl rfl
      (ne_unused_of_live hp) ?_
      (fun q hq => update_of_ne hq _ _) (fun q hq => update_of_ne hq _ _) (fun r hr => ?_)
      (fun _ => ⟨hinited, fun r hr => ?_⟩) fun hfalse => ?_
    · split
      · exact (update_eq_self p s.alloc).symm
      · rfl
    · refine ⟨h.conserved.avail r hr, ?_⟩
      split
      · rfl
      · next hactive => rw [hzero hactive r hr]
    · have hmr := hm r hr
      simp only [update_self, hr, ↓reduceIte]
      split
      · next hactive =>
        have hrange := h.conserved.range p hactive r hr
        omega
      · exact ⟨le_rfl, hmr.1, hmr.2.1⟩
    · cases (update_self ..).symm.trans hfalse
  · exact h

theorem Balanced.restate (toProcs : Procs)
    (hfreed : ∀ q, toProcs.state q = .unused → s.state q = .unused ∨ ∀ r < s.nres,
      s.alloc q r = 0) :
    Balanced { s with toProcs := toProcs } :=
  ⟨⟨h.conserved.avail, h.conserved.range, h.conserved.sum,
    fun q hq => (hfreed q hq).elim (h.conserved.freed q) id⟩, h.idle, h.ready⟩

theorem Balanced.vacate (hp : ∀ r < s.nres, s.alloc p r = 0) : Balanced (s.vacate p) := by
  refine h.restate _ fun q hq => ?_
  by_cases hqp : q = p
  · exact .inr (hqp ▸ hp)
  · exact .inl ((update_of_ne hqp _ _).symm.trans hq)

theorem Balanced.bankerReleaseProc_active (p : ProcSlot) :
    (s.bankerReleaseProc p).active p = false := by
  unfold BankState.bankerReleaseProc
  split
  · exact update_self ..
  · next hnot => exact Bool.eq_false_of_not_eq_true fun hactive => hnot ⟨h.ready p hactive, hactive⟩

section
variable (hp : s.state p ≠ .unused)
include hp

theorem Balanced.give (hactive : s.active p = true)
    (hnres : nres = s.nres) (hd : ∀ r < nres, 0 ≤ d r ∧ d r ≤ s.alloc p r) :
    Balanced (s.give p nres d) := by
  subst hnres
  refine h.move rfl rfl rfl rfl hp rfl (fun _ _ => rfl) (fun _ _ => rfl) (fun r hr => ?_)
    (fun _ => ?_) fun hfalse => ?_
  · have havail := h.conserved.avail r hr
    have hdr := hd r hr
    simp only [BankState.give, hr, ↓reduceIte]
    omega
  · refine ⟨h.ready p hactive, fun r hr => ?_⟩
    have hrange := h.conserved.range p hactive r hr
    have hdr := hd r hr
    simp only [BankState.give, hr, ↓reduceIte]
    omega
  · rw [show (s.give p s.nres d).active p = s.active p from rfl, hactive] at hfalse
    cases hfalse

theorem Balanced.grab (hactive : s.active p = true)
    (hnres : nres = s.nres) (hd : ∀ r < nres, 0 ≤ d r ∧ d r ≤ s.need p r ∧ d r ≤ s.avail r) :
    Balanced (s.grab p nres d) := by
  subst hnres
  refine h.move rfl rfl rfl rfl hp rfl (fun _ _ => rfl) (fun _ _ => rfl) (fun r hr => ?_)
    (fun _ => ?_) fun hfalse => ?_
  · have hdr := hd r hr
    simp only [BankState.grab, hr, ↓reduceIte]
    omega
  · refine ⟨h.ready p hactive, fun r hr => ?_⟩
    have hrange := h.conserved.range p hactive r hr
    have hdr := hd r hr
    simp only [BankState.need] at hdr
    simp only [BankState.grab, hr, ↓reduceIte]
    omega
  · rw [show (s.grab p s.nres d).active p = s.active p from rfl, hactive] at hfalse
    cases hfalse

theorem Balanced.bankerReleaseProc : Balanced (s.bankerReleaseProc p) := by
  unfold BankState.bankerReleaseProc
  split
  · next hok =>
    refine h.move rfl rfl rfl rfl hp rfl (fun q hq => update_of_ne hq _ _)
      (fun q hq => update_of_ne hq _ _) (fun r hr => ?_) (fun htrue => ?_) fun _ r hr => if_pos hr
    · have hrange := h.conserved.range p hok.2 r hr
      have havail := h.conserved.avail r hr
      simp only [hr, ↓reduceIte]
      omega
    · cases (update_self ..).symm.trans htrue
  · exact h

theorem Balanced.freeproc : Balanced (s.freeproc p) :=
  (h.bankerReleaseProc hp).vacate
    ((h.bankerReleaseProc hp).idle p (h.bankerReleaseProc_active p))

end

theorem Balanced.bankerRequest (hp : s.state p = .live) (nres : Nat) (req : Nat → Int) :
    Balanced (s.bankerRequest p nres req) := by
  unfold BankState.bankerRequest
  split
  · next hok =>
    split
    · exact h.grab (ne_unused_of_live hp) hok.2.2.1 hok.2.1 hok.2.2.2
    · rw [give_grab]
      exact h
  · exact h

theorem Balanced.bankerRelease (hp : s.state p = .live) (nres : Nat) (rel : Nat → Int) :
    Balanced (s.bankerRelease p nres rel) := by
  unfold BankState.bankerRelease
  split
  · next hok => exact h.give (ne_unused_of_live hp) hok.2.2.1 hok.2.1 hok.2.2.2
  · exact h

theorem Balanced.allocproc (hp : s.state p = .unused) : Balanced (s.allocproc p) := by
  have hfreed := h.conserved.freed p hp
  have hself : (s.allocproc p).alloc p = fun _ => 0 := update_self ..
  have hother {q : ProcSlot} (hq : q ≠ p) : (s.allocproc p).alloc q = s.alloc q :=
    update_of_ne hq _ _
  have hne {q : ProcSlot} (hq : (s.allocproc p).active q = true) : q ≠ p ∧ s.active q = true := by
    by_cases hqp : q = p
    · rw [hqp] at hq
      cases (update_self ..).symm.trans hq
    · exact ⟨hqp, (update_of_ne hqp _ _).symm.trans hq⟩
  refine ⟨⟨h.conserved.avail, fun q hq r hr => ?_, fun r hr => ?_, fun q hq r hr => ?_⟩,
    fun q hq r hr => ?_, fun q hq => h.ready q (hne hq).2⟩
  · obtain ⟨hqp, hactive⟩ := hne hq
    rw [hother hqp, show (s.allocproc p).max q = s.max q from update_of_ne hqp _ _]
    exact h.conserved.range q hactive r hr
  · have hsum := sum_update s.alloc p (fun _ => 0) r
    have hold := h.conserved.sum r hr
    rw [hfreed r hr] at hsum
    show s.avail r + ∑ q, update s.alloc p (fun _ => 0) q r = s.total r
    omega
  · by_cases hqp : q = p
    · rw [hqp, hself]
    · rw [hother hqp]
      exact h.conserved.freed q hq r hr
  · by_cases hqp : q = p
    · rw [hqp, hself]
    · rw [hother hqp]
      exact h.idle q ((update_of_ne hqp _ _).symm.trans hq) r hr

theorem Balanced.spawn (parent pthread : Option ProcSlot) (ok : Bool) :
    Balanced (s.spawn parent pthread ok) := by
  unfold BankState.spawn
  split
  · exact h
  · next np hfind =>
    have halloc := h.allocproc (Procs.unused_of_unusedSlot hfind)
    have hself : (s.allocproc np).alloc np = fun _ => 0 := update_self ..
    split
    · exact halloc.restate _ fun _ hq => .inl (ne_unused_of_update (by nofun) hq)
    · have hnot : (s.allocproc np).bankerReleaseProc np = s.allocproc np := by
        refine if_neg fun hok => ?_
        cases (update_self ..).symm.trans hok.2
      unfold BankState.freeproc
      rw [hnot]
      exact halloc.vacate fun r _ => by rw [hself]

theorem Balanced.exit (p : ProcSlot) : Balanced (s.exit p) :=
  h.restate _ fun _ hq => .inl (ne_unused_of_update (by nofun) hq)

theorem Balanced.step (hempty : EmptyHanded s e) (hfire : fire s e = some s') : Balanced s' := by
  unfold fire at hfire
  split at hfire
  · next hlive =>
    cases e with
    | bankerInit p nres total =>
      cases hfire
      exact h.bankerInit nres total
    | bankerSetMax p nres m =>
      cases hfire
      exact h.bankerSetMax hlive nres m
    | bankerRequest p nres req =>
      cases hfire
      exact h.bankerRequest hlive nres req
    | bankerRelease p nres rel =>
      cases hfire
      exact h.bankerRelease hlive nres rel
    | fork p ok | clone p ok =>
      cases hfire
      exact h.spawn _ _ ok
    | exit p =>
      obtain ⟨-, rfl⟩ := of_guarded hfire
      exact h.exit p
    | reap p q =>
      obtain ⟨hok, rfl⟩ := of_guarded hfire
      exact h.vacate (hempty hok)
    | wait p =>
      simp only at hfire
      split at hfire
      · next q hq =>
        cases hfire
        exact h.freeproc (Procs.used_of_zombie (Procs.zombie_of_deadChild hq))
      · cases hfire
        exact h
    | join p =>
      simp only at hfire
      split at hfire
      · next q hq =>
        cases hfire
        exact h.vacate (hempty q hq)
      · cases hfire
        exact h
  · cases hfire

end

theorem freethread_not_conserved (hr : r < s.nres) (hne : s.alloc q r ≠ 0) :
    ¬ (s.freethread q).Conserved :=
  fun h => hne (h.freed q (update_self ..) r hr)

theorem not_conserved_of_held (hempty : ¬ EmptyHanded s e) (hfire : fire s e = some s') :
    ¬ s'.Conserved := by
  unfold fire at hfire
  split at hfire
  · cases e with
    | reap p q =>
      obtain ⟨-, rfl⟩ := of_guarded hfire
      simp only [EmptyHanded, not_forall] at hempty
      obtain ⟨-, r, hr, hne⟩ := hempty
      exact freethread_not_conserved hr hne
    | join p =>
      simp only [EmptyHanded, not_forall] at hempty
      obtain ⟨q, hq, r, hr, hne⟩ := hempty
      simp only [hq] at hfire
      cases hfire
      exact freethread_not_conserved hr hne
    | bankerInit | bankerSetMax | bankerRequest | bankerRelease | fork | clone | exit | wait =>
      exact absurd trivial hempty
  · cases hfire

theorem boot_balanced : Balanced boot :=
  ⟨⟨nofun, nofun, nofun, nofun⟩, fun _ _ _ _ => rfl, nofun⟩

/-- The resources are conserved throughout a run exactly if no thread that is freed holds any. -/
theorem banker_conserved_iff (es : List Event) :
    Always fire BankState.Conserved boot es ↔ Along fire EmptyHanded boot es :=
  always_iff_along (fun _ h => h.conserved) (fun _ _ _ h hP hfire => h.step hP hfire)
    (fun _ _ _ _ hP hfire => not_conserved_of_held hP hfire) boot_balanced

/-- A thread gets a unit, exits and is joined; its slot is used again. -/
def threadRun : List Event :=
  [.bankerInit 0 1 fun _ => 3, .clone 0 true, .bankerSetMax 1 1 fun _ => 3, .bankerRequest 1 1
    fun _ => 3, .exit 1, .join 0, .fork 0 true]

/-- The units of the joined thread are neither available nor held by any process. -/
theorem joined_thread_loses_resources : ∃ s', runEvents fire boot threadRun = some s' ∧
    s'.total 0 = 3 ∧ s'.avail 0 = 0 ∧ (∀ p, s'.alloc p 0 = 0) ∧ ¬ s'.Conserved := by
  obtain ⟨s', hs', hnres, htotal, havail, halloc⟩ : ∃ s', runEvents fire boot threadRun = some s' ∧
      s'.nres = 1 ∧
      s'.total 0 = 3 ∧ s'.avail 0 = 0 ∧ ∀ p, s'.alloc p 0 = 0 :=
    exists_of_any (by decide +kernel)
  refine ⟨s', hs', htotal, havail, halloc, fun hconserved => ?_⟩
  have hsum := hconserved.sum 0 (by omega)
  rw [Finset.sum_eq_zero fun p _ => halloc p, htotal, havail] at hsum
  cases hsum

end OopsOS.Bank
