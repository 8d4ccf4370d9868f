import OopsOS.NameEffects

namespace OopsOS.Ns
set_option autoImplicit true

variable {s s₀ s' : NsState} {E : Stop → Prop} {H L : List Nat} {i : Nat} {N M : Nodes}
  {P : Nat → Prop}

theorem setDotdot_spec (h : Acct s₀ H L s) (hd : d ∈ L) (parent : Nat) :
    wp E (setDotdot d parent) s (fun r s' => Acct s₀ H L s' ∧
      if r then (∃ up, (s.node d).entries[1]? = some ⟨up, dotdot⟩) ∧
        s'.node = putEntry s.node d 1 ⟨parent, dotdot⟩
      else s'.node = s.node ∧ ∀ up, (s.node d).entries[1]? ≠ some ⟨up, dotdot⟩) := by
  unfold setDotdot
  rw [wp_bind, wp_getNode]
  cases hslot : (s.node d).entries[1]? with
  | none =>
    refine ⟨h, rfl, ?_⟩
    intro up he
    cases he
  | some e =>
    rw [wp_ite]
    split
    · rename_i hname
      obtain ⟨up, name⟩ := e
      subst hname
      apply (writeSlot_spec h hd 1 _).bind
      intro _ s₁ ⟨h₁, hn₁⟩
      exact ⟨h₁, ⟨up, rfl⟩, hn₁⟩
    · rename_i hname
      refine ⟨h, rfl, ?_⟩
      intro up he
      cases he
      exact hname rfl

/-- The source of a rename exists and is no directory, or the target lies outside of it. -/
def Allowed (s : NsState) (p : ProcSlot) (old : Path) (newdp : Nat) : Prop :=
  ∃ ip, s.find p false old = some (ip, []) ∧
    ((s.node ip).type = .dir → descends s.node ip (NINODES + 1) newdp = some false)

theorem putEntry_of_ne (hne : i ≠ d) (N : Nodes) (k : Nat) (e : Dirent) :
    putEntry N d k e i = N i := Function.update_of_ne hne _ _

theorem relink_of_ne (hne : i ≠ d) (N : Nodes) (δ : Int16) : relink N d δ i = N i :=
  Function.update_of_ne hne _ _

structure Ready (s : NsState) (L : List Nat) (olddp newdp : Nat) (oldname : Name) (k ip : Nat) :
    Prop where
  old : olddp ∈ L
  new : newdp ∈ L
  moved : ip ∈ L
  entry : Entry s.node olddp oldname k ip
  olddp_ne : olddp ≠ ip
  newdp_ne : newdp ≠ ip
  alloc : (s.node ip).type ≠ .free
  below : (s.node ip).type = .dir → olddp ≠ newdp →
    descends s.node ip (NINODES + 1) newdp = some false

theorem Ready.of_node (h : Ready s L olddp newdp oldname k ip) (hn : s'.node = s.node)
    (hL : ∀ j ∈ L, j ∈ L') : Ready s' L' olddp newdp oldname k ip where
  old := hL _ h.old
  new := hL _ h.new
  moved := hL _ h.moved
  entry := hn ▸ h.entry
  olddp_ne := h.olddp_ne
  newdp_ne := h.newdp_ne
  alloc := hn ▸ h.alloc
  below := hn ▸ h.below

theorem clearOld_spec (h : Acct s₀ H L s) (hold : olddp ∈ L)
    (hstep : Step P N (putEntry s.node olddp k .empty)) :
    wp E (do
      writeSlot olddp k .empty
      pure (0 : Int)) s (fun _ s' => Acct s₀ H L s' ∧ Effects P N s'.node) := by
  apply (writeSlot_spec h hold k .empty).bind
  intro _ s₁ ⟨h₁, hn₁⟩
  rw [← hn₁] at hstep
  exact ⟨h₁, .single hstep⟩

theorem redirect_spec (h : Acct s₀ H L s₁) (hr : Ready s L olddp newdp oldname k ip)
    (ht : (s.node ip).type = .dir) (hip : s₁.node ip = s.node ip)
    (hstep : (∃ up, (s.node ip).entries[1]? = some ⟨up, dotdot⟩) →
      Step P s.node (putEntry (putEntry s₁.node ip 1 ⟨newdp, dotdot⟩) olddp k .empty)) :
    wp E (do
      if ← setDotdot ip newdp then
        writeSlot olddp k .empty
        pure (0 : Int)
      else
        pure (-1)) s₁ (fun _ s' => Acct s₀ H L s' ∧ Effects P s.node s'.node) := by
  apply (setDotdot_spec h hr.moved newdp).bind
  intro r s₂ ⟨h₂, hr₂⟩
  rw [hip] at hr₂
  cases r with
  | true =>
    obtain ⟨hdots, hn₂⟩ := hr₂
    apply clearOld_spec h₂ hr.old
    rw [hn₂]
    exact hstep hdots
  | false => exact ⟨h₂, .single (.broken hr.entry ht hr₂.2)⟩

def Clash (N : Nodes) (olddp newdp : Nat) (oldname newname : Name) : Prop :=
  ∃ k ip, slotOf (N olddp).entries oldname = some k ∧ inumAt (N olddp).entries k = ip ∧
    (ip = olddp ∨ ip = newdp ∨ ∃ k2 ip2, slotOf (N newdp).entries newname = some k2 ∧
      inumAt (N newdp).entries k2 = ip2 ∧ (ip2 = ip ∨ ip2 = olddp ∨ ip2 = newdp))

theorem clash_iff (hk : slotOf (N olddp).entries oldname = some k)
    (hip : inumAt (N olddp).entries k = ip) :
    Clash N olddp newdp oldname newname ↔ ip = olddp ∨ ip = newdp ∨
      ∃ k2 ip2, slotOf (N newdp).entries newname = some k2 ∧
        inumAt (N newdp).entries k2 = ip2 ∧ (ip2 = ip ∨ ip2 = olddp ∨ ip2 = newdp) := by
  subst hip
  simp [Clash, hk]

theorem resolve_child (h : resolve N true i names = some (d, name))
    (hs : slotOf (N d).entries name = some k) :
    resolve N false i names = some (inumAt (N d).entries k, []) := by
  induction names generalizing i with
  | nil => cases h
  | cons nm rest ih =>
    unfold resolve at h ⊢
    split at h
    · cases h
    rename_i hdir
    rw [if_neg hdir, if_neg (by simp)]
    split at h
    · rename_i hlast
      cases h
      rw [hs, hlast.2]
      rfl
    · split at h
      · cases h
      · exact ih h

theorem NsState.find_child (h : s.find p true path = some (d, name))
    (hs : slotOf (s.node d).entries name = some k) :
    s.find p false path = some (inumAt (s.node d).entries k, []) := by
  obtain ⟨i, hi, hr⟩ := Option.bind_eq_some_iff.1 h
  rw [find, hi]
  exact resolve_child hr hs

structure Renames (s : NsState) (p : ProcSlot) (old new : Path) (olddp newdp : Nat)
    (oldname newname : Name) : Prop where
  argold : argstr old = true
  argnew : argstr new = true
  ne : old ≠ new
  findold : s.find p true old = some (olddp, oldname)
  findnew : s.find p true new = some (newdp, newname)
  properold : isDots oldname = false
  propernew : isDots newname = false

def SameParent (s : NsState) (p : ProcSlot) (old new : Path) : Prop :=
  ∃ d oldname newname, Renames s p old new d d oldname newname

def RenameClash (s : NsState) (p : ProcSlot) (old new : Path) : Prop :=
  ∃ olddp newdp oldname newname, Renames s p old new olddp newdp oldname newname ∧
    (olddp ≠ newdp → Allowed s p old newdp) ∧ Clash s.node olddp newdp oldname newname

theorem Renames.unique (h : Renames s p old new olddp newdp oldname newname)
    (h' : Renames s p old new olddp' newdp' oldname' newname') :
    olddp' = olddp ∧ newdp' = newdp ∧ oldname' = oldname ∧ newname' = newname := by
  cases h.findold.symm.trans h'.findold
  cases h.findnew.symm.trans h'.findnew
  exact ⟨rfl, rfl, rfl, rfl⟩

structure Renamed (s : NsState) (p : ProcSlot) (old new : Path) (s' : NsState) : Prop where
  noclash : ¬ RenameClash s p old new
  leak : SameParent s p old new → ∃ d, Done (Targets s p [new]) s [d] s'
  balanced : ¬ SameParent s p old new → Done (Targets s p [new]) s [] s'

theorem Renamed.of_not_reached (hnone : ∀ olddp newdp oldname newname,
      ¬ Renames s p old new olddp newdp oldname newname)
    (h : Done (Targets s p [new]) s [] s') : Renamed s p old new s' where
  noclash := fun ⟨_, _, _, _, hr, _⟩ => hnone _ _ _ _ hr
  leak := fun ⟨_, _, _, hr⟩ => absurd hr (hnone _ _ _ _)
  balanced := fun _ => h

section
variable (hE : Tolerant E)
include hE

theorem descendantLoop_spec (inum n : Nat) (h : Acct s₀ (cur :: H) [] s)
    (hN : Settled s₀ H s.node) :
    wp E (descendantLoop inum n cur) s (fun b s' => Acct s₀ H [] s' ∧ s'.node = s.node ∧
      descends s.node inum n cur = some b) := by
  induction n generalizing cur s with
  | zero => exact hE _ (by simp)
  | succ n ih =>
    unfold descendantLoop descends
    apply (ilock_first hE h rfl).bind
    intro _ s₁ ⟨h₁, hn₁, _⟩
    have hN₁ : Settled s₀ H s₁.node := hn₁ ▸ hN
    rw [← hn₁, wp_ite]
    split
    · apply (iunlockput_same h₁ rfl hN₁).bind
      intro _ s₂ ⟨h₂, hn₂⟩
      exact ⟨h₂, hn₂, rfl⟩
    apply (dirlookup_spec hE h₁ cur dotdot).bind
    intro r s₂ ⟨hn₂, _, hr⟩
    cases r with
    | none =>
      obtain ⟨hs, h₂⟩ := hr
      apply (iunlockput_same h₂ hn₂ hN₁).bind
      intro _ s₃ ⟨h₃, hn₃⟩
      rw [hs]
      exact ⟨h₃, hn₃, rfl⟩
    | some x =>
      obtain ⟨up, k⟩ := x
      obtain ⟨hs, hk, h₂⟩ := hr
      apply (iunlockput_same h₂.swap hn₂ (hN₁.cons up)).bind
      intro _ s₃ ⟨h₃, hn₃⟩
      simp only [hs, hk]
      rw [wp_ite]
      split
      · apply (iput_same h₃ hn₃ hN₁ (by simp)).bind
        intro _ s₄ ⟨h₄, hn₄⟩
        exact ⟨h₄, hn₄, rfl⟩
      · have hrest := ih h₃ (hn₃ ▸ hN₁)
        rw [hn₃] at hrest
        exact hrest

theorem dirIsDescendant_spec (h : Acct s₀ H [] s) (hstart : 0 < s.ref start) (inum : Nat) :
    wp E (dirIsDescendant start inum) s (fun b s' => Acct s₀ H [] s' ∧ s'.node = s.node ∧
      descends s.node inum (NINODES + 1) start = some b) := by
  unfold dirIsDescendant
  apply (idup_spec h hstart).bind
  intro _ s₁ ⟨h₁, hn₁⟩
  have hset : Settled s₀ H s₁.node := hn₁ ▸ h.settled
  rw [← hn₁]
  exact descendantLoop_spec hE inum (NINODES + 1) h₁ hset

theorem renameAllowed_spec (hc : Seated s₀) (h : Acct s₀ H [] s)
    (hnew : newdp ∈ H) (p : ProcSlot) (old : Path) :
    wp E (renameAllowed p old newdp) s (fun b s' => Acct s₀ H [] s' ∧ s'.node = s.node ∧
      (b = true ↔ Allowed s p old newdp)) := by
  unfold renameAllowed
  apply (namei_spec hE hc h p old).bind
  intro r s₁ ⟨hn₁, hr⟩
  cases r with
  | none =>
    refine ⟨hr.2, hn₁, ?_⟩
    constructor
    · intro hb
      cases hb
    · intro ⟨ip, hfind, _⟩
      rw [hr.1] at hfind
      cases hfind
  | some ic =>
    obtain ⟨hfind, h₁⟩ := hr
    apply (ilock_first hE h₁ hn₁).bind
    intro _ s₂ ⟨h₂, hN₂, _⟩
    rw [wp_bind, wp_getNode]
    apply (iunlock_spec h₂).bind
    intro _ s₃ ⟨h₃, hn₃⟩
    have hN₃ : s₃.node = s.node := hn₃.trans hN₂
    rw [hN₂, wp_ite]
    split
    · rename_i hdir
      have hpos : 0 < s₃.ref newdp := h₃.ref_pos (List.mem_cons_of_mem _ hnew)
      apply (dirIsDescendant_spec hE h₃ hpos ic).bind
      intro b s₄ ⟨h₄, hn₄, hb⟩
      apply (iput_same h₄ (hn₄.trans hN₃) h.settled (by simp)).bind
      intro _ s₅ ⟨h₅, hn₅⟩
      refine ⟨h₅, hn₅, ?_⟩
      rw [hN₃] at hb
      unfold Allowed
      constructor
      · intro hb'
        refine ⟨ic, hfind, fun _ => ?_⟩
        rw [hb]
        simpa using hb'
      · intro ⟨ip, hfind', hbelow⟩
        rw [hfind] at hfind'
        cases hfind'
        have := hbelow hdir
        rw [hb] at this
        simpa using this
    · rename_i hdir
      apply (iput_same h₃ hN₃ h.settled (by simp)).bind
      intro _ s₄ ⟨h₄, hn₄⟩
      refine ⟨h₄, hn₄, ?_⟩
      constructor
      · intro _
        exact ⟨ic, hfind, fun ht => absurd ht hdir⟩
      · intro _
        rfl

theorem renameOver_spec (h : Acct s₀ H L s) (hP : P newdp)
    (hr : Ready s L olddp newdp oldname k ip) (he2 : Entry s.node newdp newname k2 ip2)
    (hip2 : ip2 ∈ L) (hne : ip ≠ ip2) (ho2 : olddp ≠ ip2) (hn2 : newdp ≠ ip2)
    (hf2 : (s.node ip2).type ≠ .free) :
    wp E (renameOver olddp newdp ip ip2 k k2) s (fun _ s' => Acct s₀ H L s' ∧
      Effects P s.node s'.node) := by
  unfold renameOver
  rw [wp_bind, wp_getNode, wp_bind, wp_getNode, wp_ite]
  split
  · exact ⟨h, .refl _⟩
  rename_i hdir
  rw [wp_ite]
  split
  · exact ⟨h, .refl _⟩
  rename_i hfile
  rw [if_neg (Ne.symm hne), wp_bind, wp_getNode]
  apply (writeSlot_spec h hr.new k2 _).bind
  intro _ s₁ ⟨h₁, hn₁⟩
  rw [wp_ite]
  split
  · exact hE _ (by simp)
  rename_i hlinks
  apply (addLink_spec h₁ hip2 (-1)).bind
  intro _ s₂ ⟨h₂, hn₂⟩
  have hstep : ∀ hdots, Step P s.node (replaced s.node olddp newdp ip ip2 k k2) := fun hdots =>
    .replace hP hr.entry he2 hne ⟨hr.olddp_ne, ho2⟩ ⟨hr.newdp_ne, hn2⟩ hr.alloc hf2
      (by
        intro ht
        simpa [ht] using hdir)
      (by
        intro ht ht2
        exact hfile ⟨ht, ht2⟩)
      (Int16.not_lt.1 hlinks) hdots hr.below
  rw [wp_ite]
  split
  · rename_i ht
    apply (addLink_spec h₂ hr.old (-1)).bind
    intro _ s₃ ⟨h₃, hn₃⟩
    rw [wp_ite]
    split
    · rename_i hcross
      apply redirect_spec h₃ hr ht
      · rw [hn₃, hn₂, hn₁, relink_of_ne (Ne.symm hr.olddp_ne), relink_of_ne hne,
          putEntry_of_ne (Ne.symm hr.newdp_ne)]
      · intro hdots
        have hfinal := hstep fun _ _ => hdots
        rwa [replaced, if_pos ⟨ht, hcross⟩, relinkParent, if_pos ht, ← hn₁, ← hn₂, ← hn₃] at hfinal
    · rename_i hcross
      apply clearOld_spec h₃ hr.old
      have hfinal := hstep fun _ hc => absurd hc hcross
      rwa [replaced, if_neg (fun hc => hcross hc.2), relinkParent, if_pos ht, ← hn₁, ← hn₂, ← hn₃]
        at hfinal
  · rename_i ht
    apply clearOld_spec h₂ hr.old
    have hfinal := hstep fun hc => absurd hc ht
    rwa [replaced, if_neg (fun hc => ht hc.1), relinkParent, if_neg ht, ← hn₁, ← hn₂] at hfinal

theorem renameInto_spec (h : Acct s₀ H L s) (hP : P newdp)
    (hr : Ready s L olddp newdp oldname k ip) (hp : isDots newname = false)
    (hnew : slotOf (s.node newdp).entries newname = none) :
    wp E (renameInto olddp newdp ip k newname) s (fun _ s' => Acct s₀ H L s' ∧
      Effects P s.node s'.node) := by
  unfold renameInto
  rw [wp_ite]
  split
  · rename_i hsame
    subst hsame
    apply (writeSlot_spec h hr.old k _).bind
    intro _ s₁ ⟨h₁, hn₁⟩
    refine ⟨h₁, ?_⟩
    rw [hn₁]
    exact .single (.rename hP hr.entry hnew hp)
  rename_i hcross
  apply (dirlink_spec hE h hr.new newname ip).bind
  intro r s₁ ⟨h₁, hnewdir, hr₁⟩
  cases r with
  | false =>
    refine ⟨h₁, ?_⟩
    rw [hr₁]
    exact .refl _
  | true =>
    obtain ⟨_, hn₁⟩ := hr₁
    have hstep : ∀ hdots, Step P s.node (moved s.node olddp newdp ip k newname) := fun hdots =>
      .move hP hr.entry hnewdir hnew hp hcross hr.olddp_ne hr.newdp_ne hr.alloc hdots
        (fun ht => hr.below ht hcross)
    have hip : s₁.node ip = s.node ip := by
      rw [hn₁]
      exact putEntry_of_ne (Ne.symm hr.newdp_ne) _ _ _
    rw [if_pos rfl, wp_bind, wp_getNode, hip, wp_ite]
    split
    · rename_i ht
      apply (addLink_spec h₁ hr.new 1).bind
      intro _ s₂ ⟨h₂, hn₂⟩
      apply (addLink_spec h₂ hr.old (-1)).bind
      intro _ s₃ ⟨h₃, hn₃⟩
      apply redirect_spec h₃ hr ht
      · rw [hn₃, hn₂, relink_of_ne (Ne.symm hr.olddp_ne), relink_of_ne (Ne.symm hr.newdp_ne), hip]
      · intro hdots
        have hfinal := hstep fun _ => hdots
        rwa [moved, if_pos ht, ← hn₁, ← hn₂, ← hn₃] at hfinal
    · rename_i ht
      apply clearOld_spec h₁ hr.old
      have hfinal := hstep fun hc => absurd hc ht
      rwa [moved, if_neg ht, ← hn₁] at hfinal

theorem renameLocked_spec (h : Acct s₀ H L s) (hP : P newdp)
    (hold : olddp ∈ L) (hnew : newdp ∈ L) (hL : ∀ j ∈ L, j = olddp ∨ j = newdp)
    (hdo : isDots oldname = false) (hdn : isDots newname = false)
    (hd : Clash s.node olddp newdp oldname newname → E .deadlock)
    (hbelow : ∀ k, slotOf (s.node olddp).entries oldname = some k →
      (s.node (inumAt (s.node olddp).entries k)).type = .dir → olddp ≠ newdp →
      descends s.node (inumAt (s.node olddp).entries k) (NINODES + 1) newdp = some false) :
    wp E (renameLocked olddp newdp oldname newname) s (fun _ s' => Acct s₀ H L s' ∧
      Effects P s.node s'.node ∧ ¬ Clash s.node olddp newdp oldname newname) := by
  unfold renameLocked
  apply (dirlookup_spec hE h olddp oldname).bind
  intro r s₁ ⟨hn₁, hdir, hr⟩
  cases r with
  | none =>
    refine ⟨hr.2, by rw [hn₁]; exact .refl _, ?_⟩
    intro ⟨k, ip, hk, _⟩
    rw [hr.1] at hk
    cases hk
  | some x =>
    obtain ⟨ip, k⟩ := x
    obtain ⟨hslot, hinum, h₁⟩ := hr
    rw [clash_iff hslot hinum] at hd ⊢
    apply (ilock_spec hE h₁ (List.mem_cons_self ..) fun hm => hd ((hL ip hm).imp_right .inl)).bind
    intro _ s₂ ⟨h₂, hn₂, hfree⟩
    rw [hn₁] at hfree
    have hN₂ : s₂.node = s.node := hn₂.trans hn₁
    have hipL : ip ∉ L := h₂.not_mem_lock
    have hready : Ready s₂ (ip :: L) olddp newdp oldname k ip := by
      constructor
      · exact List.mem_cons_of_mem _ hold
      · exact List.mem_cons_of_mem _ hnew
      · exact List.mem_cons_self ..
      · rw [hN₂]
        exact ⟨hdir, hdo, hslot, hinum⟩
      · intro he
        exact hipL (he ▸ hold)
      · intro he
        exact hipL (he ▸ hnew)
      · rw [hN₂]
        exact hfree
      · rw [hN₂, ← hinum]
        exact hbelow k hslot
    apply (dirlookup_spec hE h₂ newdp newname).bind
    intro r s₃ ⟨hn₃, hnewdir, hr⟩
    have hN₃ : s₃.node = s.node := hn₃.trans hN₂
    cases r with
    | some x =>
      obtain ⟨ip2, k2⟩ := x
      obtain ⟨hslot2, hinum2, h₃⟩ := hr
      rw [hN₂] at hnewdir hslot2 hinum2
      apply
        (ilock_spec hE h₃ (List.mem_cons_self ..) fun hm => hd (.inr (.inr ⟨k2, ip2, hslot2, hinum2,
        (List.mem_cons.1 hm).imp_right (hL ip2)⟩))).bind
      intro _ s₄ ⟨h₄, hn₄, hfree2⟩
      have hN₄ : s₄.node = s.node := hn₄.trans hN₃
      have hip2L : ip2 ∉ ip :: L := h₄.not_mem_lock
      have hready₄ : Ready s₄ (ip2 :: ip :: L) olddp newdp oldname k ip :=
        hready.of_node (hn₄.trans hn₃) fun _ => List.mem_cons_of_mem _
      have hentry2 : Entry s₄.node newdp newname k2 ip2 := by
        rw [hN₄]
        exact ⟨hnewdir, hdn, hslot2, hinum2⟩
      have hne : ip ≠ ip2 := by
        intro he
        exact hip2L (he ▸ List.mem_cons_self ..)
      have ho2 : olddp ≠ ip2 := by
        intro he
        exact hip2L (he ▸ List.mem_cons_of_mem _ hold)
      have hn2 : newdp ≠ ip2 := by
        intro he
        exact hip2L (he ▸ List.mem_cons_of_mem _ hnew)
      rw [← hn₄] at hfree2
      apply (renameOver_spec hE h₄ hP hready₄ hentry2 (List.mem_cons_self ..) hne ho2 hn2
        hfree2).bind
      intro ret s₅ ⟨h₅, heff⟩
      rw [hN₄] at heff
      apply (iunlockput_effects h₅ heff).bind
      intro _ s₆ ⟨h₆, heff₆⟩
      apply (iunlockput_effects h₆ heff₆).bind
      intro _ s₇ ⟨h₇, heff₇⟩
      refine ⟨h₇, heff₇, ?_⟩
      simp [hslot2, hinum2, hready.olddp_ne.symm, hready.newdp_ne.symm, hne.symm, ho2.symm,
        hn2.symm]
    | none =>
      obtain ⟨hslot2, h₃⟩ := hr
      have hslot3 : slotOf (s₃.node newdp).entries newname = none := by
        rw [hn₃]
        exact hslot2
      apply (renameInto_spec hE h₃ hP (hready.of_node hn₃ fun _ => id) hdn hslot3).bind
      intro ret s₄ ⟨h₄, heff⟩
      rw [hN₃] at heff
      apply (iunlockput_effects h₄ heff).bind
      intro _ s₅ ⟨h₅, heff₅⟩
      refine ⟨h₅, heff₅, ?_⟩
      rw [hN₂] at hslot2
      simp [hslot2, hready.olddp_ne.symm, hready.newdp_ne.symm]

theorem lockPair_spec (h : Acct s₀ H [] s) (hi : i ∈ H) (hj : j ∈ H) (hne : i ≠ j) :
    wp E (lockPair i j) s (fun _ s' => Acct s₀ H [i, j] s' ∧ s'.node = s.node) := by
  unfold lockPair
  rw [wp_ite]
  split
  · apply (ilock_spec hE h hi (fun hm => nomatch hm)).bind
    intro _ s₁ ⟨h₁, hn₁, _⟩
    apply (ilock_spec hE h₁ hj (by simp [Ne.symm hne])).mono
    intro _ s₂ ⟨h₂, hn₂, _⟩
    exact ⟨h₂.swap_lock, hn₂.trans hn₁⟩
  · apply (ilock_spec hE h hj (fun hm => nomatch hm)).bind
    intro _ s₁ ⟨h₁, hn₁, _⟩
    apply (ilock_spec hE h₁ hi (by simp [hne])).mono
    intro _ s₂ ⟨h₂, hn₂, _⟩
    exact ⟨h₂, hn₂.trans hn₁⟩

theorem sysRename_spec (hs : Idle s) (p : ProcSlot) (old new : Path)
    (hd : RenameClash s p old new → E .deadlock) :
    wp E (sysRename p old new) s (fun _ s' => Renamed s p old new s') := by
  have hset := hs.acct.settled
  unfold sysRename
  rw [wp_ite]
  split
  · rename_i harg
    apply Renamed.of_not_reached
    · intro _ _ _ _ hr
      exact harg ⟨hr.argold, hr.argnew⟩
    · exact .of_same hs.acct rfl
  rename_i harg
  rw [wp_ite]
  split
  · rename_i heq
    apply Renamed.of_not_reached
    · intro _ _ _ _ hr
      exact hr.ne heq
    · exact .of_same hs.acct rfl
  rename_i hne
  apply (nameiparent_spec hE hs.seated hs.acct p old (fun j _ hj => nomatch hj)).bind
  intro r s₁ ⟨hn₁, _, hr₁⟩
  cases r with
  | none =>
    apply Renamed.of_not_reached
    · intro _ _ _ _ hr
      rw [hr.findold] at hr₁
      cases hr₁.1
    · exact .of_same hr₁.2 hn₁
  | some x =>
    obtain ⟨olddp, oldname⟩ := x
    obtain ⟨hfold, h₁⟩ := hr₁
    apply (nameiparent_spec hE hs.seated h₁ p new (fun j _ hj => nomatch hj)).bind
    intro r s₂ ⟨hn₂, _, hr₂⟩
    have hN₂ : s₂.node = s.node := hn₂.trans hn₁
    have hfind : s₁.find p true new = s.find p true new :=
      NsState.find_congr (by simp [hn₁]) h₁.cwd p true new
    rw [hfind] at hr₂
    cases r with
    | none =>
      apply (iput_same hr₂.2 hN₂ hset (by simp)).bind
      intro _ s₃ ⟨h₃, hn₃⟩
      apply Renamed.of_not_reached
      · intro _ _ _ _ hr
        rw [hr.findnew] at hr₂
        cases hr₂.1
      · exact .of_same h₃ hn₃
    | some x =>
      obtain ⟨newdp, newname⟩ := x
      obtain ⟨hfnew, h₂⟩ := hr₂
      have hputs : ∀ s₃, Acct s [newdp, olddp] [] s₃ → s₃.node = s.node →
          (¬ SameParent s p old new) → (¬ RenameClash s p old new) →
          wp E (do
            iput olddp
            iput newdp
            pure (-1 : Int)) s₃ (fun _ s' => Renamed s p old new s') := by
        intro s₃ h₃ hN₃ hsame hclash
        apply (iput_same h₃.swap hN₃ (hset.cons newdp) (by simp)).bind
        intro _ s₄ ⟨h₄, hn₄⟩
        apply (iput_same h₄ hn₄ hset (by simp)).bind
        intro _ s₅ ⟨h₅, hn₅⟩
        exact ⟨hclash, fun h => absurd h hsame, fun _ => .of_same h₅ hn₅⟩
      rw [wp_ite]
      split
      · rename_i hdots
        have hnone : ∀ olddp' newdp' oldname' newname',
            ¬ Renames s p old new olddp' newdp' oldname' newname' := by
          intro _ _ _ _ hr
          cases hr.findold.symm.trans hfold
          cases hr.findnew.symm.trans hfnew
          simp [hr.properold, hr.propernew] at hdots
        apply hputs s₂ h₂ hN₂
        · intro ⟨_, _, _, hr⟩
          exact hnone _ _ _ _ hr
        · intro ⟨_, _, _, _, hr, _⟩
          exact hnone _ _ _ _ hr
      rename_i hdots
      simp only [Bool.or_eq_true, not_or, Bool.not_eq_true] at hdots
      have harg' := Classical.not_not.1 harg
      have hren : Renames s p old new olddp newdp oldname newname :=
        ⟨harg'.1, harg'.2, hne, hfold, hfnew, hdots.1, hdots.2⟩
      have hP : Targets s p [new] newdp := ⟨new, by simp, newname, hfnew⟩
      have hclash : Clash s.node olddp newdp oldname newname →
          (olddp ≠ newdp → Allowed s p old newdp) → E .deadlock :=
        fun hc ha => hd ⟨olddp, newdp, oldname, newname, hren, ha, hc⟩
      have hnoclash : ¬ Clash s.node olddp newdp oldname newname → ¬ RenameClash s p old new := by
        intro hc ⟨_, _, _, _, hr, _, hc'⟩
        obtain ⟨e1, e2, e3, e4⟩ := hren.unique hr
        subst e1 e2 e3 e4
        exact hc hc'
      rw [wp_ite]
      split
      · rename_i hsame
        subst hsame
        apply (ilock_first hE h₂ hN₂).bind
        intro _ s₃ ⟨h₃, hN₃, _⟩
        apply (renameLocked_spec hE h₃ hP (by simp) (by simp) (by simp) hdots.1 hdots.2
          (by
            rw [hN₃]
            exact fun hc => hclash hc fun h => absurd rfl h)
          (fun _ _ _ h => absurd rfl h)).bind
        intro ret s₄ ⟨h₄, heff, hc⟩
        rw [hN₃] at heff hc
        apply (iunlockput_effects h₄ heff).bind
        intro _ s₅ ⟨h₅, heff₅⟩
        exact ⟨hnoclash hc, fun _ => ⟨olddp, h₅, heff₅⟩, fun h => absurd ⟨_, _, _, hren⟩ h⟩
      rename_i hcross
      have hnosame : ¬ SameParent s p old new := by
        intro ⟨_, _, _, hr⟩
        obtain ⟨e1, e2, _⟩ := hren.unique hr
        exact hcross (e1.symm.trans e2)
      apply (renameAllowed_spec hE hs.seated h₂ (List.mem_cons_self ..) p old).bind
      intro b s₃ ⟨h₃, hn₃, hb⟩
      have hN₃ : s₃.node = s.node := hn₃.trans hN₂
      have hallowed : Allowed s₂ p old newdp ↔ Allowed s p old newdp := by
        unfold Allowed
        rw [NsState.find_congr (by simp [hN₂]) h₂.cwd p false old, hN₂]
      rw [hallowed] at hb
      cases b with
      | false =>
        apply hputs s₃ h₃ hN₃ hnosame
        intro ⟨_, _, _, _, hr, ha, _⟩
        obtain ⟨e1, e2, _, _⟩ := hren.unique hr
        subst e1 e2
        cases hb.2 (ha hcross)
      | true =>
        have hal := hb.1 rfl
        apply (lockPair_spec hE h₃ (by simp) (by simp) hcross).bind
        intro _ s₄ ⟨h₄, hn₄⟩
        have hN₄ : s₄.node = s.node := hn₄.trans hN₃
        apply (renameLocked_spec hE h₄ hP (by simp) (by simp) (by simp) hdots.1 hdots.2
          (by
            rw [hN₄]
            exact fun hc => hclash hc fun _ => hal)
          (by
            rw [hN₄]
            intro k hk ht _
            obtain ⟨ip, hfind, hbelow⟩ := hal
            rw [NsState.find_child hfold hk] at hfind
            cases hfind
            exact hbelow ht)).bind
        intro ret s₅ ⟨h₅, heff, hc⟩
        rw [hN₄] at heff hc
        apply (iunlockput_effects h₅.swap heff).bind
        intro _ s₆ ⟨h₆, heff₆⟩
        apply (iunlockput_effects h₆ heff₆).bind
        intro _ s₇ ⟨h₇, heff₇⟩
        exact ⟨hnoclash hc, fun h => absurd h hnosame, fun _ => ⟨h₇, heff₇⟩⟩

end

end OopsOS.Ns
