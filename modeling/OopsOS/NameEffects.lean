import OopsOS.NameRefs

namespace OopsOS.Ns
set_option autoImplicit true

variable {s s₀ s' : NsState} {E : Stop → Prop} {H L : List Nat} {i : Nat} {N M : Nodes}
  {P : Nat → Prop}

theorem drop_eq_self (h : (N i).nlink = 0 → (N i).type = .free ∨ 0 < ref i + H.count i) :
    drop ref H N i = N := by
  rw [drop, if_neg]
  rintro ⟨h1, h2, h3⟩
  obtain hf | hr := h h2
  · exact h3 hf
  · omega

theorem Settles.refl (N : Nodes) : Settles N N := Relation.ReflTransGen.refl

theorem Settles.drop (h : Settles N M) (ref : Nat → Nat) (H : List Nat) (i : Nat) :
    Settles N (drop ref H M i) := by
  unfold Ns.drop
  split
  · rename_i hc
    exact h.tail (.free hc.2.1)
  · exact h

theorem Effects.refl (N : Nodes) : Effects P N N := ⟨N, .inl rfl, .refl N⟩

theorem Effects.single (h : Step P N M) : Effects P N M := ⟨M, .inr h, .refl M⟩

theorem Effects.settles (h : Effects P N M) (hs : Settles M M') : Effects P N M' := by
  obtain ⟨M₁, hstep, hrest⟩ := h
  exact ⟨M₁, hstep, hrest.trans hs⟩

theorem Effects.drop (h : Effects P N M) (ref : Nat → Nat) (H : List Nat) (i : Nat) :
    Effects P N (drop ref H M i) :=
  h.settles ((Settles.refl M).drop ref H i)

theorem iunlockput_effects (h : Acct s₀ (i :: H) (i :: L) s) (heff : Effects P N s.node) :
    wp E (iunlockput i) s (fun _ s' => Acct s₀ H L s' ∧ Effects P N s'.node) := by
  apply (iunlockput_spec h).mono
  intro _ s' ⟨h', hn⟩
  rw [hn]
  exact ⟨h', heff.drop _ _ _⟩

structure Idle (s : NsState) : Prop extends Tidy s where
  unlocked : ∀ i, s.locked i = false
  seated : Seated s

theorem Idle.acct (h : Idle s) : Acct s [] [] s := .refl h.toTidy h.unlocked

theorem addParentLink_spec (h : Acct s₀ H L s) (hd : d ∈ L) (type : InodeType) (δ : Int16) :
    wp E (addParentLink type d δ) s (fun _ s' => Acct s₀ H L s' ∧
      s'.node = relinkParent s.node type d δ) := by
  unfold addParentLink relinkParent
  rw [wp_ite]
  split
  · exact addLink_spec h hd δ
  · exact ⟨h, rfl⟩

theorem linkDots_spec (hE : Tolerant E) (h : Acct s₀ H L s) (hdp : dp ∈ L) (hip : ip ∈ L)
    (type : InodeType) :
    wp E (linkDots type dp ip) s (fun _ s' => Acct s₀ H L s' ∧
      s'.node = dotted s.node type dp ip) := by
  unfold linkDots dotted
  rw [wp_ite]
  split
  · apply (addLink_spec h hdp 1).bind
    intro _ s₁ ⟨h₁, hn₁⟩
    apply (dirlink_spec hE h₁ hip dot ip).bind
    intro r s₂ ⟨h₂, _, hr⟩
    cases r with
    | false => exact hE _ (by simp)
    | true =>
      apply (dirlink_spec hE h₂ hip dotdot dp).bind
      intro r' s₃ ⟨h₃, _, hr'⟩
      cases r' with
      | false => exact hE _ (by simp)
      | true =>
        refine ⟨h₃, ?_⟩
        rw [hr'.2, hr.2, hn₁]
  · exact ⟨h, rfl⟩

structure Made (s : NsState) (p : ProcSlot) (path : Path) (type : InodeType) (dp ip : Nat)
    (name : Name) : Prop where
  find : s.find p true path = some (dp, name)
  dir : (s.node dp).type = .dir
  absent : slotOf (s.node dp).entries name = none
  free : (s.node ip).type = .free ∧ 0 < ip ∧ ip < NINODES
  type : type ≠ .free

theorem create_spec (hE : Tolerant E) (hc : Seated s₀) (h : Acct s₀ H [] s) (p : ProcSlot)
    (path : Path) (type : InodeType) (major minor : Int16) :
    wp E (create p path type major minor) s (fun r s' =>
      match r with
      | none => Acct s₀ H [] s' ∧ s'.node = s.node
      | some ip => Acct s₀ (ip :: H) [ip] s' ∧
          ((s'.node = s.node ∧ type = .file ∧
            ((s.node ip).type = .file ∨ (s.node ip).type = .device)) ∨
          ∃ dp name, Made s p path type dp ip name ∧
            s'.node = drop s₀.ref (ip :: H)
              (made s.node dp ip name (fresh type major minor)) dp)) := by
  unfold create
  apply (nameiparent_spec hE hc h p path (fun j _ hj => nomatch hj)).bind
  intro r s₁ ⟨hn₁, _, hr⟩
  cases r with
  | none => exact ⟨hr.2, hn₁⟩
  | some x =>
    obtain ⟨dp, name⟩ := x
    obtain ⟨hfind, h₁⟩ := hr
    apply (ilock_first hE h₁ hn₁).bind
    intro _ s₂ ⟨h₂, hN, _⟩
    apply (dirlookup_spec hE h₂ dp name).bind
    intro r s₃ ⟨hn₃, hdir, hr⟩
    cases r with
    | some x =>
      obtain ⟨ip, k⟩ := x
      obtain ⟨_, _, h₃⟩ := hr
      apply (iunlockput_same h₃.swap (hn₃.trans hN) (h.settled.cons ip)).bind
      intro _ s₄ ⟨h₄, hn₄⟩
      apply (ilock_first hE h₄ hn₄).bind
      intro _ s₅ ⟨h₅, hN₅, _⟩
      rw [wp_bind, wp_getNode, wp_ite, hN₅]
      split
      · rename_i hok
        exact ⟨h₅, .inl ⟨hN₅, hok⟩⟩
      · apply (iunlockput_same h₅ hN₅ h.settled).bind
        intro _ s₆ ⟨h₆, hn₆⟩
        exact ⟨h₆, hn₆⟩
    | none =>
      obtain ⟨habsent, h₃⟩ := hr
      apply (newNode_spec hE h₃ type major minor).bind
      intro ip s₄ ⟨h₄, ht, hfree, hn₄⟩
      rw [hn₃, hN] at hn₄ hfree
      rw [hN] at habsent hdir
      apply (linkDots_spec hE h₄ (by simp) (by simp) type).bind
      intro _ s₅ ⟨h₅, hn₅⟩
      apply (dirlink_spec hE h₅ (by simp) name ip).bind
      intro r s₆ ⟨h₆, _, hr₆⟩
      cases r with
      | false => exact hE _ (by simp)
      | true =>
        apply (iunlockput_spec h₆.swap.swap_lock).bind
        intro _ s₇ ⟨h₇, hn₇⟩
        refine ⟨h₇, .inr ⟨dp, name, ⟨hfind, hdir, habsent, hfree, ht⟩, ?_⟩⟩
        rw [hn₇, hr₆.2, hn₅, hn₄]
        rfl

theorem createExclusive_spec (hE : Tolerant E) (hc : Seated s₀) (h : Acct s₀ H L s)
    (p : ProcSlot) (path : Path) (major minor : Int16)
    (hd : ∀ j ∈ s.passes p true path, j ∈ L → E .deadlock) :
    wp E (createExclusive p path .file major minor) s (fun r s' =>
      (∀ j ∈ s.passes p true path, j ∉ L) ∧
      match r with
      | none => Acct s₀ H L s' ∧ s'.node = s.node
      | some ip => Acct s₀ (ip :: H) (ip :: L) s' ∧
          ∃ dp name, Made s p path .file dp ip name ∧
            s'.node = drop s₀.ref (ip :: H)
              (made s.node dp ip name (fresh .file major minor)) dp) := by
  unfold createExclusive
  apply (nameiparent_spec hE hc h p path hd).bind
  intro r s₁ ⟨hn₁, hv, hr⟩
  cases r with
  | none => exact ⟨hv, hr.2, hn₁⟩
  | some x =>
    obtain ⟨dp, name⟩ := x
    obtain ⟨hfind, h₁⟩ := hr
    apply (ilock_spec hE h₁ (List.mem_cons_self ..) (hd dp (NsState.mem_passes_of_find hfind))).bind
    intro _ s₂ ⟨h₂, hn₂, _⟩
    apply (dirlookup_spec hE h₂ dp name).bind
    intro r s₃ ⟨hn₃, hdir, hr⟩
    have hN : s₂.node = s.node := hn₂.trans hn₁
    cases r with
    | some x =>
      obtain ⟨ip, k⟩ := x
      obtain ⟨_, _, h₃⟩ := hr
      apply (iput_same h₃ (hn₃.trans hN) (h.settled.cons dp) fun hi => (h₂.owned ip hi).1).bind
      intro _ s₄ ⟨h₄, hn₄⟩
      apply (iunlockput_same h₄ hn₄ h.settled).bind
      intro _ s₅ ⟨h₅, hn₅⟩
      exact ⟨hv, h₅, hn₅⟩
    | none =>
      obtain ⟨habsent, h₃⟩ := hr
      apply (newNode_spec hE h₃ .file major minor).bind
      intro ip s₄ ⟨h₄, ht, hfree, hn₄⟩
      rw [hn₃, hN] at hn₄ hfree
      rw [hN] at habsent hdir
      apply (dirlink_spec hE h₄ (by simp) name ip).bind
      intro r s₅ ⟨h₅, _, hr₅⟩
      cases r with
      | false => exact hE _ (by simp)
      | true =>
        apply (iunlockput_spec h₅.swap.swap_lock).bind
        intro _ s₆ ⟨h₆, hn₆⟩
        refine ⟨hv, h₆, dp, name, ⟨hfind, hdir, habsent, hfree, ht⟩, ?_⟩
        rw [hn₆, hr₅.2, hn₄]
        rfl

theorem resolve_congr (h : ∀ i, (M i).type = (N i).type ∧ (M i).entries = (N i).entries)
    (parent : Bool) (i : Nat) (names : List Name) :
    resolve M parent i names = resolve N parent i names := by
  induction names generalizing i with
  | nil => rfl
  | cons name rest ih =>
    unfold resolve
    rw [(h i).1, (h i).2]
    split
    · rfl
    split
    · rfl
    split
    · rfl
    · exact ih _

theorem NsState.find_congr
    (h : ∀ i, (s'.node i).type = (s.node i).type ∧ (s'.node i).entries = (s.node i).entries)
    (hcwd : s'.cwd = s.cwd) (p : ProcSlot) (parent : Bool) (path : Path) :
    s'.find p parent path = s.find p parent path := by
  unfold find start
  rw [hcwd]
  congr 1
  funext i
  exact resolve_congr h parent i _

theorem relink_same (N : Nodes) (i : Nat) (δ : Int16) (j : Nat) :
    (relink N i δ j).type = (N j).type ∧ (relink N i δ j).entries = (N j).entries := by
  by_cases he : j = i
  · subst he
    simp [relink]
  · simp [relink, he]

theorem relink_undo (N : Nodes) (i : Nat) : relink (relink N i 1) i (-1) = N := by
  have hn : (N i).nlink + 1 + -1 = (N i).nlink := by
    rw [Int16.add_assoc]
    simp
  simp [relink, hn]

def Targets (s : NsState) (p : ProcSlot) (paths : List Path) (d : Nat) : Prop :=
  ∃ path ∈ paths, ∃ name, s.find p true path = some (d, name)

structure Done (P : Nat → Prop) (s₀ : NsState) (H : List Nat) (s : NsState) : Prop where
  acct : Acct s₀ H [] s
  effects : Effects P s₀.node s.node

theorem Done.of_same (h : Acct s₀ H [] s) (hn : s.node = s₀.node) : Done P s₀ H s := by
  refine ⟨h, ?_⟩
  rw [hn]
  exact .refl _

theorem unlock_done (hs : Idle s₀) (h : Acct s₀ [i] [i] s) (hn : s.node = s₀.node) (r : α) :
    wp E (do
      iunlockput i
      pure r) s (fun _ s' => Done P s₀ [] s') := by
  apply (iunlockput_same h hn hs.acct.settled).bind
  intro _ s₁ ⟨h₁, hn₁⟩
  exact .of_same h₁ hn₁

theorem linkBad_spec (hE : Tolerant E) (hs : Idle s₀) (h : Acct s₀ [ip] [] s)
    (hn : s.node = relink s₀.node ip 1) :
    wp E (linkBad ip) s (fun _ s' => Done P s₀ [] s') := by
  unfold linkBad
  apply (ilock_first hE h hn).bind
  intro _ s₁ ⟨h₁, hn₁, _⟩
  apply (addLink_spec h₁ (by simp) (-1)).bind
  intro _ s₂ ⟨h₂, hn₂⟩
  rw [hn₁, relink_undo] at hn₂
  exact unlock_done hs h₂ hn₂ _

def LinkPlaces (s : NsState) (p : ProcSlot) (old new : Path) (d : Nat) : Prop :=
  Targets s p [new] d ∨ d ∈ s.walk p old

theorem named_of_resolve (h : resolve N false i names = some (j, name)) :
    j = i ∨ ∃ d ∈ visits N false i names, Names N d j := by
  induction names generalizing i with
  | nil =>
    cases h
    exact .inl rfl
  | cons nm rest ih =>
    unfold resolve at h
    unfold visits
    split at h
    · cases h
    rename_i hdir
    have hnot : ¬ ((N i).type ≠ .dir ∨ (false = true ∧ rest = [])) := by simpa using hdir
    rw [if_neg (by simp)] at h
    rw [if_neg hnot]
    cases hs : slotOf (N i).entries nm with
    | none =>
      rw [hs] at h
      cases h
    | some k =>
      rw [hs] at h
      simp only at h ⊢
      obtain hj | ⟨d, hd, hnames⟩ := ih h
      · subst hj
        exact .inr ⟨i, List.mem_cons_self .., Classical.not_not.1 hdir, nm, k, hs, rfl⟩
      · exact .inr ⟨d, List.mem_cons_of_mem _ hd, hnames⟩

theorem NsState.named_of_find (h : s.find p false path = some (j, name)) :
    j ∈ s.walk p path ∨ ∃ d ∈ s.walk p path, Names s.node d j := by
  obtain ⟨i, hi, hr⟩ := Option.bind_eq_some_iff.1 h
  unfold walk
  rw [passes_eq hi, hi]
  obtain hj | ⟨d, hd, hnames⟩ := named_of_resolve hr
  · subst hj
    exact .inl (by simp)
  · exact .inr ⟨d, List.mem_append_right _ hd, hnames⟩

theorem sysLink_spec (hE : Tolerant E) (hs : Idle s) (p : ProcSlot) (old new : Path) :
    wp E (sysLink p old new) s (fun _ s' => Done (LinkPlaces s p old new) s [] s') := by
  unfold sysLink
  rw [wp_ite]
  split
  · exact .of_same hs.acct rfl
  apply (namei_spec hE hs.seated hs.acct p old).bind
  intro r s₁ ⟨hn₁, hr⟩
  cases r with
  | none => exact .of_same hr.2 hn₁
  | some ip =>
    apply (ilock_first hE hr.2 hn₁).bind
    intro _ s₂ ⟨h₂, hN₂, hfree⟩
    rw [wp_bind, wp_getNode, wp_ite, hN₂]
    split
    · exact unlock_done hs h₂ hN₂ _
    rename_i hdir
    apply (addLink_spec h₂ (by simp) 1).bind
    intro _ s₃ ⟨h₃, hn₃⟩
    apply (iunlock_spec h₃).bind
    intro _ s₄ ⟨h₄, hn₄⟩
    have hN₄ : s₄.node = relink s.node ip 1 := by rw [hn₄, hn₃, hN₂]
    have hfind : s₄.find p true new = s.find p true new := by
      apply NsState.find_congr
      · rw [hN₄]
        exact relink_same s.node ip 1
      · exact h₄.cwd
    apply (nameiparent_spec hE hs.seated h₄ p new (fun j _ hj => nomatch hj)).bind
    intro r s₅ ⟨hn₅, _, hr₅⟩
    cases r with
    | none => exact linkBad_spec hE hs hr₅.2 (hn₅.trans hN₄)
    | some x =>
      obtain ⟨dp, name⟩ := x
      obtain ⟨hdp, h₅⟩ := hr₅
      apply (ilock_first hE h₅ (hn₅.trans hN₄)).bind
      intro _ s₆ ⟨h₆, hN₆, _⟩
      apply (dirlink_spec hE h₆ (by simp) name ip).bind
      intro r s₇ ⟨h₇, hdpdir, hr₇⟩
      rw [hN₆] at hdpdir
      rw [(relink_same s.node ip 1 dp).1] at hdpdir
      have hne : dp ≠ ip := by
        intro he
        rw [he] at hdpdir
        exact hdir hdpdir
      cases r with
      | false =>
        have hn₇ : s₇.node = relink s.node ip 1 := hr₇.trans hN₆
        apply (iunlockput_spec h₇).bind
        intro _ s₈ ⟨h₈, hn₈⟩
        apply linkBad_spec hE hs h₈
        rw [hn₈, hn₇]
        apply drop_eq_self
        intro hz
        have hz' : (s.node dp).nlink = 0 := by simpa [relink, hne] using hz
        rw [(relink_same s.node ip 1 dp).1]
        obtain hf | hr := hs.acct.settled dp hz'
        · exact .inl hf
        · exact .inr (by simp at hr ⊢; omega)
      | true =>
        obtain ⟨habsent, hn₇⟩ := hr₇
        rw [hN₆] at habsent hn₇
        rw [(relink_same s.node ip 1 dp).2] at habsent
        have hplace : LinkPlaces s p old new dp := .inl ⟨new, by simp, name, hfind ▸ hdp⟩
        have hfrom : LinkPlaces s p old new ip ∨
            ∃ d, LinkPlaces s p old new d ∧ Names s.node d ip :=
          (NsState.named_of_find hr.1).imp .inr fun ⟨d, hd, hnames⟩ => ⟨d, .inr hd, hnames⟩
        have hstep : Step (LinkPlaces s p old new) s.node
            (linkName (relink s.node ip 1) dp name ip) :=
          .link hplace hdpdir habsent hfree hdir hfrom
        rw [← hn₇] at hstep
        apply (iunlockput_effects h₇ (.single hstep)).bind
        intro _ s₈ ⟨h₈, heff⟩
        apply (iput_spec h₈ (fun hj => nomatch hj)).bind
        intro _ s₉ ⟨h₉, hn₉⟩
        refine ⟨h₉, ?_⟩
        rw [hn₉]
        exact heff.drop _ _ _

theorem relink_drop (hne : d ≠ i) (ref : Nat → Nat) (H : List Nat) (N : Nodes) (δ : Int16) :
    relink (drop ref H N d) i δ = drop ref H (relink N i δ) d := by
  have hd : relink N i δ d = N d := by simp [relink, hne]
  unfold Ns.drop
  rw [hd]
  split
  · funext j
    by_cases hj : j = i
    · subst hj
      simp [relink, Ne.symm hne]
    · by_cases hj' : j = d
      · subst hj'
        simp [relink, hne]
      · simp [relink, hj, hj']
  · rfl

theorem sysUnlink_spec (hE : Tolerant E) (hd : E .deadlock) (hs : Idle s) (p : ProcSlot)
    (path : Path) : wp E (sysUnlink p path) s (fun _ s' => Done P s [] s') := by
  unfold sysUnlink
  rw [wp_ite]
  split
  · exact .of_same hs.acct rfl
  apply (nameiparent_spec hE hs.seated hs.acct p path (fun j _ hj => nomatch hj)).bind
  intro r s₁ ⟨hn₁, _, hr⟩
  cases r with
  | none => exact .of_same hr.2 hn₁
  | some x =>
    obtain ⟨dp, name⟩ := x
    apply (ilock_first hE hr.2 hn₁).bind
    intro _ s₂ ⟨h₂, hN₂, _⟩
    rw [wp_ite]
    split
    · exact unlock_done hs h₂ hN₂ _
    rename_i hname
    apply (dirlookup_spec hE h₂ dp name).bind
    intro r s₃ ⟨hn₃, hdir, hr₃⟩
    have hN₃ : s₃.node = s.node := hn₃.trans hN₂
    cases r with
    | none => exact unlock_done hs hr₃.2 hN₃ _
    | some x =>
      obtain ⟨ip, k⟩ := x
      obtain ⟨hslot, hinum, h₃⟩ := hr₃
      rw [hN₂] at hdir hslot hinum
      have hentry : Entry s.node dp name k ip :=
        ⟨hdir, by simpa [isDots] using hname, hslot, hinum⟩
      apply (ilock_spec hE h₃ (by simp) (fun _ => hd)).bind
      intro _ s₄ ⟨h₄, hn₄, hfree⟩
      have hN₄ : s₄.node = s.node := hn₄.trans hN₃
      rw [hN₃] at hfree
      have hne : dp ≠ ip := by
        have := h₄.not_mem_lock
        simpa [eq_comm] using this
      rw [wp_bind, wp_getNode, hN₄, wp_ite]
      split
      · exact hE _ (by simp)
      rename_i hlinks
      rw [wp_ite]
      split
      · apply (iunlockput_same h₄ hN₄ (hs.acct.settled.cons dp)).bind
        intro _ s₅ ⟨h₅, hn₅⟩
        exact unlock_done hs h₅ hn₅ _
      rename_i hempty
      apply (writeSlot_spec h₄ (by simp) k .empty).bind
      intro _ s₅ ⟨h₅, hn₅⟩
      apply (addParentLink_spec h₅ (by simp) _ (-1)).bind
      intro _ s₆ ⟨h₆, hn₆⟩
      apply (iunlockput_spec h₆.swap.swap_lock).bind
      intro _ s₇ ⟨h₇, hn₇⟩
      apply (addLink_spec h₇ (by simp) (-1)).bind
      intro _ s₈ ⟨h₈, hn₈⟩
      apply (iunlockput_spec h₈).bind
      intro _ s₉ ⟨h₉, hn₉⟩
      have hstep : Step P s.node (unlinked s.node dp k ip) :=
        .unlink hentry hne hfree (Int16.not_lt.1 hlinks) (by
          intro ht
          simpa [ht] using hempty)
      have heff : Effects P s.node (unlinked s.node dp k ip) := .single hstep
      refine ⟨h₉, ?_⟩
      rw [hn₉, hn₈, hn₇, relink_drop hne, hn₆, hn₅, hN₄]
      exact (heff.drop _ _ _).drop _ _ _

end OopsOS.Ns
