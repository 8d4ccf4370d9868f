import OopsOS.NameRename

namespace OopsOS.Ns
set_option autoImplicit true

variable {s s₀ s' : NsState} {E : Stop → Prop} {H L : List Nat} {i : Nat} {N M : Nodes}
  {P : Nat → Prop}

def NsState.chase (s : NsState) (p : ProcSlot) : Nat → Nat → Option Nat
  | 0, ip => some ip
  | n + 1, ip =>
    match (s.node ip).target with
    | none => none
    | some path =>
      match s.find p false path with
      | none => none
      | some (ip', _) =>
        if (s.node ip').type = .symlink then s.chase p n ip' else some ip'

def NsState.first (s : NsState) (p : ProcSlot) (path : Path) (omode : UInt32) : Option Nat :=
  match s.find p false path with
  | none => none
  | some (ip, _) => if (s.node ip).type = .dir ∧ omode ≠ O_RDONLY then none else some ip

def NsState.last (s : NsState) (p : ProcSlot) (ip : Nat) (omode : UInt32) : Option Nat :=
  if (s.node ip).type = .device ∧ ((s.node ip).major < 0 ∨ NDEV ≤ (s.node ip).major) then
    none
  else if (s.node ip).type = .symlink ∧ has omode O_NOFOLLOW = false then
    match s.chase p MAX_SYMLINK_DEPTH ip with
    | none => none
    | some d => if (s.node d).type = .symlink then none else some d
  else
    some ip

def NsState.opened (s : NsState) (p : ProcSlot) (path : Path) (omode : UInt32) : Option Nat :=
  (s.first p path omode).bind (fun ip => s.last p ip omode)

theorem NsState.find_eq (hn : s'.node = s.node) (hcwd : s'.cwd = s.cwd) (p : ProcSlot)
    (parent : Bool) (path : Path) : s'.find p parent path = s.find p parent path := by
  unfold find start
  rw [hn, hcwd]

theorem NsState.chase_congr (hn : s'.node = s.node) (hcwd : s'.cwd = s.cwd) (p : ProcSlot)
    (n ip : Nat) : s'.chase p n ip = s.chase p n ip := by
  induction n generalizing ip with
  | zero => rfl
  | succ n ih =>
    unfold chase
    rw [hn]
    split
    · rfl
    · rename_i path _
      rw [find_eq hn hcwd]
      split
      · rfl
      · rw [ih]

theorem NsState.last_congr (hn : s'.node = s.node) (hcwd : s'.cwd = s.cwd) (p : ProcSlot)
    (ip : Nat) (omode : UInt32) : s'.last p ip omode = s.last p ip omode := by
  unfold last
  rw [hn, chase_congr hn hcwd]

theorem NsState.eq_of_last (hns : (s.node ip).type ≠ .symlink)
    (h : s.last p ip omode = some d) : d = ip := by
  unfold last at h
  split at h
  · cases h
  · rw [if_neg (fun hc => hns hc.1)] at h
    cases h
    rfl

theorem follow_spec (hE : Tolerant E) (hc : Seated s₀) (n : Nat) (h : Acct s₀ [ip] [ip] s)
    (hset : Settled s₀ [] s.node) (p : ProcSlot) :
    wp E (follow p n ip) s (fun r s' => s'.node = s.node ∧ r = s.chase p n ip ∧
      match r with
      | none => Acct s₀ [] [] s'
      | some d => Acct s₀ [d] [d] s') := by
  induction n generalizing ip s with
  | zero => exact ⟨rfl, rfl, h⟩
  | succ n ih =>
    unfold follow NsState.chase
    rw [wp_bind, wp_getNode]
    cases htarget : (s.node ip).target with
    | none =>
      apply (iunlockput_same h rfl hset).bind
      intro _ s₁ ⟨h₁, hn₁⟩
      exact ⟨hn₁, rfl, h₁⟩
    | some path =>
      apply (iunlockput_same h rfl hset).bind
      intro _ s₁ ⟨h₁, hn₁⟩
      have hcwd₁ : s₁.cwd = s.cwd := h₁.cwd.trans h.cwd.symm
      apply (namei_spec hE hc h₁ p path).bind
      intro r s₂ ⟨hn₂, hr⟩
      rw [NsState.find_eq hn₁ hcwd₁] at hr
      have hN₂ : s₂.node = s.node := hn₂.trans hn₁
      cases r with
      | none => exact ⟨hN₂, by simp [hr.1], hr.2⟩
      | some ip' =>
        apply (ilock_first hE hr.2 hN₂).bind
        intro _ s₃ ⟨h₃, hN₃, _⟩
        have hcwd₃ : s₃.cwd = s.cwd := h₃.cwd.trans h.cwd.symm
        simp only [hr.1]
        rw [wp_bind, wp_getNode, hN₃, wp_ite]
        split
        · rename_i hsym
          have hrest := ih h₃ (hN₃ ▸ hset)
          rw [hN₃, NsState.chase_congr hN₃ hcwd₃] at hrest
          exact hrest
        · exact ⟨hN₃, rfl, h₃⟩

theorem openLast_spec (hE : Tolerant E) (hc : Seated s₀) (h : Acct s₀ [ip] [ip] s)
    (hset : Settled s₀ [] s.node ∨ (s.node ip).type ≠ .symlink) (p : ProcSlot) (omode : UInt32) :
    wp E (openLast p ip omode) s (fun r s' => r = s.last p ip omode ∧
      match r with
      | none => Acct s₀ [] [] s' ∧ Settles s.node s'.node
      | some d => Acct s₀ [d] [d] s' ∧ s'.node = s.node) := by
  unfold openLast NsState.last
  rw [wp_bind, wp_getNode, wp_ite]
  split
  · apply (iunlockput_spec h).bind
    intro _ s₁ ⟨h₁, hn₁⟩
    refine ⟨rfl, h₁, ?_⟩
    rw [hn₁]
    exact (Settles.refl _).drop _ _ _
  rw [wp_ite]
  split
  · rename_i hsym
    have hset' : Settled s₀ [] s.node := by
      obtain hset | hns := hset
      · exact hset
      · exact absurd hsym.1 hns
    apply (follow_spec hE hc MAX_SYMLINK_DEPTH h hset' p).bind
    intro r s₁ ⟨hn₁, hr, h₁⟩
    cases r with
    | none =>
      rw [← hr]
      refine ⟨rfl, h₁, ?_⟩
      rw [hn₁]
      exact .refl _
    | some d =>
      simp only [← hr]
      rw [wp_bind, wp_getNode, hn₁, wp_ite]
      split
      · apply (iunlockput_spec h₁).bind
        intro _ s₂ ⟨h₂, hn₂⟩
        refine ⟨rfl, h₂, ?_⟩
        rw [hn₂, hn₁]
        exact (Settles.refl _).drop _ _ _
      · exact ⟨rfl, h₁, hn₁⟩
  · exact ⟨rfl, h, rfl⟩

theorem linkName_of_ne (hne : i ≠ d) (N : Nodes) (name : Name) (j : Nat) :
    linkName N d name j i = N i := putEntry_of_ne hne _ _ _

theorem Made.ne (h : Made s p path ty dp ip name) : dp ≠ ip := by
  intro he
  have hd := h.dir
  rw [he, h.free.1] at hd
  cases hd

theorem drop_of_ne (hne : j ≠ i) (ref : Nat → Nat) (H : List Nat) (N : Nodes) :
    drop ref H N i j = N j := by
  unfold Ns.drop
  split
  · exact Function.update_of_ne hne _ _
  · rfl

theorem made_type (h : Made s p path ty dp ip name) (major minor : Int16) :
    (made s.node dp ip name (fresh ty major minor) ip).type = ty := by
  have hne := Ne.symm h.ne
  unfold made
  rw [linkName_of_ne hne, dotted]
  split
  · simp [linkName, putEntry, relink, hne, fresh]
  · simp [fresh]

theorem Made.step (h : Made s p path ty dp ip name) (major minor : Int16) :
    Effects (Targets s p [path]) s.node (made s.node dp ip name (fresh ty major minor)) :=
  .single (.make ⟨path, by simp, name, h.find⟩ h.dir h.absent h.free.1 h.free.2.1 h.free.2.2
    h.type)

def newPaths (path : Path) (omode : UInt32) : List Path :=
  if has omode O_CREATE then [path] else []

theorem openFirst_spec (hE : Tolerant E) (hs : Idle s) (p : ProcSlot) (path : Path)
    (omode : UInt32) :
    wp E (openFirst p path omode) s (fun r s' =>
      match r with
      | none => Acct s [] [] s' ∧ s'.node = s.node ∧
          (has omode O_CREATE = false → s.first p path omode = none)
      | some ip => Acct s [ip] [ip] s' ∧ Effects (Targets s p (newPaths path omode)) s.node
        s'.node ∧
          if has omode O_CREATE then (s'.node ip).type = .file ∨ (s'.node ip).type = .device
          else s'.node = s.node ∧ s.first p path omode = some ip) := by
  unfold openFirst
  rw [wp_ite]
  split
  · rename_i hcreate
    apply (create_spec hE hs.seated hs.acct p path .file 0 0).mono
    intro r s₁ hr
    cases r with
    | none => exact ⟨hr.1, hr.2, fun hf => absurd (hf.symm.trans hcreate) (by simp)⟩
    | some ip =>
      obtain ⟨h₁, ⟨hn₁, _, ht⟩ | ⟨dp, name, hmade, hn₁⟩⟩ := hr
      · refine ⟨h₁, ?_, ?_⟩
        · rw [hn₁]
          exact .refl _
        · rw [hn₁]
          exact ht
      · refine ⟨h₁, ?_, ?_⟩
        · rw [hn₁, newPaths, if_pos hcreate]
          exact (hmade.step 0 0).drop _ _ _
        · rw [hn₁, drop_of_ne (Ne.symm hmade.ne), made_type hmade]
          exact .inl rfl
  · rename_i hcreate
    unfold NsState.first
    apply (namei_spec hE hs.seated hs.acct p path).bind
    intro r s₁ ⟨hn₁, hr⟩
    cases r with
    | none => exact ⟨hr.2, hn₁, fun _ => by rw [hr.1]⟩
    | some ip =>
      apply (ilock_first hE hr.2 hn₁).bind
      intro _ s₂ ⟨h₂, hN₂, _⟩
      rw [wp_bind, wp_getNode, hN₂, wp_ite]
      split
      · rename_i hdir
        apply (iunlockput_same h₂ hN₂ hs.acct.settled).bind
        intro _ s₃ ⟨h₃, hn₃⟩
        refine ⟨h₃, hn₃, fun _ => ?_⟩
        simp only [hr.1, if_pos hdir]
      · rename_i hdir
        refine ⟨h₂, ?_, ?_⟩
        · rw [hN₂]
          exact .refl _
        · refine ⟨hN₂, ?_⟩
          simp only [hr.1, if_neg hdir]

theorem Acct.install (h : Acct s₀ H L s) (p : ProcSlot) (f : FileSlot) (fd : Fd)
    (file : OpenFile) : Acct (s₀.install p f fd file) H L (s.install p f fd file) where
  __ := h
  files := by
    simp only [NsState.install]
    rw [h.files]
  ofile := by
    simp only [NsState.install]
    rw [h.ofile]

/-- The outcome of an open: a file in a slot that was free, or no change of the file table. -/
inductive Opens (s : NsState) (p : ProcSlot) (path : Path) (omode : UInt32) (s' : NsState) : Prop
  | fails (h : Done (Targets s p (newPaths path omode)) s [] s')
      (hno : argstr path = true → has omode O_CREATE = false → s.freeFile.isSome →
        (s.freeFd p).isSome → s.opened p path omode = none)
  | opens (f : FileSlot) (fd : Fd) (ip : Nat) (type : InodeType)
      (harg : argstr path = true) (hf : s.freeFile = some f) (hfd : s.freeFd p = some fd)
      (h : Acct (s.install p f fd (fileFor ip type omode)) [ip] [] s')
      (heff : Effects (Targets s p (newPaths path omode)) s.node s'.node)
        (ht : (s'.node ip).type = type)
      (hfree : type ≠ .free)
      (hip : if has omode O_CREATE then type = .file ∨ type = .device
        else s'.node = s.node ∧ s.opened p path omode = some ip)

theorem NsState.freeFile_congr (h : s'.files = s.files) : s'.freeFile = s.freeFile := by
  unfold freeFile
  rw [h]

theorem NsState.freeFd_congr (h : s'.ofile = s.ofile) (p : ProcSlot) :
    s'.freeFd p = s.freeFd p := by
  unfold freeFd
  rw [h]

theorem sysOpen_spec (hE : Tolerant E) (hs : Idle s) (p : ProcSlot) (path : Path)
    (omode : UInt32) : wp E (sysOpen p path omode) s (fun _ s' => Opens s p path omode s') := by
  unfold sysOpen
  rw [wp_ite]
  split
  · rename_i harg
    exact .fails (.of_same hs.acct rfl) fun ha => absurd ha harg
  rename_i harg
  apply (openFirst_spec hE hs p path omode).bind
  intro r s₁ hr₁
  cases r with
  | none =>
    obtain ⟨h₁, hn₁, hnone⟩ := hr₁
    refine .fails (.of_same h₁ hn₁) ?_
    intro _ hc _ _
    rw [NsState.opened, hnone hc]
    rfl
  | some ip₀ =>
    obtain ⟨h₁, heff₁, hcase⟩ := hr₁
    have hset : Settled s [] s₁.node ∨ (s₁.node ip₀).type ≠ .symlink := by
      split at hcase
      · right
        obtain ht | ht := hcase
        · simp [ht]
        · simp [ht]
      · left
        rw [hcase.1]
        exact hs.acct.settled
    apply (openLast_spec hE hs.seated h₁ hset p omode).bind
    intro r s₂ ⟨hr, hr₂⟩
    have hopened : has omode O_CREATE = false → s.opened p path omode = r := by
      intro hc
      rw [hc] at hcase
      obtain ⟨hn₁, hfirst⟩ := hcase
      rw [NsState.opened, hfirst, hr, NsState.last_congr hn₁ h₁.cwd]
      rfl
    cases r with
    | none =>
      refine .fails ⟨hr₂.1, heff₁.settles hr₂.2⟩ ?_
      intro _ hc _ _
      exact hopened hc
    | some ip =>
      obtain ⟨h₂, hn₂⟩ := hr₂
      have heff₂ : Effects (Targets s p (newPaths path omode)) s.node s₂.node := by
        rw [hn₂]
        exact heff₁
      have hmem := h₂.owned ip (by simp)
      rw [wp_bind, wp_get, NsState.freeFile_congr h₂.files, NsState.freeFd_congr h₂.ofile]
      have hfail : (s.freeFile.isSome → (s.freeFd p).isSome → False) →
          wp E (do
            iunlockput ip
            pure (-1 : Int)) s₂ (fun _ s' => Opens s p path omode s') := by
        intro hfull
        apply (iunlockput_effects h₂ heff₂).bind
        intro _ s₃ ⟨h₃, heff₃⟩
        exact .fails ⟨h₃, heff₃⟩ fun _ _ hf hfd => absurd hfd (hfull hf)
      cases hf : s.freeFile with
      | none => exact hfail (by simp [hf])
      | some f =>
        cases hfd : s.freeFd p with
        | none => exact hfail (by simp [hfd])
        | some fd =>
          rw [wp_bind, wp_set]
          apply (iunlock_spec (h₂.install p f fd _)).bind
          intro _ s₄ ⟨h₄, hn₄⟩
          have hn₄' : s₄.node = s₂.node := hn₄
          have hfree : (s₂.node ip).type ≠ .free := h₂.loaded ip (h₂.ref_pos hmem.1) hmem.2
          refine .opens f fd ip (s₂.node ip).type (Classical.not_not.1 harg) hf hfd h₄ ?_ ?_ hfree
            ?_
          · rw [hn₄']
            exact heff₂
          · rw [hn₄']
          · split
            · rename_i hc
              rw [hc] at hcase
              have hns : (s₁.node ip₀).type ≠ .symlink := by
                obtain ht | ht := hcase
                · simp [ht]
                · simp [ht]
              rw [NsState.eq_of_last hns hr.symm, hn₂]
              exact hcase
            · rename_i hc
              have hc' : has omode O_CREATE = false := by simpa using hc
              rw [hc'] at hcase
              exact ⟨(hn₄'.trans hn₂).trans hcase.1, hopened hc'⟩

end OopsOS.Ns
