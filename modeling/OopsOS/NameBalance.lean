import Mathlib.Algebra.BigOperators.Group.Finset.Piecewise
import Mathlib.Algebra.Order.BigOperators.Group.Finset
import OopsOS.Family
import OopsOS.NameOpen

namespace OopsOS.Ns
set_option autoImplicit true
open Function
attribute [local grind =] update_apply

variable {s s₀ s' b : NsState} {E : Stop → Prop} {H L : List Nat} {i : Nat} {N M : Nodes}
  {P : Nat → Prop}

def FcloneClash (s : NsState) (p : ProcSlot) (src dst : Path) : Prop :=
  argstr src = true ∧ argstr dst = true ∧ ∃ ip, s.find p false src = some (ip, []) ∧
    (s.node ip).type = .file ∧ ip ∈ s.passes p true dst

theorem NsState.passes_congr (hn : s'.node = s.node) (hcwd : s'.cwd = s.cwd) (p : ProcSlot)
    (parent : Bool) (path : Path) : s'.passes p parent path = s.passes p parent path := by
  unfold passes start
  rw [hn, hcwd]

theorem Acct.rebase (h : Acct s₀ H L s) (hnode : b.node = s₀.node)
    (href : ∀ i, b.ref i + K.count i = s₀.ref i) :
    Acct b (K ++ H) L { s with files := b.files, ofile := b.ofile, cwd := b.cwd } where
  __ := h
  ref i := by
    have h1 := h.ref i
    have h2 := href i
    rw [List.count_append]
    change s.ref i = _
    omega
  owned j hj := ⟨List.mem_append_right _ (h.owned j hj).1, (h.owned j hj).2⟩
  type j hj hf := by
    have := href j
    rw [hnode] at hf ⊢
    exact h.type j (by omega) hf
  files := rfl
  ofile := rfl
  cwd := rfl

inductive Chdirs (s : NsState) (p : ProcSlot) (s' : NsState) : Prop
  | fails (h : Done (fun _ => False) s [] s')
  | moves (c ip : Nat) (hc : s.cwd p = some c)
      (h : Acct { s.setRef c (s.ref c - 1) with cwd := update s.cwd p (some ip) } [ip] []
        s')
      (heff : Effects (fun _ => False) s.node s'.node)

theorem sub_count (h : 0 < s.ref c) (i : Nat) :
    (s.setRef c (s.ref c - 1)).ref i + [c].count i = s.ref i := by
  rw [count_cons_eq]
  by_cases he : i = c
  · subst he
    simp
    omega
  · simp [he]

/-- Closing a descriptor drops a reference to its file, and with the last one to its inode. -/
inductive Closes (s : NsState) (p : ProcSlot) (fd : Fd) (s' : NsState) : Prop
  | fails (hfd : s.ofile p fd = none) (h : s' = s)
  | shared (f : FileSlot) (file : OpenFile) (hfile : s.files f = some file)
      (h : Acct { s with
        files := update s.files f (some { file with ref := file.ref - 1 })
        ofile := update s.ofile p (update (s.ofile p) fd none) } [] [] s')
      (hn : s'.node = s.node)
  | last (f : FileSlot) (file : OpenFile) (hfile : s.files f = some file)
      (h : Acct { s.setRef file.ip (s.ref file.ip - 1) with
        files := update s.files f none
        ofile := update s.ofile p (update (s.ofile p) fd none) } [] [] s')
      (heff : Effects (fun _ => False) s.node s'.node)

section
variable (hE : Tolerant E)
include hE

theorem sysMake_spec (hs : Idle s) (p : ProcSlot) (path : Path) (type : InodeType)
    (major minor : Int16) :
    wp E (sysMake p path type major minor) s (fun _ s' => Done (Targets s p [path]) s [] s') := by
  unfold sysMake
  rw [wp_ite]
  split
  · exact .of_same hs.acct rfl
  apply (create_spec hE hs.seated hs.acct p path type major minor).bind
  intro r s₁ hr
  cases r with
  | none => exact .of_same hr.1 hr.2
  | some ip =>
    obtain ⟨h₁, hcase⟩ := hr
    have heff : Effects (Targets s p [path]) s.node s₁.node := by
      obtain ⟨hn₁, _⟩ | ⟨dp, name, hmade, hn₁⟩ := hcase
      · rw [hn₁]
        exact .refl _
      · rw [hn₁]
        exact (hmade.step major minor).drop _ _ _
    apply (iunlockput_effects h₁ heff).bind
    intro _ s₂ ⟨h₂, heff₂⟩
    exact ⟨h₂, heff₂⟩

theorem sysSymlink_spec (hs : Idle s) (p : ProcSlot) (target path : Path) :
    wp E (sysSymlink p target path) s (fun _ s' => Done (Targets s p [path]) s [] s') := by
  unfold sysSymlink
  rw [wp_ite]
  split
  · exact .of_same hs.acct rfl
  apply (create_spec hE hs.seated hs.acct p path .symlink 0 0).bind
  intro r s₁ hr
  cases r with
  | none => exact .of_same hr.1 hr.2
  | some ip =>
    obtain ⟨h₁, ⟨_, hfile, _⟩ | ⟨dp, name, hmade, hn₁⟩⟩ := hr
    · cases hfile
    have htype : (s₁.node ip).type = .symlink := by
      rw [hn₁, drop_of_ne (Ne.symm hmade.ne), made_type hmade]
    have heff : Effects (Targets s p [path]) s.node s₁.node := by
      rw [hn₁]
      exact (hmade.step 0 0).drop _ _ _
    rw [wp_bind, wp_getNode, wp_bind, setNode, wp_modify]
    have h₂ := h₁.write (n := { s₁.node ip with target := some target }) (by simp) rfl
    apply (iunlockput_effects h₂ (heff.settles (.single (.target htype)))).bind
    rintro _ s₃ ⟨h₃, heff₃⟩
    exact ⟨h₃, heff₃⟩

theorem sysFclone_spec (hs : Idle s) (p : ProcSlot) (src dst : Path)
    (hd : FcloneClash s p src dst → E .deadlock) :
    wp E (sysFclone p src dst) s (fun _ s' => Done (Targets s p [dst]) s [] s' ∧
      ¬ FcloneClash s p src dst) := by
  have hset := hs.acct.settled
  unfold sysFclone
  rw [wp_ite]
  split
  · rename_i harg
    exact ⟨.of_same hs.acct rfl, fun hc => harg ⟨hc.1, hc.2.1⟩⟩
  rename_i harg
  have harg' := Classical.not_not.1 harg
  apply (namei_spec hE hs.seated hs.acct p src).bind
  intro r s₁ ⟨hn₁, hr⟩
  cases r with
  | none =>
    refine ⟨.of_same hr.2 hn₁, ?_⟩
    intro ⟨_, _, ip, hfind, _⟩
    rw [hr.1] at hfind
    cases hfind
  | some ip =>
    obtain ⟨hfind, h₁⟩ := hr
    apply (ilock_first hE h₁ hn₁).bind
    intro _ s₂ ⟨h₂, hN₂, _⟩
    rw [wp_bind, wp_getNode, hN₂, wp_ite]
    split
    · rename_i hfile
      apply (iunlockput_same h₂ hN₂ hset).bind
      intro _ s₃ ⟨h₃, hn₃⟩
      refine ⟨.of_same h₃ hn₃, ?_⟩
      intro ⟨_, _, ip', hfind', ht, _⟩
      rw [hfind] at hfind'
      cases hfind'
      exact hfile ht
    rename_i hfile
    have ht : (s.node ip).type = .file := Classical.not_not.1 hfile
    have hpass : s₂.passes p true dst = s.passes p true dst :=
      NsState.passes_congr hN₂ h₂.cwd p true dst
    have hd₂ : ∀ j ∈ s₂.passes p true dst, j ∈ [ip] → E .deadlock := by
      intro j hj hm
      rw [List.mem_singleton.1 hm, hpass] at hj
      exact hd ⟨harg'.1, harg'.2, ip, hfind, ht, hj⟩
    apply (createExclusive_spec hE hs.seated h₂ p dst 0 0 hd₂).bind
    intro r s₃ ⟨hv, hr⟩
    have hclash : ¬ FcloneClash s p src dst := by
      intro ⟨_, _, ip', hfind', _, hm⟩
      rw [hfind] at hfind'
      cases hfind'
      exact hv ip (hpass ▸ hm) (by simp)
    cases r with
    | none =>
      obtain ⟨h₃, hn₃⟩ := hr
      apply (iunlockput_same h₃ (hn₃.trans hN₂) hset).bind
      intro _ s₄ ⟨h₄, hn₄⟩
      exact ⟨.of_same h₄ hn₄, hclash⟩
    | some ipDst =>
      obtain ⟨h₃, dp, name, hmade, hn₃⟩ := hr
      have hmade' : Made s p dst .file dp ipDst name := by
        obtain ⟨m1, m2, m3, m4, m5⟩ := hmade
        rw [NsState.find_eq hN₂ h₂.cwd] at m1
        rw [hN₂] at m2 m3 m4
        exact ⟨m1, m2, m3, m4, m5⟩
      have heff : Effects (Targets s p [dst]) s.node s₃.node := by
        rw [hn₃, hN₂]
        exact (hmade'.step 0 0).drop _ _ _
      apply (iunlockput_effects h₃ heff).bind
      intro _ s₄ ⟨h₄, heff₄⟩
      apply (iunlockput_effects h₄ heff₄).bind
      intro _ s₅ ⟨h₅, heff₅⟩
      exact ⟨⟨h₅, heff₅⟩, hclash⟩

theorem sysTruncate_spec (hs : Idle s) (p : ProcSlot) (path : Path)
    (length : Int) : wp E (sysTruncate p path length) s (fun _ s' => Done P s [] s') := by
  unfold sysTruncate
  rw [wp_ite]
  split
  · exact .of_same hs.acct rfl
  apply (namei_spec hE hs.seated hs.acct p path).bind
  intro r s₁ ⟨hn₁, hr⟩
  cases r with
  | none => exact .of_same hr.2 hn₁
  | some ip =>
    apply (ilock_first hE hr.2 hn₁).bind
    intro _ s₂ ⟨h₂, hN₂, _⟩
    rw [wp_bind, wp_getNode, wp_ite]
    split <;> exact unlock_done hs h₂ hN₂ _

theorem sysDedup_spec (hs : Idle s) (p : ProcSlot) (srcpath dstpath : Path) :
    wp E (sysDedup p srcpath dstpath) s (fun _ s' => Done P s [] s') := by
  have hset := hs.acct.settled
  unfold sysDedup
  rw [wp_ite]
  split
  · exact .of_same hs.acct rfl
  rw [wp_ite]
  split
  · exact .of_same hs.acct rfl
  apply (namei_spec hE hs.seated hs.acct p srcpath).bind
  intro r s₁ ⟨hn₁, hr⟩
  cases r with
  | none => exact .of_same hr.2 hn₁
  | some src =>
    obtain ⟨_, h₁⟩ := hr
    apply (namei_spec hE hs.seated h₁ p dstpath).bind
    intro r s₂ ⟨hn₂, hr⟩
    have hN₂ : s₂.node = s.node := hn₂.trans hn₁
    cases r with
    | none =>
      apply (iput_same hr.2 hN₂ hset (by simp)).bind
      intro _ s₃ ⟨h₃, hn₃⟩
      exact .of_same h₃ hn₃
    | some dst =>
      obtain ⟨_, h₂⟩ := hr
      rw [wp_ite]
      split
      · apply (iput_same h₂.swap hN₂ (hset.cons dst) (by simp)).bind
        intro _ s₃ ⟨h₃, hn₃⟩
        apply (iput_same h₃ hn₃ hset (by simp)).bind
        intro _ s₄ ⟨h₄, hn₄⟩
        exact .of_same h₄ hn₄
      · rename_i hne
        apply (lockPair_spec hE h₂ (by simp) (by simp) hne).bind
        intro _ s₃ ⟨h₃, hn₃⟩
        rw [wp_bind, wp_getNode, wp_bind, wp_getNode]
        apply (iunlockput_same h₃.swap (hn₃.trans hN₂) (hset.cons dst)).bind
        intro _ s₄ ⟨h₄, hn₄⟩
        apply (iunlockput_same h₄ hn₄ hset).bind
        intro _ s₅ ⟨h₅, hn₅⟩
        exact .of_same h₅ hn₅

theorem sysChdir_spec (hs : Idle s) (p : ProcSlot) (path : Path) :
    wp E (sysChdir p path) s (fun _ s' => Chdirs s p s') := by
  have hset := hs.acct.settled
  unfold sysChdir
  rw [wp_ite]
  split
  · exact .fails (.of_same hs.acct rfl)
  apply (namei_spec hE hs.seated hs.acct p path).bind
  intro r s₁ ⟨hn₁, hr⟩
  cases r with
  | none => exact .fails (.of_same hr.2 hn₁)
  | some ip =>
    apply (ilock_first hE hr.2 hn₁).bind
    intro _ s₂ ⟨h₂, hN₂, _⟩
    rw [wp_bind, wp_getNode, wp_ite]
    split
    · apply (iunlockput_same h₂ hN₂ hset).bind
      intro _ s₃ ⟨h₃, hn₃⟩
      exact .fails (.of_same h₃ hn₃)
    · apply (iunlock_spec h₂).bind
      intro _ s₃ ⟨h₃, hn₃⟩
      rw [wp_bind, putCwd, wp_bind, wp_get]
      cases hcwd : s₃.cwd p with
      | none => exact hE _ (by simp)
      | some c =>
        have hc : s.cwd p = some c := h₃.cwd ▸ hcwd
        have h₃' : Acct (s.setRef c (s.ref c - 1)) [c, ip] [] s₃ := by
          have hb := h₃.rebase (b := s.setRef c (s.ref c - 1)) rfl (sub_count (hs.seated p c hc))
          have hstate : { s₃ with files := s.files, ofile := s.ofile, cwd := s.cwd } = s₃ := by
            rw [← h₃.files, ← h₃.ofile, ← h₃.cwd]
          rw [← hstate]
          exact hb
        apply (iput_spec h₃' (fun hj => nomatch hj)).mono
        intro _ s₄ ⟨h₄, hn₄⟩
        rw [wp_bind, wp_modify]
        refine .moves c ip hc ?_ ?_
        · have hb := h₄.rebase (K := []) (b := { s.setRef c (s.ref c - 1) with
            cwd := update s.cwd p (some ip) }) rfl (fun i => rfl)
          have hstate : ∀ v : ProcSlot → Option Nat,
              { s₄ with files := s.files, ofile := s.ofile, cwd := v } = { s₄ with cwd := v } := by
            intro v
            rw [← show s₄.files = s.files from h₄.files, ← show s₄.ofile = s.ofile from h₄.ofile]
          rw [show s₄.cwd = s.cwd from h₄.cwd, ← hstate]
          exact hb
        · change Effects _ s.node s₄.node
          rw [hn₄, hn₃, hN₂]
          exact (Effects.refl _).drop _ _ _

theorem sysClose_spec (hs : Idle s)
    (hopen : ∀ f file, s.files f = some file → 0 < s.ref file.ip) (p : ProcSlot) (fd : Fd) :
    wp E (sysClose p fd) s (fun _ s' => Closes s p fd s') := by
  unfold sysClose
  rw [wp_bind, wp_get]
  cases hfd : s.ofile p fd with
  | none => exact .fails hfd rfl
  | some f =>
    rw [wp_bind, wp_set, wp_bind, fileclose, wp_bind, wp_get]
    cases hfile : s.files f with
    | none => exact hE _ (by simp)
    | some file =>
      simp only
      rw [wp_ite]
      split
      · have hb := hs.acct.rebase (K := []) (b := { s with
          files := update s.files f (some { file with ref := file.ref - 1 })
          ofile := update s.ofile p (update (s.ofile p) fd none) })
          rfl (fun i => rfl)
        exact .shared f file hfile hb rfl
      · rw [wp_bind, wp_set]
        have hb := hs.acct.rebase (b := { s.setRef file.ip (s.ref file.ip - 1) with
          files := update s.files f none
          ofile := update s.ofile p (update (s.ofile p) fd none) })
          rfl (sub_count (hopen f file hfile))
        apply (iput_spec hb (fun hj => nomatch hj)).mono
        intro _ s₁ ⟨h₁, hn₁⟩
        refine .last f file hfile h₁ ?_
        rw [hn₁]
        exact (Effects.refl _).drop _ _ _

end

def fileRefs : Option OpenFile → Nat → Nat
  | none, _ => 0
  | some file, i => [file.ip].count i

def cwdRefs : Option Nat → Nat → Nat
  | none, _ => 0
  | some c, i => [c].count i

def NsState.holders (s : NsState) (i : Nat) : Nat :=
  ∑ f, fileRefs (s.files f) i + ∑ p, cwdRefs (s.cwd p) i

/-- A state between calls in which every open file and current directory has its reference. -/
structure Sound (s : NsState) : Prop extends Tidy s where
  unlocked : ∀ i, s.locked i = false
  covered : ∀ i, s.holders i ≤ s.ref i

theorem fileRefs_le (s : NsState) (f : FileSlot) (i : Nat) :
    fileRefs (s.files f) i ≤ ∑ f, fileRefs (s.files f) i :=
  Finset.single_le_sum (f := fun f => fileRefs (s.files f) i) (fun _ _ => Nat.zero_le _)
    (Finset.mem_univ f)

theorem cwdRefs_le (s : NsState) (p : ProcSlot) (i : Nat) :
    cwdRefs (s.cwd p) i ≤ ∑ p, cwdRefs (s.cwd p) i :=
  Finset.single_le_sum (f := fun p => cwdRefs (s.cwd p) i) (fun _ _ => Nat.zero_le _)
    (Finset.mem_univ p)

theorem Sound.seated (h : Sound s) : Seated s := by
  intro p i hp
  have hc := h.covered i
  have hle := cwdRefs_le s p i
  rw [hp, cwdRefs, List.count_singleton_self] at hle
  unfold NsState.holders at hc
  omega

theorem Sound.idle (h : Sound s) : Idle s := ⟨h.toTidy, h.unlocked, h.seated⟩

theorem Sound.open_pos (h : Sound s) (f : FileSlot) (file : OpenFile)
    (hf : s.files f = some file) : 0 < s.ref file.ip := by
  have hc := h.covered file.ip
  have hle := fileRefs_le s f file.ip
  rw [hf, fileRefs, List.count_singleton_self] at hle
  unfold NsState.holders at hc
  omega

theorem holders_files (s : NsState) (f : FileSlot) (x : Option OpenFile) (i : Nat) :
    NsState.holders { s with files := update s.files f x } i + fileRefs (s.files f) i =
      s.holders i + fileRefs x i := by
  have h := sum_apply_update_add (fun y => fileRefs y i) s.files f x
  unfold NsState.holders
  simp only at h ⊢
  omega

theorem holders_cwd (s : NsState) (p : ProcSlot) (x : Option Nat) (i : Nat) :
    NsState.holders { s with cwd := update s.cwd p x } i + cwdRefs (s.cwd p) i =
      s.holders i + cwdRefs x i := by
  have h := sum_apply_update_add (fun y => cwdRefs y i) s.cwd p x
  unfold NsState.holders
  simp only at h ⊢
  omega

theorem holders_congr (hf : s'.files = s.files) (hc : s'.cwd = s.cwd) (i : Nat) :
    s'.holders i = s.holders i := by
  unfold NsState.holders
  rw [hf, hc]

def SameFile (s s' : NsState) (f : FileSlot) (file : OpenFile) : Prop :=
  ∃ file', s.files f = some file' ∧ file'.ip = file.ip ∧ file'.writable = file.writable ∧
    ((s.node file.ip).type ≠ .free → (s'.node file.ip).type = (s.node file.ip).type)

structure Finished (P : Nat → Prop) (s : NsState) (leak : List Nat) (s' : NsState) : Prop
    extends Tidy s' where
  unlocked : ∀ i, s'.locked i = false
  refs : ∀ i, s'.ref i + s.holders i = s.ref i + s'.holders i + leak.count i
  same : ∀ f file, s'.files f = some file → s.files f ≠ none → SameFile s s' f file
  effects : Effects P s.node s'.node

theorem Acct.unlocked (h : Acct s₀ H [] s) (i : Nat) : s.locked i = false := by
  rw [Bool.eq_false_iff]
  intro hl
  cases h.locked_iff.1 hl

theorem Done.finished (hs : Sound s) (h : Done P s H s') : Finished P s H s' where
  toTidy := h.acct.toTidy
  unlocked := h.acct.unlocked
  refs i := by
    have := h.acct.ref i
    rw [holders_congr h.acct.files h.acct.cwd]
    omega
  same f file hf _ := by
    rw [h.acct.files] at hf
    exact ⟨file, hf, rfl, rfl, h.acct.type _ (hs.open_pos f file hf)⟩
  effects := h.effects

theorem NsState.freeFile_none (h : s.freeFile = some f) : s.files f = none := by
  have := List.find?_some h
  simpa using this

theorem Finished.of_acct (h : Acct b H [] s') (hnode : b.node = s.node)
    (hrefs : ∀ i, b.ref i + H.count i + s.holders i = s.ref i + b.holders i)
    (hsame : ∀ f file, b.files f = some file → s.files f ≠ none → 0 < b.ref file.ip ∧
      ∃ file', s.files f = some file' ∧ file'.ip = file.ip ∧ file'.writable = file.writable)
    (heff : Effects P s.node s'.node) : Finished P s [] s' where
  toTidy := h.toTidy
  unlocked := h.unlocked
  refs i := by
    have hi := hrefs i
    rw [h.ref i, holders_congr h.files h.cwd, List.count_nil]
    omega
  same f file hf hold := by
    rw [h.files] at hf
    obtain ⟨hpos, file', hf', hip, hw⟩ := hsame f file hf hold
    exact ⟨file', hf', hip, hw, hnode ▸ h.type _ hpos⟩
  effects := heff

theorem Opens.finished (hs : Sound s) (h : Opens s p path omode s') :
    Finished (Targets s p (newPaths path omode)) s [] s' := by
  cases h with
  | fails h _ => exact h.finished hs
  | opens f fd ip type _ hf hfd h heff _ _ _ =>
    have hnone := NsState.freeFile_none hf
    refine .of_acct h rfl (fun i => ?_) (fun f' file hf' hold => ?_) heff
    · have hh : (s.install p f fd _).holders i + 0 = s.holders i + [ip].count i :=
        hnone ▸ holders_files s f (some (fileFor ip type omode)) i
      change s.ref i + _ + _ = s.ref i + _
      omega
    · have hne : f' ≠ f := by
        intro he
        exact hold (he ▸ hnone)
      have hf'' : s.files f' = some file := by
        simpa [NsState.install, hne] using hf'
      exact ⟨hs.open_pos f' file hf'', file, hf'', rfl, rfl⟩

theorem Chdirs.finished (hs : Sound s) (h : Chdirs s p s') :
    Finished (fun _ => False) s [] s' := by
  cases h with
  | fails h => exact h.finished hs
  | moves c ip hc h heff =>
    have hcount := sub_count (hs.seated p c hc)
    refine .of_acct h rfl (fun i => ?_) (fun f file hf _ => ⟨?_, file, hf, rfl, rfl⟩) heff
    · have hci := hcount i
      have hh := holders_cwd s p (some ip) i
      simp only [hc, cwdRefs] at hh
      change (s.setRef c (s.ref c - 1)).ref i + _ + _ = _ + NsState.holders { s with cwd := _ } i
      omega
    · have hcov := hs.covered file.ip
      have h1 := fileRefs_le s f file.ip
      have h2 := cwdRefs_le s p file.ip
      have hci := hcount file.ip
      rw [show s.files f = some file from hf, fileRefs, List.count_singleton_self] at h1
      rw [hc, cwdRefs] at h2
      unfold NsState.holders at hcov
      change 0 < (s.setRef c (s.ref c - 1)).ref file.ip
      omega

theorem Closes.finished (hs : Sound s) (h : Closes s p fd s') :
    Finished (fun _ => False) s [] s' := by
  cases h with
  | fails _ h =>
    subst h
    exact (Done.of_same hs.idle.acct rfl).finished hs
  | shared f file hfile h hn =>
    refine .of_acct h rfl (fun i => ?_) (fun f' file' hf' _ => ?_) (by rw [hn]; exact .refl _)
    · have hh := holders_files s f (some { file with ref := file.ref - 1 }) i
      simp only [hfile, fileRefs] at hh
      change s.ref i + 0 + _ = s.ref i + NsState.holders { s with files := _ } i
      omega
    · replace hf' : update s.files f (some { file with ref := file.ref - 1 }) f' = some file' := hf'
      by_cases he : f' = f
      · subst he
        rw [update_self] at hf'
        cases hf'
        exact ⟨hs.open_pos f' file hfile, file, hfile, rfl, rfl⟩
      · rw [update_of_ne he] at hf'
        exact ⟨hs.open_pos f' file' hf', file', hf', rfl, rfl⟩
  | last f file hfile h heff =>
    have hcount := sub_count (hs.open_pos f file hfile)
    have hh (i) : NsState.holders { s with files := update s.files f none } i +
        [file.ip].count i = s.holders i := by
      have := holders_files s f none i
      simpa only [hfile, fileRefs, add_zero] using this
    refine .of_acct h rfl (fun i => ?_) (fun f' file' hf' _ => ?_) heff
    · have hci := hcount i
      have hhi := hh i
      change (s.setRef file.ip (s.ref file.ip - 1)).ref i + 0 + _ =
        _ + NsState.holders { s with files := _ } i
      omega
    · replace hf' : update s.files f none f' = some file' := hf'
      have he : f' ≠ f := by
        rintro rfl
        rw [update_self] at hf'
        cases hf'
      refine ⟨?_, file', (update_of_ne he _ _).symm.trans hf', rfl, rfl⟩
      have hcov := hs.covered file'.ip
      have h1 := fileRefs_le { s with files := update s.files f none } f' file'.ip
      have hhi := hh file'.ip
      have hci := hcount file'.ip
      simp only [hf'] at h1
      rw [fileRefs, List.count_singleton_self] at h1
      unfold NsState.holders at hcov hhi
      change 0 < (s.setRef file.ip (s.ref file.ip - 1)).ref file'.ip
      simp only at hhi h1
      omega

theorem Step.mono (hPQ : ∀ d, P d → Q d) (h : Step P N M) : Step Q N M := by
  cases h with
  | make hP hdp hname hip hpos hlt ht => exact .make (hPQ _ hP) hdp hname hip hpos hlt ht
  | link hP hdp hname hip hdir hfrom =>
    exact .link (hPQ _ hP) hdp hname hip hdir
      (hfrom.imp (hPQ _) fun ⟨d, hd, hnames⟩ => ⟨d, hPQ d hd, hnames⟩)
  | unlink he hne hip hlinks hempty => exact .unlink he hne hip hlinks hempty
  | rename hP he hnew hp => exact .rename (hPQ _ hP) he hnew hp
  | replace hP he he2 hne ho hn hip hip2 hdir hfile hlinks hdots hbelow =>
    exact .replace (hPQ _ hP) he he2 hne ho hn hip hip2 hdir hfile hlinks hdots hbelow
  | move hP he hnewdp hnew hp hne hold hip hfree hdots hbelow =>
    exact .move (hPQ _ hP) he hnewdp hnew hp hne hold hip hfree hdots hbelow
  | broken he hdir hdots => exact .broken he hdir hdots

theorem Effects.mono (hPQ : ∀ d, P d → Q d) (h : Effects P N M) : Effects Q N M := by
  obtain ⟨M', hstep, hrest⟩ := h
  exact ⟨M', hstep.imp_right (Step.mono hPQ), hrest⟩

theorem Finished.mono (hPQ : ∀ d, P d → Q d) (h : Finished P s H s') : Finished Q s H s' where
  __ := h
  effects := h.effects.mono hPQ

def Call.targets : Call → List Path
  | link _ new => [new]
  | rename _ new => [new]
  | .open path omode => newPaths path omode
  | mkdir path => [path]
  | mknod path _ _ => [path]
  | symlink _ path => [path]
  | fclone _ dst => [dst]
  | _ => []

def Call.Places (s : NsState) (p : ProcSlot) (c : Call) (d : Nat) : Prop :=
  match c with
  | link old new => LinkPlaces s p old new d
  | c => Targets s p c.targets d

def Call.SharesParent (s : NsState) (p : ProcSlot) : Call → Prop
  | rename old new => SameParent s p old new
  | _ => False

def Call.Files (s : NsState) (p : ProcSlot) (s' : NsState) : Call → Prop
  | .open path omode => Opens s p path omode s'
  | _ => ∀ f, s.files f = none → s'.files f = none

theorem Done.no_new (h : Done P s H s') (f : FileSlot) (hf : s.files f = none) :
    s'.files f = none := by
  rw [h.acct.files]
  exact hf

theorem Chdirs.no_new (h : Chdirs s p s') (f : FileSlot) (hf : s.files f = none) :
    s'.files f = none := by
  cases h with
  | fails h => exact h.no_new f hf
  | moves c ip _ h _ => exact (congrFun h.files f).trans hf

theorem update_none {v : FileSlot → Option OpenFile} (hg : v g ≠ none) (hf : v f = none) :
    update v g x f = none := by
  have hne : f ≠ g := by
    intro he
    exact hg (he ▸ hf)
  rw [update_of_ne hne]
  exact hf

theorem Closes.no_new (h : Closes s p fd s') (f : FileSlot) (hf : s.files f = none) :
    s'.files f = none := by
  cases h with
  | fails _ h => exact h ▸ hf
  | shared g file hg h _ => exact (congrFun h.files f).trans (update_none (by simp [hg]) hf)
  | last g file hg h _ => exact (congrFun h.files f).trans (update_none (by simp [hg]) hf)

structure Executed (s : NsState) (p : ProcSlot) (c : Call) (s' : NsState) (leak : List Nat) :
    Prop where
  finished : Finished (c.Places s p) s leak s'
  leak : leak = [] ↔ ¬ c.SharesParent s p
  files : c.Files s p s'

theorem exec_spec (hE : Tolerant E) (hd : E .deadlock) (hs : Sound s) (p : ProcSlot) (c : Call) :
    wp E (c.exec p) s (fun _ s' => ∃ leak, Executed s p c s' leak) := by
  have hnil : ∀ {P s'}, (∀ d, P d → c.Places s p d) → Finished P s [] s' →
      ¬ c.SharesParent s p → c.Files s p s' → ∃ leak, Executed s p c s' leak :=
    fun hP h hn hf => ⟨[], h.mono hP, by simp [hn], hf⟩
  cases c with
  | link old new =>
    apply (sysLink_spec hE hs.idle p old new).mono
    intro _ s' h
    exact hnil (fun _ hd => hd) (h.finished hs) id h.no_new
  | unlink path =>
    apply (sysUnlink_spec (P := fun _ => False) hE hd hs.idle p path).mono
    intro _ s' h
    exact hnil (fun _ hd => hd.elim) (h.finished hs) id h.no_new
  | rename old new =>
    apply (sysRename_spec hE hs.idle p old new (fun _ => hd)).mono
    intro _ s' h
    by_cases hsame : SameParent s p old new
    · obtain ⟨d, hdone⟩ := h.leak hsame
      exact ⟨[d], hdone.finished hs, by simp [Call.SharesParent, hsame], hdone.no_new⟩
    · have hdone := h.balanced hsame
      exact hnil (fun _ hd => hd) (hdone.finished hs) hsame hdone.no_new
  | «open» path omode =>
    apply (sysOpen_spec hE hs.idle p path omode).mono
    intro _ s' h
    exact hnil (fun _ hd => hd) (h.finished hs) id h
  | mkdir path =>
    apply (sysMake_spec hE hs.idle p path .dir 0 0).mono
    intro _ s' h
    exact hnil (fun _ hd => hd) (h.finished hs) id h.no_new
  | mknod path major minor =>
    apply (sysMake_spec hE hs.idle p path .device _ _).mono
    intro _ s' h
    exact hnil (fun _ hd => hd) (h.finished hs) id h.no_new
  | symlink target path =>
    apply (sysSymlink_spec hE hs.idle p target path).mono
    intro _ s' h
    exact hnil (fun _ hd => hd) (h.finished hs) id h.no_new
  | chdir path =>
    apply (sysChdir_spec hE hs.idle p path).mono
    intro _ s' h
    exact hnil (fun _ hd => hd.elim) (h.finished hs) id h.no_new
  | fclone src dst =>
    apply (sysFclone_spec hE hs.idle p src dst (fun _ => hd)).mono
    intro _ s' h
    exact hnil (fun _ hd => hd) (h.1.finished hs) id h.1.no_new
  | truncate path length =>
    apply (sysTruncate_spec (P := fun _ => False) hE hs.idle p path length).mono
    intro _ s' h
    exact hnil (fun _ hd => hd.elim) (h.finished hs) id h.no_new
  | dedup src dst =>
    apply (sysDedup_spec (P := fun _ => False) hE hs.idle p src dst).mono
    intro _ s' h
    exact hnil (fun _ hd => hd.elim) (h.finished hs) id h.no_new
  | close fd =>
    apply (sysClose_spec hE hs.idle hs.open_pos p fd).mono
    intro _ s' h
    exact hnil (fun _ hd => hd.elim) (h.finished hs) id h.no_new

theorem exec_ok (hs : Sound s) (hrun : c.exec p s = .ok (r, s')) :
    ∃ leak, Executed s p c s' leak :=
  (exec_spec (E := fun _ => True) (fun _ _ => trivial) trivial hs p c).of_ok hrun

theorem Finished.sound (hs : Sound s) (h : Finished P s H s') : Sound s' where
  toTidy := h.toTidy
  unlocked := h.unlocked
  covered i := by
    have h1 := h.refs i
    have h2 := hs.covered i
    omega

def rootEntries (names : List Name) : List Dirent :=
  ⟨ROOTINO, dot⟩ :: ⟨ROOTINO, dotdot⟩ :: names.mapIdx (fun k name => ⟨k + 2, name⟩) ++
    List.replicate (((names.length + 2) / 64 + 1) * 64 - (names.length + 2)) .empty

def mkfsNode (type : InodeType) (nlink : Int16) (entries : List Dirent) : Node where
  type := type
  major := 0
  minor := 0
  nlink := nlink
  entries := entries
  target := none

def firstProcs (n : Nat) : Finset ProcSlot := Finset.univ.filter (fun p => p.val < n)

/-- The file system of `mkfs` with files in its root, the directory of `n` processes. -/
def NsState.mkfs (names : List Name) (n : Nat) : NsState where
  node i :=
    if i = ROOTINO then mkfsNode .dir 1 (rootEntries names)
    else if 2 ≤ i ∧ i < names.length + 2 then mkfsNode .file 1 []
    else mkfsNode .free 0 []
  ref i := if i = ROOTINO then (firstProcs n).card else 0
  valid _ := false
  locked _ := false
  files _ := none
  ofile _ _ := none
  cwd p := if p ∈ firstProcs n then some ROOTINO else none

theorem mkfs_holders (names : List Name) (n i : Nat) :
    (NsState.mkfs names n).holders i = (NsState.mkfs names n).ref i := by
  have hf : ∀ f, fileRefs ((NsState.mkfs names n).files f) i = 0 := fun _ => rfl
  have hc : ∀ p, cwdRefs ((NsState.mkfs names n).cwd p) i =
      if p ∈ firstProcs n then [ROOTINO].count i else 0 := by
    intro p
    simp only [NsState.mkfs]
    split
    · rfl
    · rfl
  have hsum : ∑ p, cwdRefs ((NsState.mkfs names n).cwd p) i =
      (firstProcs n).card * [ROOTINO].count i := by
    rw [Finset.sum_congr rfl fun p _ => hc p, ← Finset.sum_filter, Finset.filter_univ_mem,
      Finset.sum_const_nat fun _ _ => rfl]
  unfold NsState.holders
  rw [hsum, Finset.sum_eq_zero (fun f _ => hf f), count_cons_eq]
  simp [NsState.mkfs]

theorem mkfs_sound (names : List Name) (n : Nat) : Sound (NsState.mkfs names n) where
  orphan i hi := by
    left
    unfold NsState.mkfs at hi ⊢
    simp only at hi ⊢
    split at hi
    · simp [mkfsNode] at hi
    split at hi
    · simp [mkfsNode] at hi
    · rename_i hroot hfile
      rw [if_neg hroot, if_neg hfile]
      rfl
  loaded i _ hv := by cases hv
  unlocked _ := rfl
  covered i := (mkfs_holders names n i).le

/-- Each reference of an inode is one of an open file or of a current directory, as before. -/
def Balanced (s s' : NsState) : Prop :=
  ∀ i, s'.ref i + s.holders i = s.ref i + s'.holders i

/-- A completed call keeps the reference counts in step and leaves no lock, unless it renames within
one directory. -/
theorem refs_balanced_iff {c : Call} {p : ProcSlot} (hs : Sound s)
    (hrun : c.exec p s = .ok (r, s')) :
    (Balanced s s' ∧ ∀ i, s'.locked i = false) ↔ ¬ c.SharesParent s p := by
  obtain ⟨leak, h, hleak, _⟩ := exec_ok hs hrun
  rw [← hleak]
  constructor
  · intro ⟨hbal, _⟩
    cases leak with
    | nil => rfl
    | cons d rest =>
      have h1 := h.refs d
      have h2 := hbal d
      rw [List.count_cons_self] at h1
      omega
  · intro hnil
    subst hnil
    refine ⟨?_, h.unlocked⟩
    intro i
    have hi := h.refs i
    rw [List.count_nil, Nat.add_zero] at hi
    exact hi

theorem refs_balanced_chdir : ∃ s', (Call.chdir [slash]).exec 0 (.mkfs [] 1) = .ok (0, s') ∧
    Balanced (.mkfs [] 1) s' := by
  obtain ⟨s', hrun⟩ : ∃ s', (Call.chdir [slash]).exec 0 (.mkfs [] 1) = .ok (0, s') :=
    returns_of_yields (by decide +kernel)
  exact ⟨s', hrun, ((refs_balanced_iff (mkfs_sound [] 1) hrun).2 id).1⟩

/-- Renaming a file in the root directory leaves a reference to the root behind. -/
theorem rename_leaks : ∃ s', (Call.rename [97] [98]).exec 0 (.mkfs [[97]] 1) = .ok (0, s') ∧
    ¬ Balanced (.mkfs [[97]] 1) s' := by
  obtain ⟨s', hrun, hr1, hr2⟩ : ∃ s', (Call.rename [97] [98]).exec 0 (.mkfs [[97]] 1) = .ok
    (0, s') ∧ s'.ref ROOTINO = 2 ∧ s'.holders ROOTINO = 1 := returns_of_lands (by decide +kernel)
  refine ⟨s', hrun, ?_⟩
  intro hbal
  have h := hbal ROOTINO
  rw [hr1, hr2, mkfs_holders] at h
  omega

end OopsOS.Ns
