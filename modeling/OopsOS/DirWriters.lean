import OopsOS.NameBalance
import OopsOS.Traces

namespace OopsOS.Ns
set_option autoImplicit true

variable {s s' : NsState} {p : ProcSlot} {c : Call}

def fire (s : NsState) (e : ProcSlot × Call) : Option NsState :=
  match e.2.exec e.1 s with
  | .ok (_, s') => some s'
  | .error _ => none

theorem exec_of_fire (h : fire s e = some s') :
    ∃ r, e.2.exec e.1 s = .ok (r, s') := by
  unfold fire at h
  split at h
  · rename_i r s₁ hrun
    cases h
    exact ⟨r, hrun⟩
  · cases h

def NoDirWriter (s : NsState) : Prop :=
  ∀ f file, s.files f = some file → file.writable = true → (s.node file.ip).type ≠ .dir

structure WritesDir (s : NsState) (p : ProcSlot) (path : Path) (omode : UInt32) (d : Nat) :
    Prop where
  arg : argstr path = true
  noCreate : has omode O_CREATE = false
  writes : (has omode O_WRONLY || has omode O_RDWR) = true
  file : s.freeFile.isSome
  fd : (s.freeFd p).isSome
  opened : s.opened p path omode = some d
  dir : (s.node d).type = .dir

def OpensDir (s : NsState) (e : ProcSlot × Call) : Prop :=
  ∃ path omode d, e.2 = .open path omode ∧ WritesDir s e.1 path omode d

/-- Open files refer to inodes in use, and writable ones to no directories. -/
structure Guarded (s : NsState) : Prop extends Sound s where
  inUse : ∀ f file, s.files f = some file → (s.node file.ip).type ≠ .free
  noDir : NoDirWriter s

theorem Guarded.same (h : Guarded s) (hs : SameFile s s' f file) :
    (s'.node file.ip).type ≠ .free ∧ (file.writable = true → (s'.node file.ip).type ≠ .dir) := by
  obtain ⟨file', hf, hip, hw, ht⟩ := hs
  have huse := h.inUse f file' hf
  rw [hip] at huse
  rw [ht huse]
  refine ⟨huse, ?_⟩
  intro hwr
  have := h.noDir f file' hf (hw.trans hwr)
  rwa [hip] at this

theorem Call.Files.cases (h : c.Files s p s') :
    (∃ path omode, c = .open path omode ∧ Opens s p path omode s') ∨
      ∀ f, s.files f = none → s'.files f = none := by
  cases c with
  | «open» path omode => exact .inl ⟨path, omode, rfl, h⟩
  | link => exact .inr h
  | unlink => exact .inr h
  | rename => exact .inr h
  | mkdir => exact .inr h
  | mknod => exact .inr h
  | symlink => exact .inr h
  | chdir => exact .inr h
  | fclone => exact .inr h
  | truncate => exact .inr h
  | dedup => exact .inr h
  | close => exact .inr h

theorem Opens.files_eq (h : Acct (s.install p f fd file) H [] s') : s'.files f = some file := by
  rw [h.files]
  exact Function.update_self ..

theorem Opens.files_of_ne (h : Acct (s.install p f fd file) H [] s') (hne : f' ≠ f) :
    s'.files f' = s.files f' := by
  rw [h.files]
  exact Function.update_of_ne hne ..

theorem Opens.new (h : Opens s p path omode s') (hold : s.files f = none)
    (hf : s'.files f = some file) (hdir : ∀ d, ¬ WritesDir s p path omode d) :
    (s'.node file.ip).type ≠ .free ∧ (file.writable = true → (s'.node file.ip).type ≠ .dir) := by
  cases h with
  | fails h _ =>
    rw [h.no_new f hold] at hf
    cases hf
  | opens g fd ip type harg hg hfd h heff ht hfree hip =>
    have hfg : f = g := by
      by_cases he : f = g
      · exact he
      · rw [files_of_ne h he, hold] at hf
        cases hf
    subst hfg
    rw [files_eq h] at hf
    cases hf
    refine ⟨ht ▸ hfree, ?_⟩
    intro hw hd
    change (s'.node ip).type = .dir at hd
    split at hip
    · rw [← ht, hd] at hip
      obtain hip | hip := hip
      · cases hip
      · cases hip
    · rename_i hc
      obtain ⟨hn, hopened⟩ := hip
      rw [hn] at hd
      exact hdir ip ⟨harg, by simpa using hc, hw, by simp [hg], by simp [hfd], hopened, hd⟩

theorem WritesDir.breaks (hw : WritesDir s p path omode d) (h : Opens s p path omode s') :
    ¬ NoDirWriter s' := by
  cases h with
  | fails _ hno =>
    have := hno hw.arg hw.noCreate hw.file hw.fd
    rw [hw.opened] at this
    cases this
  | opens f fd ip type harg hg hfd h heff ht hfree hip =>
    rw [hw.noCreate] at hip
    obtain ⟨hn, hopened⟩ := hip
    rw [hw.opened] at hopened
    cases hopened
    intro hno
    apply hno f _ (Opens.files_eq h) hw.writes
    change (s'.node d).type = .dir
    rw [hn]
    exact hw.dir

theorem Guarded.fire (h : Guarded s) (hdir : ¬ OpensDir s e)
    (hs : fire s e = some s') : Guarded s' := by
  obtain ⟨p, c⟩ := e
  obtain ⟨r, hrun⟩ := exec_of_fire hs
  obtain ⟨leak, hfin, _, hfiles⟩ := exec_ok h.toSound hrun
  have hall : ∀ f file, s'.files f = some file → (s'.node file.ip).type ≠ .free ∧
      (file.writable = true → (s'.node file.ip).type ≠ .dir) := by
    intro f file hf
    by_cases hold : s.files f = none
    · obtain ⟨path, omode, hc, hopen⟩ | hnone := hfiles.cases
      · subst hc
        exact hopen.new hold hf fun d hd => hdir ⟨path, omode, d, rfl, hd⟩
      · rw [hnone f hold] at hf
        cases hf
    · exact h.same (hfin.same f file hf hold)
  exact ⟨hfin.sound h.toSound, fun f file hf => (hall f file hf).1,
    fun f file hf => (hall f file hf).2⟩

theorem OpensDir.breaks (hd : OpensDir s e) (h : Guarded s)
    (hs : Ns.fire s e = some s') : ¬ NoDirWriter s' := by
  obtain ⟨p, c⟩ := e
  obtain ⟨path, omode, d, hc, hw⟩ := hd
  obtain ⟨r, hrun⟩ := exec_of_fire hs
  obtain ⟨leak, _, _, hfiles⟩ := exec_ok h.toSound hrun
  subst hc
  exact hw.breaks hfiles

theorem mkfs_guarded (names : List Name) (n : Nat) : Guarded (.mkfs names n) where
  toSound := mkfs_sound names n
  inUse _ _ hf := by cases hf
  noDir _ _ hf := by cases hf

/-- No writable file refers to a directory in a run exactly if no open makes one. -/
theorem no_dir_writer_iff (names : List Name) (n : Nat) (es : List (ProcSlot × Call)) :
    Always fire NoDirWriter (.mkfs names n) es ↔
      Along fire (fun s e => ¬ OpensDir s e) (.mkfs names n) es :=
  always_iff_along (I := Guarded) (fun _ h => h.noDir) (fun _ _ _ h hd hs => h.fire hd hs)
    (fun _ _ _ h hd hs => (Classical.not_not.1 hd).breaks h hs) (mkfs_guarded names n)

/-- A symbolic link to the root directory is opened for writing. -/
theorem dir_opened_through_link : ∃ s, runEvents fire (.mkfs [] 1)
      [(0, .symlink [slash] [97]), (0, .open [97] O_RDWR)] = some s ∧ ¬ NoDirWriter s := by
  have hrun : (runEvents fire (.mkfs [] 1) [(0, .symlink [slash] [97]),
      (0, .open [97] O_RDWR)]).any (fun s => (s.files 0).any (fun file =>
        file.writable && decide ((s.node file.ip).type = .dir))) = true := by decide +kernel
  obtain ⟨s, hs, hany⟩ := (Option.any_eq_true _ _).1 hrun
  refine ⟨s, hs, ?_⟩
  intro hno
  obtain ⟨file, hfile, hw⟩ := (Option.any_eq_true _ _).1 hany
  rw [Bool.and_eq_true] at hw
  exact hno 0 file hfile hw.1 (of_decide_eq_true hw.2)

end OopsOS.Ns
