import OopsOS.Admission
import OopsOS.Recovery
import OopsOS.Contents
import OopsOS.Runs

namespace OopsOS
set_option autoImplicit true
open Function

/-- The kernel between the block writes of commits. -/
structure Kernel where
  disk : Disk
  cache : Disk
  log : Log
  active : Finset Nat

def Kernel.boot (d : Disk) : Kernel := ⟨d, d, ⟨[], 0, false⟩, ∅⟩

def Kernel.machine (s : Kernel) (fuel : Nat) : Machine := ⟨s.disk, s.cache, s.log.lh, fuel⟩

/-- The steps of the processes. A block is changed in its buffer and logged; `end_op` commits. -/
inductive IoEvent where
  | beginOp (p : Nat)
  | write (p b : Nat) (data : Bytes)
  | endOp (p : Nat)

def Kernel.fire (s : Kernel) : IoEvent → Option Kernel
  | .beginOp p =>
    if p ∈ s.active then none
    else s.log.beginOp.map fun l => { s with log := l, active := insert p s.active }
  | .write p b data =>
    if p ∈ s.active ∧ ¬ InLog b ∧ b < sb.size then
      match s.log.logWrite b with
      | .ok l => some { s with cache := update s.cache b data, log := l }
      | .error _ => none
    else none
  | .endOp p =>
    if p ∈ s.active then
      match s.log.endOp with
      | .ok l =>
        if l.committing then
          match commit (s.machine (2 * LOGSIZE)) with
          | .ok (_, m) => some ⟨m.disk, m.cache, l.commitDone, s.active.erase p⟩
          | .error _ => none
        else some { s with log := l, active := s.active.erase p }
      | .error _ => none
    else none

def Kernel.run (s : Kernel) : List IoEvent → Option Kernel
  | [] => some s
  | e :: es =>
    match s.fire e with
    | some s' => s'.run es
    | none => none

def FsOp.transaction (op : FsOp) (p : Nat) (s : FsState) : List IoEvent :=
  [.beginOp p] ++ (op.after s).logged.reverse.map (fun b => .write p b ((op.after s).blocks b)) ++
    [.endOp p]

def filefsync (p A : Nat) (datasync : Bool) (s : FsState) : List IoEvent :=
  if datasync then []
  else [.write p (IBLOCK A) (putDinode (s.blocks (IBLOCK A)) (A % IPB) (s.inode A))]

def Kernel.Steps (R : Kernel → Prop) : Kernel → Kernel → Prop :=
  Relation.ReflTransGen fun s s' => (∃ e, s.fire e = some s') ∧ R s'

/-- The disks that a power failure leaves behind, also in the middle of a commit. -/
def Kernel.Crashes (s : Kernel) (d : Disk) : Prop :=
  d = s.disk ∨ ∃ k, s.active ≠ ∅ ∧ s.log.outstanding = 1 ∧ d = stopAfter k commit (s.machine 0)

def outsideLog (d : Disk) : Disk := fun b => if InLog b then zeroBytes else d b

def Holds (d : Disk) (A q : Nat) (v : UInt8) : Prop :=
  q < (dinodeOf (outsideLog d) A).size.toNat ∧
    fileByte (outsideLog d) (dinodeOf (outsideLog d) A) q = v

instance : Decidable (Holds d A q v) := inferInstanceAs (Decidable (_ ∧ _))

theorem outsideLog_congr (h : ∀ b, ¬ InLog b → d' b = d b) : outsideLog d' = outsideLog d := by
  funext b
  unfold outsideLog
  split
  · rfl
  · next hb => exact h b hb

theorem Holds.congr (h : Holds d A q v) (he : ∀ b, ¬ InLog b → d' b = d b) : Holds d' A q v := by
  rw [Holds, outsideLog_congr he]
  exact h

variable {s s' : Kernel} {A q : Nat} {v : UInt8}

/-- Between steps the log on disk is empty, and a buffer that is not logged is as its block. -/
structure Kernel.Sound (s : Kernel) : Prop where
  head : headCount (s.disk sb.logstart) = 0
  lh : Loggable s.log.lh
  clean : ∀ b, ¬ InLog b → b ∉ s.log.lh → s.cache b = s.disk b

theorem Kernel.boot_sound (h : headCount (d sb.logstart) = 0) : (Kernel.boot d).Sound :=
  ⟨h, ⟨Nat.zero_le _, fun _ hb => absurd hb List.not_mem_nil,
    fun _ hb => absurd hb List.not_mem_nil⟩, fun _ _ _ => rfl⟩

theorem Kernel.Sound.applied (h : s.Sound) (hb : ¬ InLog b) :
    applied s.disk s.cache s.log.lh b = s.cache b := by
  unfold OopsOS.applied
  split
  · rfl
  · next hm => exact (h.clean b hb hm).symm

theorem Kernel.Sound.write (h : s.Sound) (hb : ¬ InLog b ∧ b < sb.size)
    (hl : s.log.logWrite b = .ok l) :
    Kernel.Sound { s with cache := update s.cache b data, log := l } := by
  obtain ⟨hroom, hlen, hmem⟩ := Log.logWrite_ok hl
  have hsize : b < 2 ^ 32 := Nat.lt_trans hb.2 (by decide)
  refine ⟨h.head, ⟨?_, fun x hx => ?_, fun x hx => ?_⟩, fun x hx hm => ?_⟩
  · exact hlen.trans hroom
  · rcases (hmem x).1 hx with hx | rfl
    · exact h.lh.home x hx
    · exact hb.1
  · rcases (hmem x).1 hx with hx | rfl
    · exact h.lh.word x hx
    · exact hsize
  · have hne : x ≠ b := fun e => hm ((hmem x).2 (.inr e))
    have hold : x ∉ s.log.lh := fun hx' => hm ((hmem x).2 (.inl hx'))
    exact (update_of_ne hne ..).trans (h.clean x hx hold)

theorem Kernel.Sound.committed (h : s.Sound) (hm : commit (s.machine n) = .ok ((), m)) (l : Log)
    (active : Finset Nat) : Kernel.Sound ⟨m.disk, m.cache, l.commitDone, active⟩ ∧
      (∀ b, ¬ InLog b → m.disk b = m.cache b) ∧ ∀ b, ¬ InLog b → m.cache b = s.cache b := by
  have hspec := @commit_spec (s.machine n) h.lh h.head
  obtain ⟨hclean, -, hcache, -⟩ := hspec.of_ok hm
  have heq (b : Nat) (hb : ¬ InLog b) : m.disk b = m.cache b := by
    rw [hclean.blocks b hb, hcache b hb]
    exact h.applied hb
  refine ⟨⟨hclean.head, ⟨Nat.zero_le _, fun _ hb => absurd hb List.not_mem_nil,
    fun _ hb => absurd hb List.not_mem_nil⟩, fun b hb _ => (heq b hb).symm⟩, heq, hcache⟩

theorem Kernel.Sound.fire (h : s.Sound) (hs : s.fire e = some s') : s'.Sound ∧
    (s'.disk = s.disk ∨ ∀ b, ¬ InLog b → s'.disk b = s'.cache b) := by
  cases e with
  | beginOp p =>
    simp only [Kernel.fire] at hs
    split at hs
    · cases hs
    · obtain ⟨l, hl, rfl⟩ := Option.map_eq_some_iff.1 hs
      have hlh : l.lh = s.log.lh := by
        unfold Log.beginOp at hl
        split at hl
        · cases hl
        · split at hl
          · cases hl
          · cases hl
            rfl
      exact ⟨⟨h.head, hlh ▸ h.lh, hlh ▸ h.clean⟩, .inl rfl⟩
  | write p b data =>
    simp only [Kernel.fire] at hs
    split at hs
    · next hc =>
      split at hs
      · next l hl =>
        cases hs
        exact ⟨h.write hc.2 hl, .inl rfl⟩
      · cases hs
    · cases hs
  | endOp p =>
    simp only [Kernel.fire] at hs
    split at hs
    · split at hs
      · next l hl =>
        split at hs
        · split at hs
          · next m hm =>
            cases hs
            obtain ⟨hsound, heq, -⟩ := h.committed hm l (s.active.erase p)
            exact ⟨hsound, .inr heq⟩
          · cases hs
        · cases hs
          have hlh : l.lh = s.log.lh := by
            unfold Log.endOp at hl
            split at hl
            · cases hl
            · cases hl
              rfl
          exact ⟨⟨h.head, hlh ▸ h.lh, hlh ▸ h.clean⟩, .inl rfl⟩
      · cases hs
    · cases hs

theorem Kernel.Steps.sound {R : Kernel → Prop} (h : Kernel.Steps R s s') (hs : s.Sound) :
    s'.Sound := by
  induction h with
  | refl => exact hs
  | tail _ hstep ih =>
    obtain ⟨⟨e, he⟩, -⟩ := hstep
    exact (ih.fire he).1

theorem Kernel.Steps.holds (h : Kernel.Steps (fun s => Holds s.cache A q v) s s') (hs : s.Sound)
    (hdisk : Holds s.disk A q v) (hcache : Holds s.cache A q v) :
    Holds s'.disk A q v ∧ Holds s'.cache A q v := by
  induction h with
  | refl => exact ⟨hdisk, hcache⟩
  | tail hinit hstep ih =>
    obtain ⟨⟨e, he⟩, hnew⟩ := hstep
    refine ⟨?_, hnew⟩
    rcases ((Kernel.Steps.sound hinit hs).fire he).2 with hsame | hback
    · rw [hsame]
      exact ih.1
    · exact hnew.congr hback

theorem Kernel.Sound.recovered (h : s.Sound) (hc : s.Crashes d) (ks : List Nat)
    (hrec : recoverFromLog (.powerOn (interrupted d ks) fuel) = .ok ((), m)) :
    (∀ b, ¬ InLog b → m.disk b = s.disk b) ∨ ∀ b, ¬ InLog b → m.disk b = s.cache b := by
  have hstop : ∃ k, Stopped s.disk s.cache s.log.lh k d := by
    rcases hc with rfl | ⟨k, -, -, rfl⟩
    · exact ⟨0, .inl ⟨Nat.zero_le _, h.head, fun _ _ => rfl⟩⟩
    · exact ⟨k, @stopped_commit (s.machine 0) h.lh h.head k⟩
  obtain ⟨k, hstop⟩ := hstop
  have hend := (recover_stopped (stopped_interrupted hstop h.lh ks) h.lh).of_ok hrec
  rcases hend with ⟨-, hclean⟩ | ⟨-, hclean⟩
  · exact .inl hclean.blocks
  · refine .inr fun b hb => ?_
    rw [hclean.blocks b hb, h.applied hb]

/-- What `filefsync` found survives later power failures, unless changed, if its `end_op` is the
last one outstanding. -/
theorem fsync_durable (hboot : headCount (d₀ sb.logstart) = 0)
    (hreach : Kernel.Steps (fun _ => True) (.boot d₀) s₀)
    (hcall : s₀.fire (.beginOp p) = some s₁) (hold : Holds s₀.cache A q v)
    (hsteps : Kernel.Steps (fun s => Holds s.cache A q v) s₁ s₂)
    (hlast : s₂.log.outstanding = 1) (hreturn : s₂.fire (.endOp p) = some s₃)
    (hlater : Kernel.Steps (fun s => Holds s.cache A q v) s₃ s₄) (hcrash : s₄.Crashes d)
    (ks : List Nat)
    (hrec : recoverFromLog (.powerOn (interrupted d ks) fuel) = .ok ((), m)) :
    Holds m.disk A q v := by
  have hs₀ := hreach.sound (Kernel.boot_sound hboot)
  have hs₁ := (hs₀.fire hcall).1
  have hs₂ := hsteps.sound hs₁
  have hs₃ := (hs₂.fire hreturn).1
  have hcache₁ : s₁.cache = s₀.cache := by
    simp only [Kernel.fire] at hcall
    split at hcall
    · cases hcall
    · obtain ⟨l, -, rfl⟩ := Option.map_eq_some_iff.1 hcall
      rfl
  have hold₂ : Holds s₂.cache A q v := by
    have h₁ : Holds s₁.cache A q v := hcache₁ ▸ hold
    induction hsteps with
    | refl => exact h₁
    | tail _ hstep _ => exact hstep.2
  have hcommit : (∀ b, ¬ InLog b → s₃.disk b = s₃.cache b) ∧
      ∀ b, ¬ InLog b → s₃.cache b = s₂.cache b := by
    simp only [Kernel.fire] at hreturn
    split at hreturn
    · split at hreturn
      · next l hl =>
        have hc : l.committing = true := by
          unfold Log.endOp at hl
          split at hl
          · cases hl
          · cases hl
            rw [hlast]
            rfl
        rw [if_pos hc] at hreturn
        split at hreturn
        · next m hm =>
          cases hreturn
          exact (hs₂.committed hm l (s₂.active.erase p)).2
        · cases hreturn
      · cases hreturn
    · cases hreturn
  have hcache₃ : Holds s₃.cache A q v := hold₂.congr hcommit.2
  obtain ⟨hdisk, hcache⟩ := hlater.holds hs₃ (hcache₃.congr hcommit.1) hcache₃
  rcases (hlater.sound hs₃).recovered hcrash ks hrec with heq | heq
  · exact hdisk.congr heq
  · exact hcache.congr heq

theorem Kernel.Steps.of_run (h : s.run es = some s') : Kernel.Steps (fun _ => True) s s' := by
  induction es generalizing s with
  | nil =>
    cases h
    exact .refl
  | cons e es ih =>
    simp only [Kernel.run] at h
    split at h
    · next s₁ he => exact .head ⟨⟨e, he⟩, trivial⟩ (ih h)
    · cases h

def Kernel.after (s : Kernel) (es : List IoEvent) : Kernel := (s.run es).getD s

theorem Kernel.run_after (h : (s.run es).isSome = true) : s.run es = some (s.after es) := by
  obtain ⟨s', hs⟩ := Option.isSome_iff_exists.1 h
  rw [Kernel.after, hs, Option.getD_some]

theorem Kernel.fire_after (h : (s.run [e]).isSome = true) : s.fire e = some (s.after [e]) := by
  have hrun := Kernel.run_after h
  simp only [Kernel.run] at hrun
  split at hrun
  · next s₁ he => rw [he, hrun]
  · cases hrun

def fsyncDisk : Disk := oneFileDisk nmeta (fileInode 1024 [3000]) 5

def fsyncWrite : FsOp := .writei 1 (.kernel fun _ => 7) 0 1

def fsyncBefore (others : List IoEvent) : Kernel :=
  (Kernel.boot fsyncDisk).after (others ++ fsyncWrite.transaction 1 (.boot fsyncDisk))

def fsyncCalled (others : List IoEvent) : Kernel := (fsyncBefore others).after [.beginOp 1]

def fsyncLogged (others : List IoEvent) : Kernel :=
  (fsyncCalled others).after (filefsync 1 1 false (fsyncWrite.after (.boot fsyncDisk)))

def fsyncReturned (others : List IoEvent) : Kernel := (fsyncLogged others).after [.endOp 1]

theorem fsync_durable_alone :
    Holds (stopAfter 30 recoverFromLog (.powerOn (fsyncReturned []).disk 0)) 1 0 7 := by
  have hrun : Kernel.Steps (fun _ => True) (.boot fsyncDisk) (fsyncBefore []) :=
    .of_run (Kernel.run_after (by decide +kernel))
  have hcall : (fsyncBefore []).fire (.beginOp 1) = some (fsyncCalled []) :=
    Kernel.fire_after (by decide +kernel)
  have hlog : Kernel.Steps (fun s => Holds s.cache 1 0 7) (fsyncCalled []) (fsyncLogged []) :=
    .single ⟨⟨_, Kernel.fire_after (by decide +kernel)⟩, by decide +kernel⟩
  have hreturn : (fsyncLogged []).fire (.endOp 1) = some (fsyncReturned []) :=
    Kernel.fire_after (by decide +kernel)
  have hlast : (fsyncLogged []).log.outstanding = 1 := by decide +kernel
  have hold : Holds (fsyncBefore []).cache 1 0 7 := by decide +kernel
  have hhead : headCount ((fsyncReturned []).disk sb.logstart) < 30 := by decide +kernel
  obtain ⟨m, hrec, hdisk⟩ := recover_disk hhead
  rw [hdisk]
  exact fsync_durable (by decide +kernel) hrun hcall hold hlog hlast hreturn .refl
    (.inl rfl) [] hrec

/-- While process 2 is inside of an operation, `filefsync` returns without a commit. -/
theorem fsync_lost : ∃ d₀ s₀ s₁ s₂ s₃ m, headCount (d₀ sb.logstart) = 0 ∧
    Kernel.Steps (fun _ => True) (.boot d₀) s₀ ∧ s₀.fire (.beginOp 1) = some s₁ ∧
    Holds s₀.cache 1 0 7 ∧ Kernel.Steps (fun s => Holds s.cache 1 0 7) s₁ s₂ ∧
    s₂.fire (.endOp 1) = some s₃ ∧ s₃.Crashes s₃.disk ∧
    recoverFromLog (.powerOn s₃.disk 30) = .ok ((), m) ∧ ¬ Holds m.disk 1 0 7 := by
  have hhead : headCount ((fsyncReturned [.beginOp 2]).disk sb.logstart) < 30 := by decide +kernel
  obtain ⟨m, hrec, hdisk⟩ := recover_disk hhead
  refine ⟨fsyncDisk, fsyncBefore [.beginOp 2], fsyncCalled [.beginOp 2],
    fsyncLogged [.beginOp 2], fsyncReturned [.beginOp 2], m, by decide +kernel,
    .of_run (Kernel.run_after (by decide +kernel)), Kernel.fire_after (by decide +kernel),
    by decide +kernel, .single ⟨⟨_, Kernel.fire_after (by decide +kernel)⟩, by decide +kernel⟩,
    Kernel.fire_after (by decide +kernel), .inl rfl, hrec, ?_⟩
  rw [← hdisk]
  decide +kernel

end OopsOS
