import OopsOS.Runs
import OopsOS.Boot

namespace OopsOS
set_option autoImplicit true

variable {d : Disk} {s s' : FsState}

/-- The reference counts are exact, the map marks what is pointed to, and index blocks are not
shared. -/
structure Exact (s : FsState) : Prop where
  ref : ∀ b, FileBlock b → s.ref b = s.allPtrs.count b
  bit : ∀ b, FileBlock b → (bitOf s.blocks b = true ↔ 0 < s.allPtrs.count b)
  once : ∀ i ∈ s.used, ∀ k, k.index = true → s.view i k ≠ 0 → s.allPtrs.count (s.view i k) = 1

theorem BlockInv.exact (h : BlockInv s) : Exact s := by
  have hacct := h.acct
  refine ⟨fun b hb => ?_, fun b hb => ?_, h.once⟩
  · have href := hacct.ref_eq b
    rwa [add_zero] at href
  · rw [Multiset.count_pos]
    constructor
    · intro hbit
      have hmem := hacct.mem_of_bit b hb hbit
      rwa [add_zero] at hmem
    · intro hmem
      exact hacct.bit_of_mem b (by rwa [add_zero])

/-- From a consistent device on, the counts stay exact, and operations stop only for a full device.
-/
theorem refs_exact (hd : DiskOk d) (hm : Alloc.MetaMarked sb d) (hs : Booted d s)
    (hrun : Runs (fun _ _ => True) s s') :
    Exact s' ∧ ∀ op : FsOp, op.Allowed s' → ∀ e, op.exec s' = .error e → e = .outOfBlocks := by
  have hinv := hrun.inv (hs.inv hd hm)
  refine ⟨hinv.exact, fun op ha e he => ?_⟩
  exact (op.exec_safe hinv ha).of_error he

def appendByte : FsOp := .writei 1 (.kernel fun _ => 7) 1024 1

def appendDisk (r : Nat) : Disk := oneFileDisk r (fileInode 1024 [3000]) 0

theorem appendDisk_ok (hr : r ≤ nmeta + SWAPBLOCKS) : DiskOk (appendDisk r) :=
  oneFileDisk_ok (by decide) hr

theorem appendByte_allowed (r : Nat) : appendByte.Allowed (.boot (appendDisk r)) :=
  ⟨mem_used_oneFileDisk (by decide) (booted_boot _), by decide⟩

theorem refs_exact_append : Exact (appendByte.after (.boot (appendDisk nmeta))) :=
  (refs_exact (appendDisk_ok (by decide)) (directImage_marked (Nat.le_refl _)) (booted_boot _)
    (.single ⟨_, trivial, FsOp.completes_after (appendByte_allowed _) (by decide +kernel)⟩)).1

/-- If the map does not mark its own first block as used, that block is allocated for a file. -/
theorem refs_inexact_unmarked : ∃ d s s', DiskOk d ∧ Booted d s ∧ Runs (fun _ _ => True) s s' ∧
    ¬ Exact s' := by
  refine ⟨appendDisk 95, .boot (appendDisk 95), appendByte.after (.boot (appendDisk 95)),
    appendDisk_ok (by decide), booted_boot _,
    .single ⟨_, trivial, FsOp.completes_after (appendByte_allowed _) (by decide +kernel)⟩, ?_⟩
  have hview : (appendByte.after (.boot (appendDisk 95))).view 1 (.direct 0) = 3000 := by
    decide +kernel
  have hused : 1 ∈ (appendByte.after (.boot (appendDisk 95))).used :=
    FsState.mem_used.2 ⟨by decide, by decide +kernel⟩
  have hclear : bitOf (appendByte.after (.boot (appendDisk 95))).blocks 3000 = false := by
    decide +kernel
  generalize appendByte.after (.boot (appendDisk 95)) = s' at hview hused hclear
  intro hexact
  have hmem : 3000 ∈ s'.allPtrs := by
    rw [← hview]
    exact FsState.mem_allPtrs hused (by rw [hview]; decide)
  have hbit := (hexact.bit 3000 (by decide)).2 (Multiset.count_pos.2 hmem)
  rw [hclear] at hbit
  cases hbit

variable {s₁ : FsState} {A B : Nat} {P : FsState → FsOp → Prop}

theorem Runs.untouched (hrun : Runs P s s') (hs : BlockInv s) (hP : ∀ s op, P s op → op.target ≠ B)
    (hB : B ∈ s.used) : Untouched B s s' := by
  induction hrun with
  | refl => exact .refl B s
  | tail hinit hop ih =>
    obtain ⟨op, hp, hc⟩ := hop
    have hsafe := hc.safe (Runs.inv hinit hs)
    exact ih.trans (hsafe.untouched B (ih.used hB) (hP _ op hp).symm)

def FsOp.Changes (A : Nat) : FsOp → Prop
  | writei B _ _ _ | falloc B _ _ _ _ | ipunch B _ _ | itruncTo B _ | itrunc B => B = A
  | _ => False

theorem FsOp.Changes.target {op : FsOp} (h : op.Changes A) : op.target = A := by
  cases op <;> first | exact h | exact h.elim

/-- Files do not see what is done to the files they share blocks with. -/
theorem sharing_isolated (hs : BlockInv s) (hB : B ∈ s.used) (hne : A ≠ B)
    (hrun : Runs (fun _ op => op.Changes A) s s') :
    (∀ copyout off n, readi s'.blocks (s'.inodeOf B) copyout off n =
      readi s.blocks (s.inodeOf B) copyout off n) ∧
    (s'.inodeOf B).size = (s.inodeOf B).size ∧
    (∀ bn, bmapNalloc s'.blocks (s'.inodeOf B) bn = bmapNalloc s.blocks (s.inodeOf B) bn) ∧
    s'.view B = s.view B ∧
    ∀ k, s.view B k ≠ 0 → bitOf s'.blocks (s.view B k) = true ∧ 0 < s'.ref (s.view B k) := by
  have hu := hrun.untouched hs (fun _ op hop => hop.target.symm ▸ hne) hB
  have hacct := (hrun.inv hs).acct
  refine ⟨fun copyout off n => ?_, by rw [hu.inode], fun bn => ?_, hu.view, fun k hk => ?_⟩
  · exact readi_congr (by rw [hu.inode]) hu.fileBlock
  · rw [bmapNalloc_eq, bmapNalloc_eq]
    exact congrFun hu.view _
  · have hmem : s.view B k ∈ s'.allPtrs := by
      rw [← hu.view] at hk ⊢
      exact FsState.mem_allPtrs (hu.used hB) hk
    have hmem' : s.view B k ∈ s'.allPtrs + 0 := by rwa [add_zero]
    refine ⟨hacct.bit_of_mem _ hmem', ?_⟩
    rw [hacct.ref_eq]
    exact Multiset.count_pos.2 hmem'

def twoFiles (i : Nat) : Inode := if i = 1 ∨ i = 2 then fileInode 1024 [3000] else emptyInode

def twoFilesDisk : Disk := directImage nmeta twoFiles 3 fun _ _ => 5

def overwriteByte : FsOp := .writei 1 (.kernel fun _ => 7) 0 1

theorem twoFiles_direct : DirectOnly twoFiles 3 := by
  refine ⟨fun i hi => ?_, by decide, by decide⟩
  rw [twoFiles, if_neg (by omega)]
  rfl

theorem sharing_isolated_overwrite :
    readi (overwriteByte.after (.boot twoFilesDisk)).blocks
      ((overwriteByte.after (.boot twoFilesDisk)).inodeOf 2) (fun _ _ => true) 0 1024 =
    readi twoFilesDisk (dinodeOf twoFilesDisk 2) (fun _ _ => true) 0 1024 := by
  have hinv : BlockInv (.boot twoFilesDisk) := (booted_boot _).inv
    (directImage_ok twoFiles_direct (by decide) (by decide)) (directImage_marked (Nat.le_refl _))
  have hused (i : Nat) (hi : i = 1 ∨ i = 2) : i ∈ (FsState.boot twoFilesDisk).used := by
    have hlt : i < sb.ninodes := by
      change i < 1000
      omega
    refine FsState.mem_used.2 ⟨⟨by omega, hlt⟩, ?_⟩
    rw [(booted_boot _).inodeOf, twoFilesDisk, directImage, dinodeOf_image hlt, twoFiles, if_pos hi]
    decide
  have hrun : Runs (fun _ op => op.Changes 1) (.boot twoFilesDisk)
      (overwriteByte.after (.boot twoFilesDisk)) := by
    refine .single ⟨overwriteByte, rfl, FsOp.completes_after ⟨hused 1 (.inl rfl), by decide⟩ ?_⟩
    decide +kernel
  have h := (sharing_isolated hinv (hused 2 (.inr rfl)) (by decide) hrun).1 (fun _ _ => true) 0 1024
  rw [(booted_boot _).inodeOf] at h
  exact h

variable {s₀ : FsState} {op : FsOp}

theorem allPtrs_congr (h : ∀ i < sb.ninodes, f i = g i) :
    allPtrs d f = allPtrs d g := by
  have hused : usedInodes f = usedInodes g := by
    apply Finset.filter_congr
    intro i hi
    rw [h i (Finset.mem_Ico.1 hi).2]
  rw [allPtrs, allPtrs, hused]
  apply Finset.sum_congr rfl
  intro i hi
  rw [h i (Finset.mem_Ico.1 (Finset.mem_filter.1 hi).1).2]

theorem WrittenThrough.restart (h : WrittenThrough s) (hs : BlockInv s) (b : Nat) :
    brefInit s.blocks b = s.ref b := by
  have href := hs.acct.ref_eq b
  rw [add_zero, FsState.allPtrs, allPtrs_congr h] at href
  rw [brefInit_eq, href]

theorem Booted.through (h : Booted d s) : WrittenThrough s := by
  intro i _
  rw [h.inodeOf, h.blocks]

theorem Runs.through (h : Runs FsOp.WritesThrough s s') (hs : BlockInv s)
    (hw : WrittenThrough s) : WrittenThrough s' := by
  induction h with
  | refl => exact hw
  | tail hinit hstep ih =>
    obtain ⟨op, hc, hop⟩ := hstep
    exact (hop.safe (Runs.inv hinit hs)).through hc ih

theorem falloc_through (hs : BlockInv s) (hw : WrittenThrough s)
    (ha : (FsOp.falloc A startb endb newsize keep).Allowed s) :
    wp OutOfBlocks (FsOp.falloc A startb endb newsize keep).exec s fun _ s' =>
      WrittenThrough s' → (FsOp.falloc A startb endb newsize keep).WritesThrough s := by
  obtain ⟨hA, hle, hmax⟩ := ha
  have hlt := FsState.lt_of_used hA
  apply ilock_then hA
  intro s₁ hlike hv _
  have hinv := (hlike.inv hs).file (hlike.used.symm ▸ hA) hv
  have hsync := (hlike.through hw).synced hlt hv
  by_cases hsize : newsize ≤ MAXFILE * BSIZE
  · apply (falloc_done hinv hlt hle hmax hsize).bind
    intro _ s' h'
    obtain ⟨-, hd, -, -, hiff⟩ := h'
    intro hw'
    have hcond := (hiff hsync).1 (hw'.synced hlt hd.inv.valid)
    rw [← FsState.inodeOf_valid hv, ← FsState.view_valid hv, hlike.inode, hlike.view] at hcond
    rcases hcond with hkeep | hgrow | hroot
    · exact .inl hkeep
    · exact .inr (.inl hgrow)
    · exact .inr (.inr (.inr hroot))
  · simp only [OopsOS.falloc, if_pos (Nat.not_le.1 hsize), wp_bind, wp_pure]
    exact fun _ => .inr (.inr (.inl (Nat.not_le.1 hsize)))

/-- In a run of calls that write through, a restart finds the counts again; only a `falloc` into a
hole breaks this. -/
theorem inodes_written_through (hs : BlockInv s₀) (hw : WrittenThrough s₀)
    (hrun : Runs FsOp.WritesThrough s₀ s) :
    WrittenThrough s ∧ (∀ b, DataBlock b → brefInit s.blocks b = s.ref b) ∧
      ∀ op s', FsOp.Completes op s s' → (WrittenThrough s' ↔ op.WritesThrough s) := by
  have hinv := hrun.inv hs
  have hall := hrun.through hs hw
  refine ⟨hall, fun b _ => hall.restart hinv b, fun op s' hop => ⟨fun hw' => ?_, fun hc => ?_⟩⟩
  · cases op with
    | falloc A startb endb newsize keep =>
      exact (falloc_through hinv hall hop.1).of_ok hop.2 hw'
    | _ => trivial
  · exact (hop.safe hinv).through hc hall

def holeDisk : Disk := oneFileDisk (nmeta + SWAPBLOCKS) (fileInode 2048 [3000]) 0

def holeState : FsState := .bootAt holeDisk (nmeta + SWAPBLOCKS)

theorem holeState_booted : Booted holeDisk holeState := booted_bootAt _ _

theorem holeState_inv : BlockInv holeState :=
  holeState_booted.inv (oneFileDisk_ok (by decide) (by decide)) (directImage_marked (by decide))

def fillHole (keep : Bool) : FsOp := .falloc 1 1 2 2048 keep

theorem fillHole_allowed (keep : Bool) : (fillHole keep).Allowed holeState :=
  ⟨mem_used_oneFileDisk (by decide) holeState_booted, by decide, by decide⟩

theorem inodes_written_through_keep :
    brefInit ((fillHole true).after holeState).blocks 2156 =
      ((fillHole true).after holeState).ref 2156 := by
  have hop := FsOp.completes_after (fillHole_allowed true) (by decide +kernel)
  have hrun : Runs FsOp.WritesThrough holeState ((fillHole true).after holeState) :=
    .single ⟨fillHole true, .inl rfl, hop⟩
  have h := inodes_written_through holeState_inv holeState_booted.through hrun
  exact h.2.1 2156 (by decide)

/-- Without the flag the new address stays in memory, and a restart loses its block. -/
theorem falloc_hole_lost : ∃ s op s', BlockInv s ∧ WrittenThrough s ∧ FsOp.Completes op s s' ∧
    ¬ WrittenThrough s' ∧ ∃ b, DataBlock b ∧ brefInit s'.blocks b ≠ s'.ref b := by
  refine ⟨holeState, fillHole false, (fillHole false).after holeState, holeState_inv,
    holeState_booted.through, FsOp.completes_after (fillHole_allowed false) (by decide +kernel), ?_,
    2156, by decide, by decide +kernel⟩
  intro hw
  have hne : (((fillHole false).after holeState).inodeOf 1).addr 1 ≠
      (dinodeOf ((fillHole false).after holeState).blocks 1).addr 1 := by decide +kernel
  exact hne (by rw [hw 1 (by decide)])

end OopsOS
