import OopsOS.Boot
import OopsOS.FsOps

namespace OopsOS
set_option autoImplicit true

variable {s s' : FsState} {A off n o m : Nat} {d : Disk} {ip : Inode} {f g : Nat → UInt8}

def splice (old : List α) (off : Nat) (new : List α) : List α :=
  old.take off ++ new ++ old.drop (off + new.length)

theorem getElem?_splice {old new : List α} (h : off ≤ old.length) (p : Nat) :
    (splice old off new)[p]? =
      if off ≤ p ∧ p < off + new.length then new[p - off]? else old[p]? := by
  have hlen : (old.take off).length = off := by
    rw [List.length_take]
    omega
  by_cases hlt : p < off
  · rw [splice, List.append_assoc, List.getElem?_append_left (by omega),
      List.getElem?_take_of_lt hlt, if_neg (by omega)]
  · rw [splice, List.append_assoc, List.getElem?_append_right (by omega), hlen]
    by_cases hin : p < off + new.length
    · rw [List.getElem?_append_left (by omega), if_pos (by omega)]
    · rw [List.getElem?_append_right (by omega), List.getElem?_drop, if_neg (by omega)]
      congr 1
      omega

def contents (d : Disk) (ip : Inode) : List UInt8 :=
  (List.range ip.size.toNat).map (fileByte d ip)

theorem length_contents (d : Disk) (ip : Inode) : (contents d ip).length = ip.size.toNat := by
  rw [contents, List.length_map, List.length_range]

theorem getElem?_contents (d : Disk) (ip : Inode) (p : Nat) :
    (contents d ip)[p]? = if p < ip.size.toNat then some (fileByte d ip p) else none := by
  rw [contents, List.getElem?_map]
  by_cases hp : p < ip.size.toNat
  · rw [List.getElem?_range hp, if_pos hp]
    rfl
  · rw [List.getElem?_eq_none (by rw [List.length_range]; omega), if_neg hp]
    rfl

theorem readi_contents (hcopy : ∀ t k, copyout t k = true)
    (hlt : o + m < 2 ^ 32) : readi d ip copyout o m = ((contents d ip).drop o).take m := by
  by_cases ho : o ≤ ip.size.toNat
  · rw [readi_eq hcopy ho hlt]
    apply List.ext_getElem?
    intro i
    rw [List.getElem?_map, List.getElem?_take, List.getElem?_drop, getElem?_contents]
    by_cases hi : i < min m (ip.size.toNat - o)
    · rw [List.getElem?_range hi, if_pos (by omega), if_pos (by omega)]
      rfl
    · rw [List.getElem?_eq_none (by rw [List.length_range]; omega)]
      split
      · rw [if_neg (by omega)]
        rfl
      · rfl
  · rw [readi, if_pos (.inl (Nat.not_le.1 ho)), List.drop_of_length_le, List.take_nil]
    rw [length_contents]
    omega

theorem fileByte_hole (h : bmapNalloc d ip (p / BSIZE) = 0) : fileByte d ip p = 0 := by
  rw [fileByte, fileBlock, h]
  rfl

theorem Written.contents
    (h : Written O M A (.kernel fun i => buf.getD i 0) off buf.length s s')
    (hoff : off ≤ (s.inode A).size.toNat) : OopsOS.contents s'.blocks (s'.inode A) =
      splice (OopsOS.contents s.blocks (s.inode A)) off buf := by
  obtain ⟨hnew, hsize⟩ := h.full fun _ _ => rfl
  apply List.ext_getElem?
  intro p
  rw [getElem?_splice (by rwa [length_contents]), getElem?_contents, getElem?_contents, hsize,
    ← FsState.byteAt_eq, ← FsState.byteAt_eq]
  by_cases hin : off ≤ p ∧ p < off + buf.length
  · have hlt : p - off < buf.length := by omega
    rw [if_pos (by omega), if_pos hin, hnew p hin.1 hin.2, List.getElem?_eq_getElem hlt]
    exact congrArg some (List.getD_eq_getElem _ _ hlt)
  · rw [if_neg hin, h.outside hin]
    by_cases hp : p < (s.inode A).size.toNat
    · rw [if_pos hp, if_pos (by omega)]
    · rw [if_neg hp, if_neg (by omega)]

/-- `writei` on a file is a write to a byte array, and `readi` reads that array. -/
theorem writei_refines (hs : BlockInv s) (hA : A ∈ s.used) (hv : s.valid A = true)
    (buf : List UInt8) (off : Nat) (hoff : off ≤ (s.inode A).size.toNat)
    (hmax : off + buf.length ≤ MAXFILE * BSIZE) :
    wp OutOfBlocks (writei A (.kernel fun i => buf.getD i 0) off buf.length) s fun r s' =>
      r = buf.length ∧
      (s'.inode A).size.toNat = max (s.inode A).size.toNat (off + buf.length) ∧
      (∀ o m, o + m < 2 ^ 32 →
        readi s.blocks (s.inode A) (fun _ _ => true) o m =
          ((contents s.blocks (s.inode A)).drop o).take m ∧
        readi s'.blocks (s'.inode A) (fun _ _ => true) o m =
          ((splice (contents s.blocks (s.inode A)) off buf).drop o).take m) ∧
      ∀ p, bmapNalloc s'.blocks (s'.inode A) (p / BSIZE) = 0 → p < (s'.inode A).size.toNat →
        readi s'.blocks (s'.inode A) (fun _ _ => true) p 1 = [0] := by
  apply (writei_spec (hs.file hA hv) (FsState.lt_of_used hA) hoff hmax).mono
  intro r s' h
  obtain ⟨hr, hw⟩ := h
  refine ⟨hr, (hw.full fun _ _ => rfl).2, fun o m hlt => ⟨?_, ?_⟩, fun p hp hlt => ?_⟩
  · exact readi_contents (fun _ _ => rfl) hlt
  · rw [readi_contents (fun _ _ => rfl) hlt, hw.contents hoff]
  · have hsize : (s'.inode A).size.toNat < 2 ^ 32 := (s'.inode A).size.toNat_lt
    rw [readi_eq (fun _ _ => rfl) (by omega) (by omega), show min 1 _ = 1 by omega]
    exact congrArg (fun x => [x]) (fileByte_hole hp)

def fivesState : FsState := .cached (oneFileDisk nmeta (fileInode 1024 [3000]) 5)

theorem fivesState_inv : BlockInv fivesState :=
  (booted_cached _).inv (oneFileDisk_ok (by decide) (by decide))
    (directImage_marked (Nat.le_refl _))

theorem fivesState_used : 1 ∈ fivesState.used := FsState.mem_used.2 ⟨by decide, by decide +kernel⟩

theorem writei_refines_fives :
    wp OutOfBlocks (writei 1 (.kernel fun i => [7, 8, 9].getD i 0) 1023 3) fivesState fun r s' =>
      r = 3 ∧ readi s'.blocks (s'.inode 1) (fun _ _ => true) 1022 9 = [5, 7, 8, 9] := by
  have hused := fivesState_used
  have hvalid : fivesState.valid 1 = true := rfl
  have hoff : 1023 ≤ (fivesState.inode 1).size.toNat := by decide +kernel
  have hinv := fivesState_inv
  have hnew : ((splice (contents fivesState.blocks (fivesState.inode 1)) 1023 [7, 8, 9]).drop
      1022).take 9 = [5, 7, 8, 9] := by decide +kernel
  generalize fivesState = s at *
  apply (writei_refines hinv hused hvalid [7, 8, 9] 1023 hoff (by decide)).mono
  intro r s' h
  obtain ⟨hr, -, hread, -⟩ := h
  exact ⟨hr, (hread 1022 9 (by decide)).2.trans hnew⟩

end OopsOS
