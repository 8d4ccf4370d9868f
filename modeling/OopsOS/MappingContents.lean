import OopsOS.Mapping

namespace OopsOS.Mapping
set_option autoImplicit true
open Function

variable {s s' : Mapped} {va q start n : Nat}

def Mapped.expected (s : Mapped) (va : Nat) : Byte :=
  if va - s.base < s.filesz then .file (va - s.base) else .zero

/-- While the file has its bytes, each address not stored to shows the byte at its distance from the
base, or zero. -/
def Mapped.Shown (s : Mapped) : Prop :=
  s.modified = false → ∀ va, s.covers va = true → s.stored va = false → s.view va = s.expected va

def Event.whole : Event → Bool
  | .munmap _ n => n % PGSIZE = 0
  | _ => true

/-- None of the addresses from the given one on is both absent and not stored to. -/
def Mapped.lasting (s : Mapped) (lo n : Nat) : Bool :=
  (List.range n).all fun k => !(s.page ((lo + k) / PGSIZE)).isAbsent || s.stored (lo + k)

theorem Mapped.lasting_iff : s.lasting start n = true ↔
    ∀ k, k < n → s.page ((start + k) / PGSIZE) = .absent → s.stored (start + k) = true := by
  simp only [lasting, List.all_eq_true, List.mem_range, Bool.or_eq_true, Bool.not_eq_true',
    ← Slot.isAbsent_iff]
  refine forall_congr' fun k => imp_congr_right fun _ => ?_
  cases (s.page ((start + k) / PGSIZE)).isAbsent <;> simp

/-- A head is unmapped only if the pages of the rest that are read from the file are present, and
stay. -/
def Mapped.Tidy (s : Mapped) : Event → Prop
  | .munmap start n =>
    (s.munmap start n).any (fun s' => !s'.modified && s'.addr = start + n) = true → s.addr = start →
      0 < n → s.lasting (start + n) (min (s.len - n) s.filesz) = true
  | .evict q =>
    s.modified = false → s.shared = true → s.write = false → s.addr ≠ s.base →
      s.covers (q * PGSIZE) = true → s.filesz ≤ q * PGSIZE - s.addr
  | _ => True

instance Mapped.Tidy.decidable (s : Mapped) : (e : Event) → Decidable (s.Tidy e)
  | .munmap start n =>
    inferInstanceAs (Decidable ((s.munmap start n).any (fun s' => !s'.modified &&
      s'.addr = start + n) = true → s.addr = start → 0 < n → s.lasting (start + n)
        (min (s.len - n) s.filesz) = true))
  | .evict q =>
    inferInstanceAs (Decidable (s.modified = false → s.shared = true → s.write = false →
      s.addr ≠ s.base → s.covers (q * PGSIZE) = true → s.filesz ≤ q * PGSIZE - s.addr))
  | .fault _ | .store _ | .seek _ | .finish => inferInstanceAs (Decidable True)

/-- Where the mapping lies and what the file holds, as long as the file is not modified. -/
structure Mapped.Laid (s : Mapped) : Prop where
  start : s.base ≤ s.addr
  shift : (s.addr - s.base) % PGSIZE = 0
  whole : s.len % PGSIZE = 0
  filed : s.filesz ≤ s.was
  size : s.was ≤ s.file.size
  place : s.base % PGSIZE = 0 ∨ s.filesz = 0
  unstored : s.write = false → ∀ va, s.stored va = false
  bytes : ∀ x, x < s.was → s.file.bytes x = .file x

structure Mapped.Kept (s : Mapped) : Prop extends s.Laid where
  shown : ∀ va, s.covers va = true → s.stored va = false → s.view va = s.expected va

theorem File.writei_size {f f' : File} {pos : Nat} (h : f.writei pos n src = some f') :
    f.size ≤ f'.size := by
  unfold File.writei at h
  split at h
  · cases h
  · exact Option.some.inj h ▸ Nat.le_max_left ..

theorem File.filewrite_size {src : Nat → Option Byte}
    (h : File.filewrite src fuel f i n = some f') : f.size ≤ f'.size := by
  induction fuel generalizing f i with
  | zero => exact Option.some.inj h ▸ Nat.le_refl _
  | succ fuel ih =>
    unfold File.filewrite at h
    split at h
    · exact Option.some.inj h ▸ Nat.le_refl _
    split at h
    · exact Option.some.inj h ▸ Nat.le_refl _
    dsimp only at h
    split at h
    · exact Option.some.inj h ▸ Nat.le_refl _
    · next f₁ hf₁ =>
      split at h
      · cases h
      · have hrest := ih h
        exact Nat.le_trans (writei_size hf₁) hrest

theorem Mapped.vmaWriteback_size (h : s.vmaWriteback va c = some f) : s.file.size ≤ f.size := by
  unfold vmaWriteback at h
  split at h
  · exact Option.some.inj h ▸ Nat.le_refl _
  split at h
  · exact Option.some.inj h ▸ Nat.le_refl _
  · exact File.writei_size h

theorem Mapped.flush_size (h : s.flush start n = some f) : s.file.size ≤ f.size := by
  unfold flush at h
  split at h
  · exact File.filewrite_size h
  · exact Option.some.inj h ▸ Nat.le_refl _

theorem Mapped.wrote_iff : (s.wrote f).modified = false ↔
    s.modified = false ∧ ∀ x, x < s.was → f.bytes x = .file x := by
  rw [← File.differs_iff]
  exact Bool.or_eq_false_iff

section
variable (h : s.Laid)
include h

theorem Mapped.Laid.aligned (hbase : s.base % PGSIZE = 0) : s.addr % PGSIZE = 0 := by
  have hstart := h.start
  have hshift := h.shift
  simp only [PGSIZE] at hbase hshift ⊢
  omega

/-- A page that is read from the file shows the bytes at the distance from the present start. -/
theorem Mapped.Laid.fill (hva : s.addr ≤ va) : s.fill va (va % PGSIZE) =
    if va - s.addr < s.filesz then .file (va - s.addr) else .zero := by
  obtain hbase | hzero := h.place
  · rw [fill_eq (h.aligned hbase) hva (Nat.le_trans h.filed h.size)]
    split
    · next hlt => exact h.bytes _ (Nat.lt_of_lt_of_le hlt h.filed)
    · rfl
  · rw [fill_zero hzero, hzero, if_neg (Nat.not_lt_zero _)]

theorem Mapped.Laid.fill_expected (hva : s.addr ≤ va)
    (hpos : va - s.addr < s.filesz → s.addr = s.base) :
    s.fill va (va % PGSIZE) = s.expected va := by
  rw [h.fill hva, expected]
  have hstart := h.start
  by_cases hlt : va - s.addr < s.filesz
  · rw [if_pos hlt, if_pos (hpos hlt ▸ hlt), hpos hlt]
  · rw [if_neg hlt, if_neg (by omega)]

theorem Mapped.Laid.hidden (hmod : s.modified = false) (hstart : s.addr ≠ s.base)
    (hcov : s.covers va = true) (hst : s.stored va = false) (hab : s.page (va / PGSIZE) = .absent)
    (hfile : va - s.addr < s.filesz) : ¬ s.Shown := by
  intro hshown
  have hview := hshown hmod va hcov hst
  have hva := (covers_iff.1 hcov).2.1
  have hle := h.start
  rw [view_absent hab rfl, h.fill hva, if_pos hfile, expected] at hview
  split at hview
  · have hpos := Byte.file.inj hview
    omega
  · cases hview

theorem Mapped.Laid.wrote (hmod : (s.wrote f).modified = false) (hsize : s.file.size ≤ f.size) :
    (s.wrote f).Laid :=
  { h with size := Nat.le_trans h.size hsize, bytes := (wrote_iff.1 hmod).2 }

theorem Mapped.Laid.cut_laid (hn : n % PGSIZE = 0)
    (hmod : (s.cut start n f).modified = false) (hsize : s.file.size ≤ f.size) :
    (s.cut start n f).Laid := by
  have hstart := h.start
  have hshift := h.shift
  refine { h with
    start := ?_
    shift := ?_
    whole := Nat.sub_mod_eq_zero_of_mod_eq (h.whole.trans hn.symm)
    size := Nat.le_trans h.size hsize
    bytes := (wrote_iff.1 hmod).2 }
  · simp only [Mapped.cut, unmapped, Mapped.wrote, shrink]
    split <;> omega
  · simp only [Mapped.cut, unmapped, Mapped.wrote, shrink, PGSIZE] at hn hshift ⊢
    split <;> omega

end

section
variable (h : s.Kept)
include h

theorem Mapped.Kept.fits : s.Fits := by
  refine h.place.symm.imp_right fun hbase => ⟨h.aligned hbase, .inr ?_⟩
  have hal := h.aligned hbase
  have hlen := h.whole
  simp only [PGSIZE] at hal hlen ⊢
  omega

theorem Mapped.Kept.repage (hview : ∀ va, s.covers va = true →
    Mapped.view { s with page := pages } va = s.view va) : Mapped.Kept { s with page := pages } :=
  { h with shown := fun va hcov hst => (hview va hcov).trans (h.shown va hcov hst) }

theorem Mapped.Kept.argaddr (hfire : s.argaddr va = some s') : s'.Kept := by
  obtain ⟨page, rfl, -⟩ := argaddr_same hfire
  exact h.repage fun va' => argaddr_view (fun _ => h.fits) hfire

theorem Mapped.Kept.fault (hfire : s.fault va = some s') : s'.Kept := by
  obtain ⟨page, rfl⟩ := fault_same hfire
  exact h.repage fun va' => fault_view (fun _ => h.fits) hfire

theorem Mapped.Kept.store (hfire : s.store va = some s') : s'.Kept := by
  have hview {va' : Nat} : va' ≠ va → s'.view va' = s.view va' := store_view hfire
  obtain ⟨c, -, hw, -, rfl⟩ := store_cases hfire
  refine { h with
    unstored := fun hw' => Bool.noConfusion (hw.symm.trans hw')
    shown := fun va' hcov hst => ?_ }
  have hne : va' ≠ va := by
    rintro rfl
    exact Bool.noConfusion ((update_self (f := s.stored) va' true).symm.trans hst)
  exact (hview hne).trans (h.shown va' hcov ((update_of_ne hne ..).symm.trans hst))

theorem Mapped.Kept.written_place (hw : s.write = true) (hc : s.page q = .resident c)
    (hcov : s.covers (q * PGSIZE) = true) (hf : s.vmaWriteback (q * PGSIZE) c = some f)
    (hbytes : ∀ x, x < s.was → f.bytes x = .file x) (hq : va / PGSIZE = q)
    (hva : s.covers va = true) (hst : s.stored va = false) (hlt : va - s.addr < s.filesz) :
    s.addr = s.base := by
  have hal := h.aligned (h.place.resolve_right (by omega))
  obtain ⟨-, hlo, hhi⟩ := covers_iff.1 hva
  have hstart := (covers_iff.1 hcov).2
  have hoff : s.pageOff (q * PGSIZE) = q * PGSIZE - s.addr := by
    simp only [pageOff, PGSIZE] at hal hstart ⊢
    omega
  have hin : q * PGSIZE ≤ va ∧ va < q * PGSIZE + PGSIZE ∧ va % PGSIZE = va - q * PGSIZE := by
    simp only [PGSIZE] at hq ⊢
    omega
  have hbyte := hbytes _ (Nat.lt_of_lt_of_le hlt h.filed)
  obtain ⟨hno, -⟩ | ⟨-, -, rfl⟩ := vmaWriteback_cases (by rw [hoff]; omega) hf
  · cases hw.symm.trans hno
  have hview := h.shown va hva hst
  rw [view_holds (.inl hc) hq, hin.2.2] at hview
  simp only [hoff] at hbyte
  rw [if_pos (by omega), show va - s.addr - (q * PGSIZE - s.addr) = va - q * PGSIZE by omega, hview,
    expected] at hbyte
  split at hbyte
  · have hpos := Byte.file.inj hbyte
    have hbase := h.start
    omega
  · cases hbyte

theorem Mapped.Kept.evict (htidy : s.Tidy (.evict q)) (hfire : s.evict q = some s')
    (hmod : s'.modified = false) : s'.Kept := by
  obtain rfl | ⟨c, hc, ⟨hcov, hsh, f, hf, rfl⟩ | ⟨hcov, rfl⟩⟩ := evict_cases hfire
  · exact h
  · obtain ⟨hmod', hbytes⟩ := wrote_iff.1 hmod
    have hlaid : (s.setPage q .absent).Laid := { h with }
    have hlaid' := hlaid.wrote hmod (vmaWriteback_size hf)
    refine { hlaid' with shown := fun va hva hst => ?_ }
    have hlo : s.addr ≤ va := (covers_iff.1 hva).2.1
    by_cases hq : va / PGSIZE = q
    · rw [view_absent (s := (s.setPage q .absent).wrote f) (setPage_same s q _) hq]
      refine hlaid'.fill_expected hlo fun hlt => ?_
      cases hw : s.write with
      | true => exact h.written_place hw hc hcov hf hbytes hq hva hst hlt
      | false =>
        by_contra hbase
        have hpast := htidy hmod' hsh hw hbase hcov
        have hle : q * PGSIZE ≤ va := hq ▸ Nat.div_mul_le_self ..
        have hlt : va - s.addr < s.filesz := hlt
        omega
    · refine view_keep (h.shown va hva hst) (setPage_other hq) fun hab => ?_
      refine Eq.trans ?_ (h.shown va hva hst)
      rw [view_absent hab rfl, h.fill hlo]
      exact hlaid'.fill hlo
  · exact h.repage fun va _ => view_setPage_same (.inr rfl) fun hq => (view_holds (.inl hc) hq).symm

theorem Mapped.Kept.cut (hal : start % PGSIZE = 0) (hr : s.removable start n = true)
    (hlaid : (s.cut start n f).Laid)
    (htidy : s.addr = start → 0 < n → s.lasting (start + n) (min (s.len - n) s.filesz) = true) :
    (s.cut start n f).Kept := by
  refine { hlaid with shown := fun va hcov hst => ?_ }
  obtain ⟨hin, hpage⟩ := page_shrunk hal hr hcov
  have hst : s.stored va = false := hst
  have hva := (covers_iff.1 hcov).2
  have hwas := h.shown va hin hst
  refine view_keep hwas hpage fun hab => ?_
  by_cases hhead : s.addr = start ∧ 0 < n
  · have haddr : (s.cut start n f).addr = start + n := (if_pos hhead.1).trans (by rw [hhead.1])
    have hlen : (s.cut start n f).len = s.len - n := rfl
    refine hlaid.fill_expected hva.1 fun hlt => ?_
    rw [haddr, hlen] at hva
    rw [haddr] at hlt
    have hlt : va - (start + n) < s.filesz := hlt
    have hk := lasting_iff.1 (htidy hhead.1 hhead.2) (va - (start + n)) (by omega)
    rw [Nat.add_sub_cancel' hva.1] at hk
    exact Bool.noConfusion (hst.symm.trans (hk hab))
  · have haddr : (s.cut start n f).addr = s.addr := by
      simp only [Mapped.cut, unmapped, Mapped.wrote, shrink]
      split <;> omega
    refine Eq.trans ?_ hwas
    rw [hlaid.fill hva.1, haddr, view_absent hab rfl, h.fill (haddr ▸ hva.1)]
    rfl

theorem Mapped.Kept.munmap (hn : n % PGSIZE = 0) (htidy : s.Tidy (.munmap start n))
    (hfire : s.munmap start n = some s') (hmod : s'.modified = false) : s'.Kept := by
  obtain rfl | ⟨s₁, hpage, hrem⟩ := munmap_cases hfire
  · exact h
  have h₁ := h.argaddr hpage
  obtain ⟨-, rfl⟩ | ⟨hr, hal, f, hf, rfl⟩ := remove_cases hrem
  · exact h₁
  have hlaid := h₁.cut_laid hn hmod (flush_size (s := s₁.shrink start n) hf)
  obtain ⟨page, rfl, hother⟩ := argaddr_same hpage
  refine h₁.cut hal hr hlaid fun haddr hpos => lasting_iff.2 fun k hk hab => ?_
  refine lasting_iff.1 (htidy ?_ haddr hpos) k hk ?_
  · rw [hfire]
    refine Bool.and_eq_true_iff.2 ⟨by rw [hmod]; rfl, decide_eq_true ?_⟩
    exact (if_pos haddr).trans (congrArg (· + n) haddr)
  · rw [← hother _ (rest_page_ne hal hn hpos k)]
    exact hab

theorem Mapped.Kept.finish (hfire : s.finish = some s') (hmod : s'.modified = false) : s'.Kept := by
  obtain ⟨-, rfl⟩ | ⟨-, -, f, hf, rfl⟩ := finish_cases hfire
  · exact h
  · have hlaid := h.wrote hmod (flush_size hf)
    exact { hlaid with shown := fun va hcov => nomatch (covers_iff.1 hcov).1 }

end

theorem Mapped.modified_fire (hfire : fire s e = some s') (h : s'.modified = false) :
    s.modified = false := by
  cases e with
  | fault va =>
    obtain ⟨c, -, rfl⟩ | ⟨-, -, rfl⟩ | ⟨-, -, -, rfl⟩ := fault_cases hfire
    · exact h
    · exact h
    · exact h
  | store va =>
    obtain ⟨c, -, -, -, rfl⟩ := store_cases hfire
    exact h
  | seek off =>
    cases hfire
    exact h
  | evict q =>
    obtain rfl | ⟨c, -, ⟨-, -, f, -, rfl⟩ | ⟨-, rfl⟩⟩ := evict_cases hfire
    · exact h
    · exact (wrote_iff.1 h).1
    · exact h
  | munmap start n =>
    obtain rfl | ⟨s₁, hpage, hrem⟩ := munmap_cases hfire
    · exact h
    obtain ⟨page, rfl, -⟩ := argaddr_same hpage
    obtain ⟨-, rfl⟩ | ⟨-, -, f, -, rfl⟩ := remove_cases hrem
    · exact h
    · exact (wrote_iff.1 h).1
  | finish =>
    obtain ⟨-, rfl⟩ | ⟨-, -, f, -, rfl⟩ := finish_cases hfire
    · exact h
    · exact (wrote_iff.1 h).1

theorem Mapped.Kept.munmap_hidden (h : s.modified = false → s.Kept) (hn : n % PGSIZE = 0)
    (htidy : ¬ s.Tidy (.munmap start n)) (hfire : s.munmap start n = some s') : ¬ s'.Shown := by
  simp only [Tidy, lasting_iff, not_forall, Bool.not_eq_true] at htidy
  obtain ⟨hany, rfl, hpos, k, hk, hab, hst⟩ := htidy
  rw [hfire] at hany
  obtain ⟨hmod, haddr⟩ := Bool.and_eq_true_iff.1 hany
  have hmod : s'.modified = false := by simpa using hmod
  have haddr := of_decide_eq_true haddr
  have h := h (modified_fire (e := .munmap s.addr n) hfire hmod)
  obtain rfl | ⟨s₁, hpage, hrem⟩ := munmap_cases hfire
  · omega
  have h₁ := h.argaddr hpage
  obtain ⟨-, rfl⟩ | ⟨hr, hal, f, hf, rfl⟩ := remove_cases hrem
  · obtain ⟨page, rfl, -⟩ := argaddr_same hpage
    have haddr : s.addr = s.addr + n := haddr
    omega
  have hlaid := h₁.cut_laid hn hmod (flush_size (s := s₁.shrink s.addr n) hf)
  obtain ⟨page, rfl, hother⟩ := argaddr_same hpage
  have hle := h.start
  have hlen : s.len - n ≠ 0 := by omega
  have hcov : (Mapped.cut { s with page := page } s.addr n f).covers (s.addr + n + k) = true := by
    refine covers_iff.2 ⟨decide_eq_true hlen, ?_⟩
    rw [haddr]
    exact ⟨by omega, show s.addr + n + k < s.addr + n + (s.len - n) by omega⟩
  obtain ⟨-, hkept⟩ := page_shrunk hal hr hcov
  refine hlaid.hidden hmod ?_ hcov hst ?_ ?_
  · rw [haddr]
    show s.addr + n ≠ s.base
    omega
  · rw [hkept]
    exact (hother _ (rest_page_ne hal hn hpos k)).trans hab
  · rw [haddr, Nat.add_sub_cancel_left]
    show k < s.filesz
    omega

theorem Mapped.Kept.evict_hidden (h : s.modified = false → s.Kept) (htidy : ¬ s.Tidy (.evict q))
    (hfire : s.evict q = some s') : ¬ s'.Shown := by
  simp only [Tidy, not_forall, Nat.not_le] at htidy
  obtain ⟨hmod, hsh, hw, hbase, hcov, hfile⟩ := htidy
  have h := h hmod
  have hwb (c : Nat → Byte) : s.vmaWriteback (q * PGSIZE) c = some s.file := if_pos hw
  unfold Mapped.evict at hfire
  split at hfire
  · rw [if_pos ⟨hcov, hsh⟩, hwb] at hfire
    obtain rfl := Option.some.inj hfire
    have hsame : ((s.setPage q .absent).wrote s.file).modified = false :=
      wrote_iff.2 ⟨hmod, h.bytes⟩
    have hlaid : (s.setPage q .absent).Laid := { h with }
    refine (hlaid.wrote hsame (Nat.le_refl _)).hidden hsame hbase hcov (h.unstored hw _) ?_ hfile
    rw [Nat.mul_div_cancel _ (by decide)]
    exact setPage_same ..
  · cases hfire

theorem Mapped.Kept.fire (h : s.modified = false → s.Kept) (hwhole : e.whole = true)
    (htidy : s.Tidy e) (hfire : fire s e = some s') (hmod : s'.modified = false) : s'.Kept := by
  have h := h (modified_fire hfire hmod)
  cases e with
  | fault va => exact h.fault hfire
  | store va => exact h.store hfire
  | seek off =>
    cases hfire
    exact { h with }
  | evict q => exact h.evict htidy hfire hmod
  | munmap start n => exact h.munmap (of_decide_eq_true hwhole) htidy hfire hmod
  | finish => exact h.finish hfire hmod

theorem Mapped.Kept.fire_hidden (h : s.modified = false → s.Kept) (hwhole : e.whole = true)
    (htidy : ¬ s.Tidy e) (hfire : Mapping.fire s e = some s') : ¬ s'.Shown := by
  cases e with
  | munmap start n => exact munmap_hidden h (of_decide_eq_true hwhole) htidy hfire
  | evict q => exact evict_hidden h htidy hfire
  | _ => exact absurd trivial htidy

section Run

variable {sz length size off : Nat} {mode shared write : Bool} {es : List Event}

theorem mmap_kept (hlen : length % PGSIZE = 0) (hplace : sz % PGSIZE = 0 ∨ length = 0 ∨ size = 0) :
    (mmap sz length size off mode shared write).Kept := by
  have hsize : (mmap sz length size off mode shared write).filesz ≤ size := by
    simp only [mmap]
    split_ifs <;> omega
  have hplace' : sz % PGSIZE = 0 ∨ (mmap sz length size off mode shared write).filesz = 0 := by
    refine hplace.imp_right fun hzero => ?_
    simp only [mmap]
    split_ifs <;> omega
  have hlaid : (mmap sz length size off mode shared write).Laid := {
    start := Nat.le_refl _
    shift := by simp only [mmap, Nat.sub_self, Nat.zero_mod]
    whole := hlen
    filed := hsize
    size := Nat.le_refl _
    place := hplace'
    unstored := fun _ _ => rfl
    bytes := fun _ _ => rfl }
  exact { hlaid with
    shown := fun va hcov _ => (Mapped.view_absent rfl rfl).trans
      (hlaid.fill_expected (Mapped.covers_iff.1 hcov).2.1 fun _ => rfl) }

theorem mmap_unaligned (h : (mmap sz length size off mode shared write).Shown) :
    sz % PGSIZE = 0 ∨ length = 0 ∨ size = 0 := by
  by_contra hnot
  obtain ⟨hal, hlen, hsize⟩ : sz % PGSIZE ≠ 0 ∧ length ≠ 0 ∧ size ≠ 0 := by tauto
  have hview := h rfl sz (Mapped.covers_iff.2 ⟨rfl, Nat.le_refl _, Nat.lt_add_of_pos_right
    (Nat.pos_of_ne_zero hlen)⟩) rfl
  have hoff : (mmap sz length size off mode shared write).pageOff sz = 0 := by
    simp only [Mapped.pageOff, mmap, Nat.sub_self, Nat.zero_div, Nat.zero_mul]
  have hfile : 0 < (mmap sz length size off mode shared write).filesz := by
    simp only [mmap]
    split_ifs <;> omega
  have hpos : sz - (mmap sz length size off mode shared write).base = 0 := Nat.sub_self sz
  rw [Mapped.view_absent rfl rfl, Mapped.expected, hpos, if_pos hfile, Mapped.fill, hoff,
    Nat.zero_add] at hview
  split at hview
  · exact hal (Byte.file.inj hview)
  · cases hview

/-- A mapping shows the file exactly if it starts at a page boundary and reads no page after a head
is gone. -/
theorem contents_follow_file_iff (hlen : length % PGSIZE = 0) (hes : ∀ e ∈ es, e.whole = true) :
    Always fire Mapped.Shown (mmap sz length size off mode shared write) es ↔
      (sz % PGSIZE = 0 ∨ length = 0 ∨ size = 0) ∧
        Along fire Mapped.Tidy (mmap sz length size off mode shared write) es := by
  have hiff (hplace : sz % PGSIZE = 0 ∨ length = 0 ∨ size = 0) :
      Always fire Mapped.Shown (mmap sz length size off mode shared write) es ↔
        Along fire Mapped.Tidy (mmap sz length size off mode shared write) es :=
    always_iff_along_of (I := fun s => s.modified = false → s.Kept) (R := fun _ e => e.whole = true)
      (fun s h hmod => (h hmod).shown)
      (fun s e s' => Mapped.Kept.fire) (fun s e s' => Mapped.Kept.fire_hidden)
      (fun _ => mmap_kept hlen hplace) (Along.of_mem (fun e he _ => hes e he) _)
  constructor
  · intro h
    have hplace := mmap_unaligned (match es, h with
      | [], h => h
      | _ :: _, h => h.1)
    exact ⟨hplace, (hiff hplace).1 h⟩
  · exact fun h => (hiff h.1).2 h.2

theorem contents_follow_loaded :
    Always fire Mapped.Shown (mmap 8192 8192 5000 0 true false true)
      [.fault 8192, .fault 12288, .evict 3, .munmap 8192 4096, .fault 12288] :=
  (contents_follow_file_iff (by decide) (by decide)).2 ⟨.inl rfl, by decide +kernel⟩

/-- The first page is unmapped; the second one then shows the start of the file. -/
theorem second_page_shows_first :
    ∃ s', runEvents fire
    (mmap 8192 8192 8192 0 true false false) [.munmap 8192 4096, .fault 12288] =
      some s' ∧ s'.modified = false ∧ s'.covers 12288 = true ∧ s'.stored 12288 = false ∧
        s'.view 12288 = .file 0 ∧ s'.expected 12288 = .file 4096 := by
  exact exists_of_any (by decide +kernel)

end Run

end OopsOS.Mapping
