import OopsOS.Mmap

namespace OopsOS.Mmap
set_option autoImplicit true
open Function

def Vma.Live (v : Vma) : Prop := v.used = true ∧ 0 < v.len

instance {v : Vma} : Decidable v.Live := inferInstanceAs (Decidable (_ ∧ _))

def Vma.Covers (v : Vma) (q : Nat) : Prop :=
  v.Live ∧ v.addr / PGSIZE ≤ q ∧ q ≤ (v.addr + v.len - 1) / PGSIZE

instance {v : Vma} {q : Nat} : Decidable (v.Covers q) := inferInstanceAs (Decidable (_ ∧ _ ∧ _))

/-- The areas are apart, aligned and below the size, and valid pages are of their area, or of the
heap. -/
structure MapState.Formed (s : MapState) : Prop where
  running : s.panicked = false
  apart : ∀ i j q, (s.vma i).Covers q → (s.vma j).Covers q → i = j
  aligned : ∀ i, (s.vma i).Live → (s.vma i).addr % PGSIZE = 0
  within : ∀ i, (s.vma i).Live → (s.vma i).addr + (s.vma i).len ≤ s.sz
  below : ∀ q o, s.page q = some o → q * PGSIZE < s.sz
  filled : ∀ i q o, (s.vma i).Covers q → s.page q = some o → o = .mapping (s.vma i).id
  heap : ∀ q o, (∀ i, ¬ (s.vma i).Covers q) → s.page q = some o → o = .heap

structure Regular (s : MapState) : Prop where
  formed : s.Formed
  size : s.sz < 2 ^ 64
  area : ∀ i, (s.vma i).Live → (s.vma i).addr + (s.vma i).len ≤ MAXVA
  page : ∀ q o, s.page q = some o → q < MAXVA / PGSIZE
  start : ∀ i, (s.vma i).addr < 2 ^ 64
  ids : ∀ i, (s.vma i).used = true → (s.vma i).id < s.next
  distinct : ∀ i j, (s.vma i).used = true → (s.vma j).used = true → (s.vma i).id = (s.vma j).id →
    i = j

/-- What is unmapped is whole pages, or the rest of the last one is unused. -/
def MapState.Unmaps (s : MapState) (addr length : Nat) : Prop :=
  ∀ i, s.findVma addr length = some i → addr % PGSIZE = 0 ∧
    (length % PGSIZE = 0 ∨ ¬ ((s.vma i).addr = addr ∧ length < (s.vma i).len) ∧
      s.page (addr / PGSIZE + length / PGSIZE) = none)

/-- The page that a fault brings in is of a non-empty area, or of the heap and in no area. -/
def MapState.Fills (s : MapState) (va : Nat) : Prop :=
  (∀ i, s.lookup va = some i → (s.vma i).Live) ∧
    (s.lookup va = none → va < s.sz → ∀ i, ¬ (s.vma i).Covers (va / PGSIZE))

/-- New areas are aligned, the size stays above every area, and pages go and come as in `Unmaps` and
`Fills`. -/
def Tidy (s : MapState) : Event → Prop
  | .mmap length => 0 < length → u64 (s.sz + length) ≤ MAXVA → (∃ i, (s.vma i).used = false) →
    s.sz % PGSIZE = 0 ∧ s.sz + length < 2 ^ 64
  | .munmap addr length ok =>
    (s.Absent addr → ok = true → s.findVma addr length = none ∨ length < PGSIZE →
      addr < MAXVA ∧ s.Fills addr) ∧ ∀ t ∈ s.argaddr addr ok, t.Unmaps addr length
  | .sbrk n =>
    let z := ((s.sz + n) % 2 ^ 64).toNat
    (0 < n ∨ 0 < z ∧ z < s.sz) →
      (∀ i, (s.vma i).Live → (s.vma i).addr + (s.vma i).len ≤ z) ∧
      if 0 < n then ∀ q < MAXVA / PGSIZE, (s.page q).isSome = true → q * PGSIZE < z
      else pgRoundUp z < pgRoundUp s.sz → pgRoundUp s.sz ≤ MAXVA
  | .fault va ok => ok = true → s.Fills va

variable {s s' t : MapState} {i j : Fin NVMA} {v w : Vma} {q va addr length n z : Nat} {e : Event}
  {es : List Event}

theorem not_covers_of_unused (h : v.used = false) : ¬ v.Covers q := fun hc =>
  Bool.false_ne_true (h.symm.trans hc.1.1)

theorem Vma.Covers.lt (h : v.Covers q) : q * PGSIZE < v.addr + v.len := by
  obtain ⟨⟨-, hlen⟩, -, hq⟩ := h
  simp only [PGSIZE] at hq ⊢
  omega

theorem mmap_broken (hbad : ¬ Tidy s (.mmap length)) : ¬ (s.mmap length).Formed := by
  simp only [Tidy, not_forall] at hbad
  obtain ⟨hlen, hmax, ⟨i, hi⟩, hbad⟩ := hbad
  have hsome : ((List.finRange NVMA).find? fun i => (s.vma i).used = false).isSome = true :=
    List.find?_isSome.2 ⟨i, List.mem_finRange i, decide_eq_true hi⟩
  obtain ⟨j, hj⟩ := Option.isSome_iff_exists.1 hsome
  unfold MapState.mmap
  rw [if_neg (Nat.not_lt.2 hmax), hj]
  intro hformed
  have hself : ({ s.setVma j ⟨true, s.sz, length, s.next⟩ with
      sz := u64 (s.sz + length), next := s.next + 1 } : MapState).vma
        j = ⟨true, s.sz, length, s.next⟩ :=
    update_self ..
  have haligned := hformed.aligned j
  have hwithin := hformed.within j
  rw [hself] at haligned hwithin
  have hle : s.sz + length ≤ u64 (s.sz + length) := hwithin ⟨rfl, hlen⟩
  have hlt : u64 (s.sz + length) < 2 ^ 64 := Nat.mod_lt _ (by decide)
  exact hbad ⟨haligned ⟨rfl, hlen⟩, hle.trans_lt hlt⟩

theorem uvmunmap_pages (hmod : va % PGSIZE = 0)
    (hmax : 0 < n → va + n * PGSIZE ≤ MAXVA) :
    s.uvmunmap va n =
      { s with page := fun q => if va / PGSIZE ≤ q ∧ q < va / PGSIZE + n then none
        else s.page q } := by
  unfold MapState.uvmunmap
  rw [if_neg]
  rintro (hno | ⟨hpos, hlt⟩)
  · exact hno hmod
  · exact absurd (hmax hpos) (Nat.not_le.2 hlt)

structure Cuts (v : Vma) (addr length : Nat) : Prop where
  used : v.used = true
  le : length ≤ v.len
  side : v.addr = addr ∨ v.addr < addr ∧ length < v.len ∧ addr + length = v.addr + v.len

def Vma.rest (v : Vma) (addr length : Nat) : Vma :=
  { v.shrink addr length with used := decide ((v.shrink addr length).len ≠ 0) }

theorem munmap_eq (hfind : s.findVma addr length = some i) (hcuts : Cuts (s.vma i) addr length)
    (haddr : addr % PGSIZE = 0)
    (hmax : 0 < length / PGSIZE → addr + length / PGSIZE * PGSIZE ≤ MAXVA) :
    s.munmap addr length = { s.setVma i ((s.vma i).rest addr length) with
      page := fun q =>
        if addr / PGSIZE ≤ q ∧ q < addr / PGSIZE + length / PGSIZE then none else s.page q } := by
  have hused : ((s.vma i).shrink addr length).used = true := by
    unfold Vma.shrink
    split <;> exact hcuts.used
  unfold MapState.munmap
  simp only [hfind]
  rw [uvmunmap_pages haddr hmax]
  unfold Vma.rest
  by_cases hlen : ((s.vma i).shrink addr length).len = 0
  · rw [if_pos hlen]
    unfold MapState.setVma
    simp only [update_idem, hlen, ne_eq, not_true_eq_false, decide_false]
  · rw [if_neg hlen]
    unfold MapState.setVma
    simp only [ne_eq, hlen, not_false_eq_true, decide_true, ← hused]

section
variable (h : Cuts v addr length)
include h

section
variable (hend : v.addr + v.len < 2 ^ 64)
include hend

theorem Cuts.rest_eq :
    v.rest addr length = ⟨decide (v.len - length ≠ 0), if v.addr = addr then v.addr + length
      else v.addr, v.len - length, v.id⟩ := by
  have hle := h.le
  have hu : u64 (v.addr + length) = v.addr + length := Nat.mod_eq_of_lt (by omega)
  unfold Vma.rest Vma.shrink
  split <;> simp only [hu]

theorem Cuts.rest_live (hlive : (v.rest addr length).Live) : v.Live ∧ length < v.len ∧
      (v.rest addr length).addr + (v.rest addr length).len ≤ v.addr + v.len := by
  have hle := h.le
  rw [h.rest_eq hend] at hlive ⊢
  have hpos : 0 < v.len - length := hlive.2
  refine ⟨⟨h.used, by omega⟩, by omega, ?_⟩
  show (if v.addr = addr then v.addr + length else v.addr) + (v.len - length) ≤ v.addr + v.len
  split <;> omega

theorem Cuts.covers_of_rest (hc : (v.rest addr length).Covers q) : v.Covers q := by
  obtain ⟨hlive, hlen, hle⟩ := h.rest_live hend hc.1
  have hpos := hc.1.2
  obtain ⟨-, hlow, hhigh⟩ := hc
  refine ⟨hlive, ?_, hhigh.trans (Nat.div_le_div_right (Nat.sub_le_sub_right hle 1))⟩
  refine Nat.le_trans (Nat.div_le_div_right ?_) hlow
  rw [h.rest_eq hend]
  show v.addr ≤ if v.addr = addr then v.addr + length else v.addr
  split <;> omega

theorem Cuts.gone (hmod : v.addr % PGSIZE = 0)
    (haddr : addr % PGSIZE = 0) (hc : v.Covers q) (hnot : ¬ (v.rest addr length).Covers q) :
    (addr / PGSIZE ≤ q ∧ q < addr / PGSIZE + length / PGSIZE) ∨
      length % PGSIZE ≠ 0 ∧ q = addr / PGSIZE + length / PGSIZE := by
  obtain ⟨⟨-, hpos⟩, hlow, hhigh⟩ := hc
  have hle := h.le
  rw [h.rest_eq hend] at hnot
  by_contra hout
  refine hnot ⟨⟨?_, ?_⟩, ?_, ?_⟩
  · refine decide_eq_true ?_
    obtain hhead | ⟨hlt, htail, hsum⟩ := h.side
    all_goals
      simp only [PGSIZE] at *
      omega
  · show 0 < v.len - length
    obtain hhead | ⟨hlt, htail, hsum⟩ := h.side
    all_goals
      simp only [PGSIZE] at *
      omega
  · show (if v.addr = addr then v.addr + length else v.addr) / PGSIZE ≤ q
    obtain hhead | ⟨hlt, htail, hsum⟩ := h.side
    · rw [if_pos hhead]
      simp only [PGSIZE] at *
      omega
    · rw [if_neg hlt.ne]
      exact hlow
  · show q ≤ ((if v.addr = addr then v.addr + length else v.addr) + (v.len - length) - 1) / PGSIZE
    obtain hhead | ⟨hlt, htail, hsum⟩ := h.side
    · rw [if_pos hhead, Nat.add_assoc, Nat.add_sub_cancel' hle]
      exact hhigh
    · rw [if_neg hlt.ne]
      simp only [PGSIZE] at *
      omega

end

theorem Cuts.pages_le (hmax : v.Live → v.addr + v.len ≤ MAXVA)
    (hpos : 0 < length / PGSIZE) : addr + length / PGSIZE * PGSIZE ≤ MAXVA := by
  have hle := h.le
  have hlive : v.Live := by
    refine ⟨h.used, ?_⟩
    simp only [PGSIZE] at hpos
    omega
  have hend := hmax hlive
  obtain hhead | ⟨hlt, -, hsum⟩ := h.side
  all_goals
    simp only [PGSIZE, MAXVA] at *
    omega

end

theorem uvmdealloc_npages (h : pgRoundUp z < pgRoundUp n) :
    pgRoundUp z / PGSIZE + (pgRoundUp n - pgRoundUp z) / PGSIZE = pgRoundUp n / PGSIZE ∧
      0 < (pgRoundUp n - pgRoundUp z) / PGSIZE ∧
      pgRoundUp z + (pgRoundUp n - pgRoundUp z) / PGSIZE * PGSIZE = pgRoundUp n := by
  have hz := pgRoundUp_mod z
  have hn := pgRoundUp_mod n
  simp only [PGSIZE] at hz hn ⊢
  omega

theorem uvmdealloc_broken (hz : z < s.sz)
    (hbad : ¬ ((∀ i, (s.vma i).Live → (s.vma i).addr + (s.vma i).len ≤ z) ∧
      (pgRoundUp z < pgRoundUp s.sz → pgRoundUp s.sz ≤ MAXVA))) : ¬ (s.uvmdealloc z).Formed := by
  intro hformed
  refine hbad ⟨fun i hlive => ?_, fun hlt => ?_⟩
  · unfold MapState.uvmdealloc MapState.uvmunmap at hformed
    rw [if_neg (Nat.not_le.2 hz)] at hformed
    split at hformed
    · split at hformed
      · exact hformed.within i hlive
      · exact hformed.within i hlive
    · exact hformed.within i hlive
  · by_contra hmax
    obtain ⟨-, hpos, hend⟩ := uvmdealloc_npages hlt
    refine absurd hformed.running ?_
    unfold MapState.uvmdealloc MapState.uvmunmap
    rw [if_neg (Nat.not_le.2 hz), if_pos hlt,
      if_pos (.inr ⟨hpos, by rw [hend]; exact Nat.not_le.1 hmax⟩)]
    exact fun h => (nomatch h)

theorem sbrk_size {n : Int} (hn : n ≤ 0) (hlow : -2 ^ 31 ≤ n) (hsize : s.sz < 2 ^ 64) :
    s.sz ≤ ((s.sz + n) % 2 ^ 64).toNat + 2 ^ 31 := by
  omega

theorem sbrk_broken {n : Int} (hbad : ¬ Tidy s (.sbrk n)) : ¬ (s.sbrk n).Formed := by
  unfold MapState.sbrk
  simp only [Tidy] at hbad
  generalize ((s.sz + n) % 2 ^ 64).toNat = z at hbad
  rw [Classical.not_imp] at hbad
  obtain ⟨hcase, hbad⟩ := hbad
  dsimp only
  split
  · next hpos =>
    rw [if_pos hpos] at hbad
    intro hformed
    refine hbad ⟨hformed.within, fun q _ hsome => ?_⟩
    obtain ⟨o, ho⟩ := Option.isSome_iff_exists.1 hsome
    exact hformed.below q o ho
  · next hneg =>
    rw [if_neg hneg] at hbad
    obtain ⟨hzpos, hlt⟩ := hcase.resolve_left hneg
    rw [if_pos hzpos]
    exact uvmdealloc_broken hlt hbad

theorem MapState.lookup_some (h : s.lookup va = some i) :
    (s.vma i).used = true ∧ (s.vma i).addr ≤ va ∧
      va ≤ u64 ((s.vma i).addr + (s.vma i).len + (2 ^ 64 - 1)) := by
  have hfound := List.find?_some h
  simp only [Bool.and_eq_true, decide_eq_true_eq] at hfound
  exact ⟨hfound.1.1, hfound.1.2, hfound.2⟩

/-- What a fault below `MAXVA` brings in, if there is an area or the heap at the address. -/
theorem fault_fill (hva : va < MAXVA) (hin : (s.lookup va).isSome = true ∨ va < s.sz) :
    ∃ o, s.fault va true = { s with page := update s.page (va / PGSIZE) (some o) } ∧
      (∀ j, s.lookup va = some j → o = .mapping (s.vma j).id) ∧
      (s.lookup va = none → o = .heap) := by
  unfold MapState.fault MapState.fill
  cases hfind : s.lookup va with
  | some i => exact ⟨.mapping (s.vma i).id, by simp [hva], by simp, by simp⟩
  | none =>
    have hsz : va < s.sz := by simpa [hfind] using hin
    exact ⟨.heap, by simp [hva, hsz], by simp, by simp⟩

theorem fault_page (hva : va < MAXVA) :
    ∃ x, s.fault va ok = { s with page := update s.page (va / PGSIZE) x } := by
  by_cases hin : ok = true ∧ ((s.lookup va).isSome = true ∨ va < s.sz)
  · obtain ⟨rfl, hin⟩ := hin
    obtain ⟨o, ho, -⟩ := fault_fill hva hin
    exact ⟨some o, ho⟩
  · refine ⟨s.page (va / PGSIZE), ?_⟩
    rw [update_eq_self]
    unfold MapState.fault
    split
    · next hok =>
      simp only [hok, true_and, not_or, Bool.not_eq_true, Option.isSome_eq_false_iff,
        Option.isNone_iff_eq_none] at hin
      rw [hin.1]
      exact if_neg hin.2
    · rfl

theorem fault_panicked (hin : (s.lookup va).isSome = true ∨ va < s.sz) (hva : ¬ va < MAXVA) :
    (s.fault va true).panicked = true := by
  unfold MapState.fault MapState.fill
  cases hfind : s.lookup va with
  | some i => simp [hva]
  | none =>
    have hsz : va < s.sz := by simpa [hfind] using hin
    simp [hva, hsz]

theorem fault_vma : (s.fault va ok).vma = s.vma := by
  unfold MapState.fault MapState.fill
  grind

theorem findVma_fault : (s.fault va ok).findVma addr length = s.findVma addr length := by
  simp only [MapState.findVma, fault_vma]

theorem munmap_panicked (h : s.panicked = true) : (s.munmap addr length).panicked = true := by
  unfold MapState.munmap MapState.uvmunmap MapState.setVma
  grind

theorem munmap_unaligned (hfind : s.findVma addr length = some i) (hmod : addr % PGSIZE ≠ 0) :
    (s.munmap addr length).panicked = true := by
  unfold MapState.munmap MapState.uvmunmap
  simp only [hfind, ne_eq, hmod, not_false_eq_true, true_or, if_true]
  split <;> rfl

theorem argaddr_some (h : s.argaddr addr ok = some t) :
    t = s ∨ s.Absent addr ∧ ok = true ∧ t = s.fault addr true := by
  unfold MapState.argaddr at h
  grind

section
variable (h : Regular s)
include h

theorem Regular.setVma {page : Nat → Option Origin}
    (hpage : ∀ q o, page q = some o → s.page q = some o)
    (hused : v.used = true → (s.vma i).used = true)
    (hid : v.id = (s.vma i).id) (haddr : v.addr < 2 ^ 64) (haligned : v.Live → v.addr % PGSIZE = 0)
    (hend : v.Live → (s.vma i).Live ∧ v.addr + v.len ≤ (s.vma i).addr + (s.vma i).len)
    (hcovers : ∀ q, v.Covers q → (s.vma i).Covers q)
    (hgone : ∀ q o, (s.vma i).Covers q → ¬ v.Covers q → page q ≠ some o) :
    Regular { s.setVma i v with page := page } := by
  have hback {q : Nat} : ∀ j, (update s.vma i v j).Covers q → (s.vma j).Covers q :=
    (forall_update_iff s.vma fun j w => w.Covers q → (s.vma j).Covers q).2
      ⟨hcovers q, fun _ _ => id⟩
  have hlive : ∀ j, (update s.vma i v j).Live → (s.vma j).Live ∧
      (update s.vma i v j).addr + (update s.vma i v j).len ≤ (s.vma j).addr + (s.vma j).len :=
    (forall_update_iff s.vma fun j w => w.Live → (s.vma j).Live ∧
      w.addr + w.len ≤ (s.vma j).addr + (s.vma j).len).2 ⟨hend, fun _ _ hl => ⟨hl, Nat.le_refl _⟩⟩
  have hids : ∀ j, (update s.vma i v j).id = (s.vma j).id :=
    (forall_update_iff s.vma fun j w => w.id = (s.vma j).id).2 ⟨hid, fun _ _ => rfl⟩
  have huses : ∀ j, (update s.vma i v j).used = true → (s.vma j).used = true :=
    (forall_update_iff s.vma fun j w => w.used = true → (s.vma j).used = true).2
      ⟨hused, fun _ _ => id⟩
  refine ⟨⟨h.formed.running, fun j k q hc hc' => h.formed.apart j k q (hback j hc) (hback k hc'),
    ?_,
    fun j hl => (hlive j hl).2.trans (h.formed.within j (hlive j hl).1),
    fun q o ho => h.formed.below q o (hpage q o ho), fun j q o hc ho => ?_, fun q o hc ho => ?_⟩,
      h.size,
    fun j hl => (hlive j hl).2.trans (h.area j (hlive j hl).1), fun q o ho =>
      h.page q o (hpage q o ho),
    ?_, fun j hu => ?_, fun j k hu hu' heq => ?_⟩
  · exact (forall_update_iff s.vma fun _ w => w.Live → w.addr % PGSIZE = 0).2
      ⟨haligned, fun j _ => h.formed.aligned j⟩
  · show o = .mapping (update s.vma i v j).id
    rw [hids]
    exact h.formed.filled j q o (hback j hc) (hpage q o ho)
  · obtain ⟨hv, hrest⟩ := (forall_update_iff s.vma fun _ w => ¬ w.Covers q).1 hc
    have hold : ¬ (s.vma i).Covers q := fun hold => hgone q o hold hv ho
    refine h.formed.heap q o (fun j hj => hrest j (fun heq => hold (heq ▸ hj)) hj) (hpage q o ho)
  · exact (forall_update_iff s.vma fun _ w => w.addr < 2 ^ 64).2 ⟨haddr, fun j _ => h.start j⟩
  · show (update s.vma i v j).id < s.next
    rw [hids]
    exact h.ids j (huses j hu)
  · exact h.distinct j k (huses j hu) (huses k hu') ((hids j).symm.trans (heq.trans (hids k)))

theorem Regular.addVma (hi : (s.vma i).used = false)
    (hsz : 0 < length → s.sz % PGSIZE = 0 ∧ s.sz + length ≤ MAXVA) (hlt : s.sz + length < 2 ^ 64) :
    Regular { s.setVma i ⟨true, s.sz, length, s.next⟩ with sz := s.sz + length, next :=
      s.next + 1 } := by
  have hnew {q : Nat} (hc : (⟨true, s.sz, length, s.next⟩ : Vma).Covers q) :
      s.sz ≤ q * PGSIZE ∧ s.page q = none := by
    obtain ⟨⟨-, hlen⟩, hq, -⟩ := hc
    have hlen : 0 < length := hlen
    have hmod := (hsz hlen).1
    have hq : s.sz / PGSIZE ≤ q := hq
    have hle : s.sz ≤ q * PGSIZE := by
      simp only [PGSIZE] at hq hmod ⊢
      omega
    refine ⟨hle, Option.eq_none_iff_forall_ne_some.2 fun o ho => ?_⟩
    exact absurd (h.formed.below q o ho) (Nat.not_lt.2 hle)
  have hold {j : Fin NVMA} {q : Nat} (hc : (s.vma j).Covers q) : q * PGSIZE < s.sz :=
    hc.lt.trans_le (h.formed.within j hc.1)
  refine ⟨⟨h.formed.running, ?_, ?_, ?_, fun q o ho => ?_, ?_, fun q o hc ho => ?_⟩, hlt, ?_,
    h.page, ?_,
    ?_, ?_⟩
  · refine (forall_update_iff s.vma fun j v => ∀ k q, v.Covers q →
      (update s.vma i ⟨true, s.sz, length, s.next⟩ k).Covers q → j = k).2 ⟨?_, fun j _ => ?_⟩
    · exact (forall_update_iff s.vma fun k v => ∀ q, Vma.Covers ⟨true, s.sz, length, s.next⟩ q →
        v.Covers q → i = k).2
          ⟨fun _ _ _ => rfl, fun k _ q hc hc' => absurd (hold hc') (Nat.not_lt.2 (hnew hc).1)⟩
    · exact (forall_update_iff s.vma fun k v => ∀ q, (s.vma j).Covers q → v.Covers q → j = k).2
        ⟨fun q hc hc' => absurd (hold hc) (Nat.not_lt.2 (hnew hc').1), fun k _ q =>
          h.formed.apart j k q⟩
  · exact (forall_update_iff s.vma fun _ v => v.Live → v.addr % PGSIZE = 0).2
      ⟨fun hl => (hsz hl.2).1, fun j _ => h.formed.aligned j⟩
  · exact (forall_update_iff s.vma fun _ v => v.Live → v.addr + v.len ≤ s.sz + length).2
      ⟨fun _ => Nat.le_refl _, fun j _ hl => (h.formed.within j hl).trans (Nat.le_add_right ..)⟩
  · exact (h.formed.below q o ho).trans_le (Nat.le_add_right ..)
  · exact (forall_update_iff s.vma fun _ v => ∀ q o, v.Covers q → s.page q = some o →
      o = .mapping v.id).2
      ⟨fun q o hc ho => absurd ((hnew hc).2.symm.trans ho) (Option.some_ne_none o).symm,
        fun j _ => h.formed.filled j⟩
  · obtain ⟨-, hrest⟩ := (forall_update_iff s.vma fun _ v => ¬ v.Covers q).1 hc
    refine h.formed.heap q o (fun j hj => hrest j (fun heq => ?_) hj) ho
    exact not_covers_of_unused hi (heq ▸ hj)
  · exact (forall_update_iff s.vma fun _ v => v.Live → v.addr + v.len ≤ MAXVA).2
      ⟨fun hl => (hsz hl.2).2, fun j _ => h.area j⟩
  · exact (forall_update_iff s.vma fun _ v => v.addr < 2 ^ 64).2 ⟨h.size, fun j _ => h.start j⟩
  · exact (forall_update_iff s.vma fun _ v => v.used = true → v.id < s.next + 1).2
      ⟨fun _ => Nat.lt_succ_self _, fun j _ hu => Nat.lt_succ_of_lt (h.ids j hu)⟩
  · refine (forall_update_iff s.vma fun j v => ∀ k, v.used = true →
      (update s.vma i ⟨true, s.sz, length, s.next⟩ k).used = true →
        v.id = (update s.vma i ⟨true, s.sz, length, s.next⟩ k).id → j = k).2 ⟨?_, fun j _ => ?_⟩
    · exact (forall_update_iff s.vma fun k v => _ → v.used = true → s.next = v.id → i = k).2
        ⟨fun _ _ _ => rfl, fun k _ _ hu heq => absurd heq (h.ids k hu).ne'⟩
    · exact (forall_update_iff s.vma fun k v => _ → v.used = true → (s.vma j).id = v.id → j = k).2
        ⟨fun hu _ heq => absurd heq (h.ids j hu).ne, fun k _ => h.distinct j k⟩

theorem Regular.mmap (htidy : Tidy s (.mmap length)) : Regular (s.mmap length) := by
  unfold MapState.mmap
  split
  · exact h
  · next hmax =>
    rw [Nat.not_lt] at hmax
    split
    · exact h
    · next i hi =>
      have hfound := List.find?_some hi
      have hunused : (s.vma i).used = false := of_decide_eq_true hfound
      by_cases hlen : 0 < length
      · obtain ⟨hmod, hlt⟩ := htidy hlen hmax ⟨i, hunused⟩
        have hu : u64 (s.sz + length) = s.sz + length := Nat.mod_eq_of_lt hlt
        rw [hu] at hmax ⊢
        exact h.addVma hunused (fun _ => ⟨hmod, hmax⟩) hlt
      · obtain rfl : length = 0 := by omega
        have hu : u64 (s.sz + 0) = s.sz + 0 := Nat.mod_eq_of_lt h.size
        rw [hu]
        exact h.addVma hunused (fun hpos => absurd hpos hlen) h.size

theorem Regular.cuts (haddr : addr < 2 ^ 64)
    (hfind : s.findVma addr length = some i) : Cuts (s.vma i) addr length := by
  have hmatch := List.find?_some hfind
  simp only [Vma.matches, Bool.and_eq_true, Bool.or_eq_true, decide_eq_true_eq] at hmatch
  obtain ⟨⟨hused, hlen⟩, hcase⟩ := hmatch
  refine ⟨hused, hlen, ?_⟩
  by_cases hhead : (s.vma i).addr = addr
  · exact .inl hhead
  · have htail := hcase.resolve_left hhead
    have hstart := h.start i
    unfold u64 at htail
    refine .inr ?_
    by_cases hlive : 0 < (s.vma i).len
    · have harea := h.area i ⟨hused, hlive⟩
      simp only [MAXVA] at harea
      omega
    · omega

theorem Regular.area_lt (i : Fin NVMA) (hcuts : Cuts (s.vma i) addr length) :
    (s.vma i).addr + (s.vma i).len < 2 ^ 64 := by
  have hstart := h.start i
  by_cases hlen : 0 < (s.vma i).len
  · have harea := h.area i ⟨hcuts.used, hlen⟩
    simp only [MAXVA] at harea
    omega
  · omega

theorem Regular.munmap (haddr : addr < 2 ^ 64) (htidy : s.Unmaps addr length) :
    Regular (s.munmap addr length) := by
  cases hfind : s.findVma addr length with
  | none =>
    unfold MapState.munmap
    rw [hfind]
    exact h
  | some i =>
    obtain ⟨hmod, hpages⟩ := htidy i hfind
    have hcuts := h.cuts haddr hfind
    have hend := h.area_lt i hcuts
    rw [munmap_eq hfind hcuts hmod (hcuts.pages_le (h.area i))]
    refine h.setVma (fun q o ho => ?_) (fun _ => hcuts.used) ?_ ?_ (fun hlive => ?_)
      (fun hlive => ?_) (fun q => hcuts.covers_of_rest hend) fun q o hc hnot => ?_
    · split at ho
      · cases ho
      · exact ho
    · rw [hcuts.rest_eq hend]
    · rw [hcuts.rest_eq hend]
      have hle := hcuts.le
      show (if (s.vma i).addr = addr then (s.vma i).addr + length else (s.vma i).addr) < 2 ^ 64
      split <;> omega
    · obtain ⟨hold, hlen, -⟩ := hcuts.rest_live hend hlive
      have hstart := h.formed.aligned i hold
      rw [hcuts.rest_eq hend]
      show (if (s.vma i).addr = addr then (s.vma i).addr + length else (s.vma i).addr) % PGSIZE = 0
      split
      · next hhead =>
        have hwhole : length % PGSIZE = 0 := hpages.resolve_right fun hno => hno.1 ⟨hhead, hlen⟩
        simp only [PGSIZE] at hstart hwhole ⊢
        omega
      · exact hstart
    · obtain ⟨hold, -, hle⟩ := hcuts.rest_live hend hlive
      exact ⟨hold, hle⟩
    · obtain hin | ⟨hpart, hlast⟩ := hcuts.gone hend (h.formed.aligned i hc.1) hmod hc hnot
      · rw [if_pos hin]
        exact (Option.some_ne_none o).symm
      · have hnone := (hpages.resolve_left hpart).2
        rw [← hlast] at hnone
        rw [hnone, ite_self]
        exact (Option.some_ne_none o).symm

theorem Regular.munmap_broken (haddr : addr < 2 ^ 64)
    (hbad : ¬ s.Unmaps addr length) : ¬ (s.munmap addr length).Formed := by
  simp only [MapState.Unmaps, not_forall] at hbad
  obtain ⟨i, hfind, hbad⟩ := hbad
  have hcuts := h.cuts haddr hfind
  have hend := h.area_lt i hcuts
  intro hformed
  by_cases hmod : addr % PGSIZE = 0
  · rw [munmap_eq hfind hcuts hmod (hcuts.pages_le (h.area i))] at hformed
    have hself : (s.setVma i ((s.vma i).rest addr length)).vma i = (s.vma i).rest addr length :=
      update_self ..
    have hpart : length % PGSIZE ≠ 0 := fun hwhole => hbad ⟨hmod, .inl hwhole⟩
    have hle := hcuts.le
    have hlive : (s.vma i).Live := by
      refine ⟨hcuts.used, ?_⟩
      by_contra hzero
      obtain rfl : length = 0 := by omega
      exact hpart rfl
    have hstart := h.formed.aligned i hlive
    by_cases hhead : (s.vma i).addr = addr ∧ length < (s.vma i).len
    · have haligned := hformed.aligned i
      have haligned : ((s.setVma i ((s.vma i).rest addr length)).vma i).Live →
        ((s.setVma i ((s.vma i).rest addr length)).vma i).addr % PGSIZE = 0 := haligned
      rw [hself, hcuts.rest_eq hend] at haligned
      have hlen : 0 < (s.vma i).len - length := by omega
      have hnext := haligned ⟨decide_eq_true hlen.ne', hlen⟩
      have hnext :
        (if (s.vma i).addr = addr then (s.vma i).addr + length else (s.vma i).addr) % PGSIZE = 0 :=
        hnext
      rw [if_pos hhead.1] at hnext
      simp only [PGSIZE] at hstart hpart hnext
      omega
    · obtain ⟨o, ho⟩ : ∃ o, s.page (addr / PGSIZE + length / PGSIZE) = some o := by
        refine Option.ne_none_iff_exists'.1 fun hnone => hbad ⟨hmod, .inr ⟨hhead, hnone⟩⟩
      have hcover : (s.vma i).Covers (addr / PGSIZE + length / PGSIZE) := by
        refine ⟨hlive, ?_, ?_⟩
        all_goals
          obtain hfirst | ⟨hlt, -, hsum⟩ := hcuts.side
          all_goals
            simp only [PGSIZE] at *
            omega
      have hmapping := h.formed.filled i _ o hcover ho
      have hheap := hformed.heap (addr / PGSIZE + length / PGSIZE) o (fun j hj => ?_) ?_
      · rw [hmapping] at hheap
        cases hheap
      · have hj : ((s.setVma i ((s.vma i).rest addr length)).vma j).Covers
          (addr / PGSIZE + length / PGSIZE) := hj
        by_cases hne : j = i
        · rw [hne, hself] at hj
          obtain ⟨-, hlen, -⟩ := hcuts.rest_live hend hj.1
          have hlt := hj.lt
          rw [hcuts.rest_eq hend] at hlt
          have hlt : (addr / PGSIZE + length / PGSIZE) * PGSIZE <
            (if (s.vma i).addr = addr then (s.vma i).addr + length else (s.vma i).addr) +
              ((s.vma i).len - length) := hlt
          obtain hfirst | ⟨hbefore, -, hsum⟩ := hcuts.side
          · exact hhead ⟨hfirst, hlen⟩
          · rw [if_neg hbefore.ne] at hlt
            simp only [PGSIZE] at hlt hmod
            omega
        · have hother : (s.setVma i ((s.vma i).rest addr length)).vma j = s.vma j :=
            update_of_ne hne ..
          rw [hother] at hj
          exact hne (h.formed.apart j i _ hj hcover)
      · show (if addr / PGSIZE ≤ addr / PGSIZE + length / PGSIZE ∧
            addr / PGSIZE + length / PGSIZE < addr / PGSIZE + length / PGSIZE then none
          else s.page (addr / PGSIZE + length / PGSIZE)) = some o
        rw [if_neg fun hin => absurd hin.2 (Nat.lt_irrefl _), ho]
  · exact absurd hformed.running (by rw [munmap_unaligned hfind hmod]; simp)

theorem Regular.setSize (hz : z < 2 ^ 64)
    (harea : ∀ i, (s.vma i).Live → (s.vma i).addr + (s.vma i).len ≤ z)
    (hpage : ∀ q o, s.page q = some o → q * PGSIZE < z) : Regular { s with sz := z } :=
  ⟨⟨h.formed.running, h.formed.apart, h.formed.aligned, harea, hpage, h.formed.filled,
    h.formed.heap⟩, hz, h.area, h.page, h.start, h.ids, h.distinct⟩

theorem Regular.setPage (page : Nat → Option Origin)
    (hpage : ∀ q o, page q = some o → s.page q = some o) : Regular { s with page := page } where
  formed := ⟨h.formed.running, h.formed.apart, h.formed.aligned, h.formed.within,
    fun q o ho => h.formed.below q o (hpage q o ho), fun i q o hc ho =>
      h.formed.filled i q o hc (hpage q o ho),
    fun q o hc ho => h.formed.heap q o hc (hpage q o ho)⟩
  __ := h
  page := fun q o ho => h.page q o (hpage q o ho)

theorem Regular.uvmdealloc (hz : z < s.sz) (hnear : s.sz ≤ z + 2 ^ 31)
    (harea : ∀ i, (s.vma i).Live → (s.vma i).addr + (s.vma i).len ≤ z)
    (hmax : pgRoundUp z < pgRoundUp s.sz → pgRoundUp s.sz ≤ MAXVA) : Regular (s.uvmdealloc z) := by
  have hsize := h.size
  unfold MapState.uvmdealloc
  rw [if_neg (Nat.not_le.2 hz)]
  split
  · next hlt =>
    obtain ⟨hcount, -, hend⟩ := uvmdealloc_npages hlt
    rw [uvmunmap_pages (pgRoundUp_mod z) fun _ => hend.le.trans (hmax hlt), hcount]
    have hround : pgRoundUp s.sz = (s.sz + (PGSIZE - 1)) / PGSIZE * PGSIZE := by
      by_contra hwrap
      have hge : 2 ^ 64 ≤ s.sz + (PGSIZE - 1) := Nat.not_lt.1 fun hno => hwrap (pgRoundUp_eq hno)
      rw [pgRoundUp_wrap hge hsize] at hlt
      exact absurd hlt (Nat.not_lt_zero _)
    have hround' : pgRoundUp z = (z + (PGSIZE - 1)) / PGSIZE * PGSIZE := by
      refine pgRoundUp_eq ?_
      have hle := hmax hlt
      rw [hround] at hle
      simp only [PGSIZE, MAXVA] at hle ⊢
      omega
    refine (h.setPage (fun q => if pgRoundUp z / PGSIZE ≤ q ∧ q < pgRoundUp s.sz / PGSIZE then none
      else s.page q) fun q o ho => ?_).setSize (hz.trans hsize) harea fun q o ho => ?_
    · split at ho
      · cases ho
      · exact ho
    · have ho : (if pgRoundUp z / PGSIZE ≤ q ∧ q < pgRoundUp s.sz / PGSIZE then none
        else s.page q) = some o := ho
      split at ho
      · cases ho
      · next hout =>
        have hbelow := h.formed.below q o ho
        rw [hround, hround'] at hout
        simp only [PGSIZE] at hout hbelow ⊢
        omega
  · next hle =>
    refine h.setSize (hz.trans hsize) harea fun q o ho => ?_
    have hbelow := h.formed.below q o ho
    have hpage := h.page q o ho
    rw [Nat.not_lt] at hle
    by_cases hwrap : 2 ^ 64 ≤ s.sz + (PGSIZE - 1)
    · simp only [PGSIZE, MAXVA] at hwrap hpage ⊢
      omega
    · rw [pgRoundUp_eq (Nat.not_le.1 hwrap), pgRoundUp_eq (by omega)] at hle
      simp only [PGSIZE] at hle hbelow ⊢
      omega

theorem Regular.sbrk {n : Int} (hlow : -2 ^ 31 ≤ n) (htidy : Tidy s (.sbrk n)) :
    Regular (s.sbrk n) := by
  have hz : ((s.sz + n) % 2 ^ 64).toNat < 2 ^ 64 := by omega
  unfold MapState.sbrk
  simp only [Tidy] at htidy
  generalize hzdef : ((s.sz + n) % 2 ^ 64).toNat = z at htidy hz
  dsimp only
  split
  · next hpos =>
    obtain ⟨harea, hpage⟩ := htidy (.inl hpos)
    rw [if_pos hpos] at hpage
    refine h.setSize hz harea fun q o ho => hpage q (h.page q o ho) ?_
    rw [ho]
    rfl
  · next hneg =>
    split
    · next hzpos =>
      by_cases hlt : z < s.sz
      · obtain ⟨harea, hmax⟩ := htidy (.inr ⟨hzpos, hlt⟩)
        rw [if_neg hneg] at hmax
        have hnear := sbrk_size (Int.not_lt.1 hneg) hlow h.size
        rw [hzdef] at hnear
        exact h.uvmdealloc hlt hnear harea hmax
      · unfold MapState.uvmdealloc
        rw [if_pos (Nat.not_lt.1 hlt)]
        exact h
    · exact h

theorem Regular.fill (hva : va < MAXVA) (hsz : va < s.sz)
    (hfilled : ∀ i, (s.vma i).Covers (va / PGSIZE) → o = .mapping (s.vma i).id)
    (hheap : (∀ i, ¬ (s.vma i).Covers (va / PGSIZE)) → o = .heap) :
    Regular (s.fill va o) := by
  rw [MapState.fill, if_pos hva]
  have hcases {q : Nat} {o' : Origin} (ho : update s.page (va / PGSIZE) (some o) q = some o') :
      q = va / PGSIZE ∧ o' = o ∨ s.page q = some o' := by
    by_cases hq : q = va / PGSIZE
    · rw [hq, update_self] at ho
      exact .inl ⟨hq, (Option.some.inj ho).symm⟩
    · rw [update_of_ne hq] at ho
      exact .inr ho
  refine ⟨⟨h.formed.running, h.formed.apart, h.formed.aligned, h.formed.within, fun q o' ho => ?_,
    fun i q o' hc ho => ?_, fun q o' hc ho => ?_⟩, h.size, h.area, fun q o' ho => ?_, h.start,
      h.ids, h.distinct⟩
  · obtain ⟨rfl, -⟩ | hold := hcases ho
    · exact (Nat.div_mul_le_self ..).trans_lt hsz
    · exact h.formed.below q o' hold
  · obtain ⟨rfl, rfl⟩ | hold := hcases ho
    · exact hfilled i hc
    · exact h.formed.filled i q o' hc hold
  · obtain ⟨rfl, rfl⟩ | hold := hcases ho
    · exact hheap hc
    · exact h.formed.heap q o' hc hold
  · obtain ⟨rfl, -⟩ | hold := hcases ho
    · simp only [PGSIZE, MAXVA] at hva ⊢
      omega
    · exact h.page q o' hold

theorem Regular.area_last (i : Fin NVMA) (hlive : (s.vma i).Live) :
    u64 ((s.vma i).addr + (s.vma i).len + (2 ^ 64 - 1)) = (s.vma i).addr + (s.vma i).len - 1 := by
  have harea := h.area i hlive
  have hpos := hlive.2
  simp only [u64, MAXVA] at harea ⊢
  omega

theorem Regular.lookup_live (hfind : s.lookup va = some i) (hlive : (s.vma i).Live) :
    (s.vma i).Covers (va / PGSIZE) ∧ va < (s.vma i).addr + (s.vma i).len := by
  obtain ⟨-, hlow, hhigh⟩ := MapState.lookup_some hfind
  have hpos := hlive.2
  rw [h.area_last i hlive] at hhigh
  exact ⟨⟨hlive, Nat.div_le_div_right hlow, Nat.div_le_div_right hhigh⟩, by omega⟩

theorem Regular.fault (hva : va < MAXVA) (htidy : ok = true → s.Fills va) :
    Regular (s.fault va ok) := by
  unfold MapState.fault
  split
  · next hok =>
    have htidy := htidy hok
    cases hfind : s.lookup va with
    | some i =>
      have hlive := htidy.1 i hfind
      obtain ⟨hc, hlt⟩ := h.lookup_live hfind hlive
      refine h.fill hva (hlt.trans_le (h.formed.within i hlive)) (fun j hj => ?_) fun hno =>
        absurd hc (hno i)
      rw [h.formed.apart j i _ hj hc]
    | none =>
      simp only
      split
      · next hsz => exact h.fill hva hsz (fun i hi => absurd hi (htidy.2 hfind hsz i)) fun _ => rfl
      · exact h
  · exact h

theorem Regular.fills_of_formed (hformed : t.Formed) (hpage : t.page (va / PGSIZE) = some o)
    (hmapping : ∀ j, s.lookup va = some j → o = .mapping (s.vma j).id)
    (hheap : s.lookup va = none → o = .heap) (hid : ∀ j, (t.vma j).id = (s.vma j).id)
    (hlive : ∀ j, (t.vma j).Live → (s.vma j).Live)
    (hcovers : s.lookup va = none → ∀ j, (s.vma j).Covers (va / PGSIZE) →
      (t.vma j).Covers (va / PGSIZE)) : s.Fills va := by
  refine ⟨fun j hj => ?_, fun hnone hsz j hj => ?_⟩
  · obtain rfl := hmapping j hj
    by_cases hcover : ∃ k, (t.vma k).Covers (va / PGSIZE)
    · obtain ⟨k, hk⟩ := hcover
      have heq := hformed.filled k _ _ hk hpage
      rw [hid] at heq
      have hklive := hlive k hk.1
      rw [h.distinct j k (MapState.lookup_some hj).1 hklive.1 (Origin.mapping.inj heq)]
      exact hklive
    · cases hformed.heap _ _ (fun k hk => hcover ⟨k, hk⟩) hpage
  · obtain rfl := hheap hnone
    cases hformed.filled j _ _ (hcovers hnone j hj) hpage

theorem Regular.fault_broken (hva : va < MAXVA) (hbad : ¬ (ok = true → s.Fills va)) :
    ¬ (s.fault va ok).Formed := by
  rw [Classical.not_imp] at hbad
  obtain ⟨rfl, hbad⟩ := hbad
  intro hformed
  by_cases hin : (s.lookup va).isSome = true ∨ va < s.sz
  · obtain ⟨o, hfault, hmapping, hheap⟩ := fault_fill hva hin
    rw [hfault] at hformed
    exact hbad (h.fills_of_formed hformed (update_self ..) hmapping hheap (fun _ => rfl)
      (fun _ => id) fun _ _ => id)
  · rw [not_or, Bool.not_eq_true, Option.isSome_eq_false_iff, Option.isNone_iff_eq_none] at hin
    exact hbad ⟨fun j hj => (nomatch hin.1.symm.trans hj), fun _ hsz => absurd hsz hin.2⟩

theorem Regular.munmap_fault (haddr : addr < 2 ^ 64) (hfind : s.findVma addr length = some i)
    (hmod : addr % PGSIZE = 0) (hlen : PGSIZE ≤ length) :
    (s.fault addr true).munmap addr length = s.munmap addr length ∧
      ((s.fault addr true).Unmaps addr length ↔ s.Unmaps addr length) := by
  have hcuts := h.cuts haddr hfind
  have hpos : 0 < length / PGSIZE := Nat.div_pos hlen (by decide)
  have hmax := hcuts.pages_le (h.area i) hpos
  have hva : addr < MAXVA := by
    simp only [PGSIZE, MAXVA] at hpos hmax ⊢
    omega
  obtain ⟨x, hx⟩ : ∃ x, s.fault addr true = { s with page := update s.page (addr / PGSIZE) x } :=
    fault_page hva
  rw [hx]
  refine ⟨?_, forall₂_congr fun j _ => ?_⟩
  · rw [munmap_eq hfind hcuts hmod fun _ => hmax,
      munmap_eq (s := { s with page := update s.page (addr / PGSIZE) x }) hfind hcuts hmod fun _ =>
        hmax]
    refine congrArg (fun page => { s.setVma i ((s.vma i).rest addr length) with page := page })
      (funext fun q => ?_)
    by_cases hq : q = addr / PGSIZE
    · have hin : addr / PGSIZE ≤ q ∧ q < addr / PGSIZE + length / PGSIZE := by omega
      rw [if_pos hin, if_pos hin]
    · show (if _ then none else update s.page (addr / PGSIZE) x q) = _
      rw [update_of_ne hq]
  · have hne : addr / PGSIZE + length / PGSIZE ≠ addr / PGSIZE := by omega
    simp only [update_of_ne hne]

theorem Regular.sysMunmap (haddr : addr < 2 ^ 64) (htidy : Tidy s (.munmap addr length ok)) :
    Regular (s.sysMunmap addr length ok) := by
  unfold MapState.sysMunmap
  cases harg : s.argaddr addr ok with
  | none => exact h
  | some t =>
    have hunmaps := htidy.2 t harg
    obtain rfl | ⟨habsent, rfl, rfl⟩ := argaddr_some harg
    · exact h.munmap haddr hunmaps
    · by_cases hkeeps : s.findVma addr length = none ∨ length < PGSIZE
      · obtain ⟨hva, hfills⟩ := htidy.1 habsent rfl hkeeps
        exact (h.fault hva fun _ => hfills).munmap haddr hunmaps
      · rw [not_or, Nat.not_lt] at hkeeps
        obtain ⟨i, hi⟩ := Option.ne_none_iff_exists'.1 hkeeps.1
        have hmod := (hunmaps i (findVma_fault.trans hi)).1
        obtain ⟨heq, hiff⟩ := h.munmap_fault haddr hi hmod hkeeps.2
        show Regular ((s.fault addr true).munmap addr length)
        rw [heq]
        exact h.munmap haddr (hiff.1 hunmaps)

theorem Regular.fills_of_munmap (haddr : addr < 2 ^ 64) (hva : addr < MAXVA)
    (habsent : s.Absent addr) (hfind : s.findVma addr length = some i) (hmod : addr % PGSIZE = 0)
    (hlen : length < PGSIZE) (hformed : ((s.fault addr true).munmap addr length).Formed) :
    s.Fills addr := by
  have hcuts := h.cuts haddr hfind
  have hend := h.area_lt i hcuts
  have hzero : length / PGSIZE = 0 := Nat.div_eq_of_lt hlen
  obtain ⟨o, hfault, hmapping, hheap⟩ := fault_fill hva habsent.2.2
  rw [hfault, munmap_eq (s := { s with page := update s.page (addr / PGSIZE) (some o) }) hfind hcuts
    hmod fun hpos => by omega] at hformed
  refine h.fills_of_formed hformed ?_ hmapping hheap ?_ ?_ fun hnone => ?_
  · show (if _ then none else update s.page (addr / PGSIZE) (some o) (addr / PGSIZE)) = some o
    rw [if_neg (by omega), update_self]
  · exact (forall_update_iff s.vma fun j v => v.id = (s.vma j).id).2
      ⟨by rw [hcuts.rest_eq hend], fun _ _ => rfl⟩
  · exact (forall_update_iff s.vma fun j v => v.Live → (s.vma j).Live).2
      ⟨fun hl => (hcuts.rest_live hend hl).1, fun _ _ => id⟩
  · refine (forall_update_iff s.vma fun j v => (s.vma j).Covers _ → v.Covers _).2
      ⟨fun hc => ?_, fun _ _ => id⟩
    by_contra hnot
    obtain hin | ⟨hpart, -⟩ := hcuts.gone hend (h.formed.aligned i hc.1) hmod hc hnot
    · omega
    · -- the address is in the area, so `lookup` has found one
      refine List.find?_eq_none.1 hnone i (List.mem_finRange i) ?_
      have hle := hcuts.le
      have hpos : 0 < length := Nat.pos_of_ne_zero fun h0 => hpart (by rw [h0]; rfl)
      simp only [Bool.and_eq_true, decide_eq_true_eq, h.area_last i hc.1]
      refine ⟨⟨hcuts.used, ?_⟩, ?_⟩
      all_goals
        obtain hhead | ⟨hlt, -, hsum⟩ := hcuts.side
        all_goals omega

theorem Regular.sysMunmap_broken (haddr : addr < 2 ^ 64)
    (hbad : ¬ Tidy s (.munmap addr length ok)) : ¬ (s.sysMunmap addr length ok).Formed := by
  intro hformed
  refine hbad ?_
  by_cases habsent : s.Absent addr ∧ ok = true
  · obtain ⟨habsent, rfl⟩ := habsent
    have harg : s.argaddr addr true = some (s.fault addr true) := if_pos habsent
    rw [MapState.sysMunmap, harg] at hformed
    replace hformed : ((s.fault addr true).munmap addr length).Formed := hformed
    have hva : addr < MAXVA := by
      by_contra hmax
      exact absurd hformed.running (by rw [munmap_panicked (fault_panicked habsent.2.2 hmax)]; simp)
    have hmod (i) (hi : s.findVma addr length = some i) : addr % PGSIZE = 0 := by
      by_contra hmod
      exact absurd hformed.running (by rw [munmap_unaligned (findVma_fault.trans hi) hmod]; simp)
    have hfills (hkeeps : s.findVma addr length = none ∨ length < PGSIZE) : s.Fills addr := by
      cases hfind : s.findVma addr length with
      | none =>
        have hsame : (s.fault addr true).munmap addr length = s.fault addr true := by
          rw [MapState.munmap, findVma_fault, hfind]
        rw [hsame] at hformed
        by_contra hno
        exact h.fault_broken hva (fun h => hno (h rfl)) hformed
      | some i =>
        rw [hfind] at hkeeps
        exact h.fills_of_munmap haddr hva habsent hfind (hmod i hfind)
          (hkeeps.resolve_left (by simp)) hformed
    refine ⟨fun _ _ hkeeps => ⟨hva, hfills hkeeps⟩, fun t ht => ?_⟩
    obtain rfl := Option.some.inj (harg.symm.trans ht)
    by_contra hno
    by_cases hkeeps : s.findVma addr length = none ∨ length < PGSIZE
    · exact (h.fault hva fun _ => hfills hkeeps).munmap_broken haddr hno hformed
    · rw [not_or, Nat.not_lt] at hkeeps
      obtain ⟨i, hi⟩ := Option.ne_none_iff_exists'.1 hkeeps.1
      obtain ⟨heq, hiff⟩ := h.munmap_fault haddr hi (hmod i hi) hkeeps.2
      rw [heq] at hformed
      exact h.munmap_broken haddr (fun h => hno (hiff.2 h)) hformed
  · refine ⟨fun h1 h2 => absurd ⟨h1, h2⟩ habsent, fun t ht => ?_⟩
    obtain rfl | ⟨h1, h2, -⟩ := argaddr_some ht
    · by_contra hno
      unfold MapState.sysMunmap at hformed
      rw [Option.mem_def.1 ht] at hformed
      exact h.munmap_broken haddr hno hformed
    · exact absurd ⟨h1, h2⟩ habsent

theorem Regular.step (htidy : Tidy s e) (hfire : fire s e = some s') : Regular s' := by
  unfold fire at hfire
  split at hfire
  · cases hfire
  · cases e with
    | mmap length =>
      obtain ⟨-, rfl⟩ := of_guarded hfire
      exact h.mmap htidy
    | munmap addr length ok =>
      obtain ⟨hargs, rfl⟩ := of_guarded hfire
      exact h.sysMunmap hargs.1 htidy
    | sbrk n =>
      obtain ⟨hargs, rfl⟩ := of_guarded hfire
      exact h.sbrk hargs.1 htidy
    | fault va ok =>
      obtain ⟨hargs, rfl⟩ := of_guarded hfire
      exact h.fault hargs.1 htidy

theorem Regular.broken (hbad : ¬ Tidy s e) (hfire : fire s e = some s') : ¬ s'.Formed := by
  unfold fire at hfire
  split at hfire
  · cases hfire
  · cases e with
    | mmap length =>
      obtain ⟨-, rfl⟩ := of_guarded hfire
      exact mmap_broken hbad
    | munmap addr length ok =>
      obtain ⟨hargs, rfl⟩ := of_guarded hfire
      exact h.sysMunmap_broken hargs.1 hbad
    | sbrk n =>
      obtain ⟨-, rfl⟩ := of_guarded hfire
      exact sbrk_broken hbad
    | fault va ok =>
      obtain ⟨hargs, rfl⟩ := of_guarded hfire
      exact h.fault_broken hargs.1 hbad

end

def fresh : MapState := ⟨2 * PGSIZE, fun _ => ⟨false, 0, 0, 0⟩, fun _ => none, 0, false⟩

instance {s : MapState} {addr length : Nat} : Decidable (s.Unmaps addr length) := by
  unfold MapState.Unmaps
  infer_instance

instance {s : MapState} {va : Nat} : Decidable (s.Fills va) := by
  unfold MapState.Fills
  infer_instance

instance (s : MapState) (e : Event) : Decidable (Tidy s e) := by
  cases e <;> unfold Tidy <;> infer_instance

def twoPages : List Event :=
  [.mmap (2 * PGSIZE), .fault (3 * PGSIZE + 1) true, .munmap (2 * PGSIZE) PGSIZE true]

end OopsOS.Mmap
