import OopsOS.Addresses
import OopsOS.Layout
import OopsOS.Traces

namespace OopsOS.Mapping
set_option autoImplicit true
open Function

/-- A byte is known by its origin: a position of the file at `mmap`, or the last store at an
address. -/
inductive Byte where
  | zero
  | file (pos : Nat)
  | stored (va : Nat)
deriving DecidableEq

inductive Slot where
  | absent
  | resident (bytes : Nat → Byte)
  | swapped (bytes : Nat → Byte)

def Slot.isAbsent : Slot → Bool
  | .absent => true
  | _ => false

/-- An open inode file. `mode` tells whether the inode may be written. -/
structure File where
  bytes : Nat → Byte
  size : Nat
  off : Nat
  mode : Bool

/-- A readable mapping. `was` is the file's size at `mmap`, `stored` the addresses stored to;
`modified`: such a byte of the file has changed. -/
structure Mapped where
  base : Nat
  was : Nat
  used : Bool
  addr : Nat
  len : Nat
  filesz : Nat
  sz : Nat
  shared : Bool
  write : Bool
  page : Nat → Slot
  stored : Nat → Bool
  file : File
  modified : Bool

def mmap (sz length size off : Nat) (mode shared write : Bool) : Mapped :=
  { base := sz
    was := size
    used := true
    addr := sz
    len := length
    filesz := if size ≤ 0 then 0 else if size < length then size else length
    sz := sz + length
    shared := shared
    write := write
    page := fun _ => .absent
    stored := fun _ => false
    file := ⟨.file, size, off, mode⟩
    modified := false }

def Mapped.setPage (s : Mapped) (q : Nat) (p : Slot) : Mapped :=
  { s with page := update s.page q p }

def Mapped.covers (s : Mapped) (va : Nat) : Bool := s.used && s.addr ≤ va && va < s.addr + s.len

def Mapped.pageOff (s : Mapped) (va : Nat) : Nat := (va - s.addr) / PGSIZE * PGSIZE

def Mapped.fill (s : Mapped) (va : Nat) (i : Nat) : Byte :=
  if s.pageOff va < s.filesz ∧ i < min (s.filesz - s.pageOff va) PGSIZE ∧
    s.pageOff va + i < s.file.size
  then s.file.bytes (s.pageOff va + i)
  else .zero

/-- A page fault. Outside of the mapping the process gets a page of zeros. -/
def Mapped.fault (s : Mapped) (va : Nat) : Option Mapped :=
  match s.page (va / PGSIZE) with
  | .resident _ => none
  | .swapped c => some (s.setPage (va / PGSIZE) (.resident c))
  | .absent =>
    if s.covers va then some (s.setPage (va / PGSIZE) (.resident (s.fill va)))
    else if va < s.sz then some (s.setPage (va / PGSIZE) (.resident fun _ => .zero))
    else none

/-- The fetch of an address argument of a call, which brings its page in; none if it fails. -/
def Mapped.argaddr (s : Mapped) (va : Nat) : Option Mapped :=
  if va = 0 then some s
  else
    match s.page (va / PGSIZE) with
    | .resident _ => some s
    | _ => s.fault va

def Mapped.store (s : Mapped) (va : Nat) : Option Mapped :=
  match s.page (va / PGSIZE) with
  | .resident c =>
    if s.write ∧ s.covers va then
      some { s.setPage (va / PGSIZE) (.resident (update c (va % PGSIZE) (.stored va))) with
        stored := update s.stored va true }
    else none
  | _ => none

def File.writei (f : File) (off n : Nat) (src : Nat → Byte) : Option File :=
  if f.size < off ∨ MAXFILE * BSIZE < off + n then none
  else
    some { f with
      bytes := fun x => if off ≤ x ∧ x < off + n then src (x - off) else f.bytes x
      size := max f.size (off + n) }

/-- `filewrite` of `n` bytes, with `i` done. It does not return if a byte needs the inode lock that
it holds. -/
def File.filewrite (src : Nat → Option Byte) : Nat → File → Nat → Nat → Option File
  | 0, f, _, _ => some f
  | fuel + 1, f, i, n =>
    if n ≤ i then some f
    else if f.mode = false then some f
    else
      let n1 := min (n - i) writeMax
      match f.writei f.off n1 fun k => (src (i + k)).getD .zero with
      | none => some f
      | some f' =>
        if ∃ k < n1, src (i + k) = none then none
        else File.filewrite src fuel { f' with off := f.off + n1 } (i + n1) n

def Mapped.vmaWriteback (s : Mapped) (va : Nat) (c : Nat → Byte) : Option File :=
  if s.write = false then some s.file
  else if s.len ≤ s.pageOff va then some s.file
  else s.file.writei (s.pageOff va) (min PGSIZE (s.len - s.pageOff va)) c

def File.differs (f : File) (n : Nat) : Bool := (List.range n).any fun x => f.bytes x ≠ .file x

def Mapped.wrote (s : Mapped) (f : File) : Mapped :=
  { s with file := f, modified := s.modified || f.differs s.was }

/-- `swapout` of a page. A shared page of the mapping is written back and dropped. -/
def Mapped.evict (s : Mapped) (q : Nat) : Option Mapped :=
  match s.page q with
  | .resident c =>
    if s.covers (q * PGSIZE) ∧ s.shared then
      match s.vmaWriteback (q * PGSIZE) c with
      | some f => some ((s.setPage q .absent).wrote f)
      | none => some s
    else some (s.setPage q (.swapped c))
  | _ => none

def Mapped.copyin (s : Mapped) (va : Nat) : Option Byte :=
  match s.page (va / PGSIZE) with
  | .resident c => some (c (va % PGSIZE))
  | .swapped c => some (c (va % PGSIZE))
  | .absent => if s.covers va then none else some .zero

def Mapped.flush (s : Mapped) (start n : Nat) : Option File :=
  if s.shared ∧ s.write then File.filewrite (fun i => s.copyin (start + i)) n s.file 0 n
  else some s.file

def Mapped.uvmunmap (s : Mapped) (va npages : Nat) : Option Mapped :=
  if va % PGSIZE ≠ 0 then none
  else
    some { s with
      page := fun q => if va / PGSIZE ≤ q ∧ q < va / PGSIZE + npages then .absent else s.page q }

def Mapped.removable (s : Mapped) (start n : Nat) : Bool :=
  s.used && n ≤ s.len && (s.addr = start || start + n = s.addr + s.len)

def Mapped.shrink (s : Mapped) (start n : Nat) : Mapped :=
  { s with addr := if s.addr = start then s.addr + n else s.addr, len := s.len - n }

/-- The end of `sys_munmap`, for which a mapping without a page is gone. -/
def Mapped.remove (s : Mapped) (start n : Nat) : Option Mapped :=
  if s.removable start n then
    match (s.shrink start n).flush start n with
    | some f =>
      match ((s.shrink start n).wrote f).uvmunmap start (n / PGSIZE) with
      | some s' => some { s' with used := decide (s'.len ≠ 0) }
      | none => none
    | none => none
  else some s

def Mapped.munmap (s : Mapped) (start n : Nat) : Option Mapped :=
  match s.argaddr start with
  | some s' => s'.remove start n
  | none => some s

def Mapped.finish (s : Mapped) : Option Mapped :=
  if s.used then
    match s.flush s.addr s.len with
    | some f =>
      match (s.wrote f).uvmunmap s.addr (s.len / PGSIZE) with
      | some s' => some { s' with used := false }
      | none => none
    | none => none
  else some s

inductive Event where
  | fault (va : Nat)
  | store (va : Nat)
  | seek (off : Nat)
  | evict (q : Nat)
  | munmap (start n : Nat)
  | finish

/-- One step of the process or of the kernel for it; none if it does not return. -/
def fire (s : Mapped) : Event → Option Mapped
  | .fault va => s.fault va
  | .store va => s.store va
  | .seek off => some { s with file := { s.file with off := off } }
  | .evict q => s.evict q
  | .munmap start n => s.munmap start n
  | .finish => s.finish

def Mapped.view (s : Mapped) (va : Nat) : Byte :=
  match s.page (va / PGSIZE) with
  | .resident c => c (va % PGSIZE)
  | .swapped c => c (va % PGSIZE)
  | .absent => s.fill va (va % PGSIZE)

variable {s s' : Mapped} {va q start n : Nat}

theorem Mapped.covers_iff :
    s.covers va = true ↔ s.used = true ∧ s.addr ≤ va ∧ va < s.addr + s.len := by
  simp only [Mapped.covers, Bool.and_eq_true, decide_eq_true_eq, and_assoc]

theorem Mapped.removable_iff : s.removable start n = true ↔
    s.used = true ∧ n ≤ s.len ∧ (s.addr = start ∨ start + n = s.addr + s.len) := by
  simp only [Mapped.removable, Bool.and_eq_true, Bool.or_eq_true, decide_eq_true_eq, and_assoc]

theorem File.differs_iff {f : File} : f.differs n = false ↔ ∀ x, x < n → f.bytes x = .file x := by
  simp [File.differs]

theorem Slot.isAbsent_iff {p : Slot} : p.isAbsent = true ↔ p = .absent := by
  cases p with
  | absent => exact ⟨fun _ => rfl, fun _ => rfl⟩
  | resident c => exact ⟨(nomatch ·), (nomatch ·)⟩
  | swapped c => exact ⟨(nomatch ·), (nomatch ·)⟩

def Slot.Holds (p : Slot) (c : Nat → Byte) : Prop := p = .resident c ∨ p = .swapped c

theorem Mapped.fault_cases (h : s.fault va = some s') :
    (∃ c, s.page (va / PGSIZE) = .swapped c ∧ s' = s.setPage (va / PGSIZE) (.resident c)) ∨
    (s.page (va / PGSIZE) = .absent ∧ s.covers va = true ∧
      s' = s.setPage (va / PGSIZE) (.resident (s.fill va))) ∨
    (s.page (va / PGSIZE) = .absent ∧ s.covers va = false ∧ va < s.sz ∧
      s' = s.setPage (va / PGSIZE) (.resident fun _ => .zero)) := by
  unfold Mapped.fault at h
  split at h
  · cases h
  · next c hc => exact .inl ⟨c, hc, (Option.some.inj h).symm⟩
  · next hc =>
    split at h
    · next hcov => exact .inr (.inl ⟨hc, hcov, (Option.some.inj h).symm⟩)
    · next hcov =>
      split at h
      · next hsz => exact .inr (.inr ⟨hc, by simpa using hcov, hsz, (Option.some.inj h).symm⟩)
      · cases h

theorem Mapped.store_cases (h : s.store va = some s') :
    ∃ c, s.page (va / PGSIZE) = .resident c ∧ s.write = true ∧ s.covers va = true ∧
      s' = { s.setPage (va / PGSIZE) (.resident (update c (va % PGSIZE) (.stored va))) with
        stored := update s.stored va true } := by
  unfold Mapped.store at h
  split at h
  · next c hc =>
    split at h
    · next hw => exact ⟨c, hc, hw.1, hw.2, (Option.some.inj h).symm⟩
    · cases h
  · cases h

theorem Mapped.argaddr_cases (h : s.argaddr va = some s') : s' = s ∨ s.fault va = some s' := by
  unfold Mapped.argaddr at h
  split at h
  · exact .inl (Option.some.inj h).symm
  · split at h
    · exact .inl (Option.some.inj h).symm
    · exact .inr h

theorem Mapped.evict_cases (h : s.evict q = some s') :
    s' = s ∨ ∃ c, s.page q = .resident c ∧
      ((s.covers (q * PGSIZE) = true ∧ s.shared = true ∧
        ∃ f, s.vmaWriteback (q * PGSIZE) c = some f ∧ s' = (s.setPage q .absent).wrote f) ∨
      (¬ (s.covers (q * PGSIZE) = true ∧ s.shared = true) ∧ s' = s.setPage q (.swapped c))) := by
  unfold Mapped.evict at h
  split at h
  · next c hc =>
    split at h
    · next hcov =>
      split at h
      · next f hf => exact .inr ⟨c, hc, .inl ⟨hcov.1, hcov.2, f, hf, (Option.some.inj h).symm⟩⟩
      · exact .inl (Option.some.inj h).symm
    · next hcov => exact .inr ⟨c, hc, .inr ⟨hcov, (Option.some.inj h).symm⟩⟩
  · cases h

def Mapped.unmapped (s : Mapped) (va npages : Nat) : Mapped :=
  { s with
    page := fun q => if va / PGSIZE ≤ q ∧ q < va / PGSIZE + npages then .absent else s.page q }

theorem Mapped.uvmunmap_cases (h : s.uvmunmap va npages = some s') :
    va % PGSIZE = 0 ∧ s' = s.unmapped va npages := by
  unfold Mapped.uvmunmap at h
  split at h
  · cases h
  · next hva => exact ⟨not_not.1 hva, (Option.some.inj h).symm⟩

def Mapped.cut (s : Mapped) (start n : Nat) (f : File) : Mapped :=
  { ((s.shrink start n).wrote f).unmapped start (n / PGSIZE) with
    used := decide (s.len - n ≠ 0) }

theorem Mapped.remove_cases (h : s.remove start n = some s') :
    s.removable start n = false ∧ s' = s ∨
    s.removable start n = true ∧ start % PGSIZE = 0 ∧
      ∃ f, (s.shrink start n).flush start n = some f ∧ s' = s.cut start n f := by
  unfold Mapped.remove at h
  split at h
  · next hr =>
    split at h
    · next f hf =>
      split at h
      · next s₁ hs₁ =>
        obtain ⟨hal, rfl⟩ := uvmunmap_cases hs₁
        exact .inr ⟨hr, hal, f, hf, (Option.some.inj h).symm⟩
      · cases h
    · cases h
  · next hr => exact .inl ⟨by simpa using hr, (Option.some.inj h).symm⟩

theorem Mapped.munmap_cases (h : s.munmap start n = some s') :
    s' = s ∨ ∃ s₁, s.argaddr start = some s₁ ∧ s₁.remove start n = some s' := by
  unfold Mapped.munmap at h
  split at h
  · next s₁ hs₁ => exact .inr ⟨s₁, hs₁, h⟩
  · exact .inl (Option.some.inj h).symm

theorem Mapped.finish_cases (h : s.finish = some s') :
    s.used = false ∧ s' = s ∨ s.used = true ∧ s.addr % PGSIZE = 0 ∧
      ∃ f, s.flush s.addr s.len = some f ∧
        s' = { (s.wrote f).unmapped s.addr (s.len / PGSIZE) with used := false } := by
  unfold Mapped.finish at h
  split at h
  · next hused =>
    split at h
    · next f hf =>
      split at h
      · next s₁ hs₁ =>
        obtain ⟨hal, rfl⟩ := uvmunmap_cases hs₁
        exact .inr ⟨hused, hal, f, hf, (Option.some.inj h).symm⟩
      · cases h
    · cases h
  · next hused => exact .inl ⟨by simpa using hused, (Option.some.inj h).symm⟩

theorem Mapped.view_keep (h : s.view va = b)
    (hp : s'.page (va / PGSIZE) = s.page (va / PGSIZE))
    (hfill : s.page (va / PGSIZE) = .absent → s'.fill va (va % PGSIZE) = b) : s'.view va = b := by
  unfold Mapped.view at h ⊢
  rw [hp]
  cases hpage : s.page (va / PGSIZE) with
  | absent => exact hfill hpage
  | resident c =>
    rw [hpage] at h
    exact h
  | swapped c =>
    rw [hpage] at h
    exact h

theorem Mapped.view_absent (h : s.page q = .absent) (hq : va / PGSIZE = q) :
    s.view va = s.fill va (va % PGSIZE) := by
  rw [Mapped.view, hq, h]

theorem Mapped.view_holds (h : (s.page q).Holds c) (hq : va / PGSIZE = q) :
    s.view va = c (va % PGSIZE) := by
  obtain h | h := h
  · rw [Mapped.view, hq, h]
  · rw [Mapped.view, hq, h]

theorem Mapped.setPage_same (s : Mapped) (q : Nat) (p : Slot) : (s.setPage q p).page q = p :=
  update_self ..

theorem Mapped.setPage_other (h : q' ≠ q) :
    (s.setPage q p).page q' = s.page q' :=
  update_of_ne h ..

theorem Mapped.view_setPage (hp : p.Holds c) : (s.setPage q p).view va =
    if va / PGSIZE = q then c (va % PGSIZE) else s.view va := by
  split
  · next hq => exact view_holds (by rw [setPage_same]; exact hp) hq
  · next hq => exact view_keep rfl (setPage_other hq) fun hab => (view_absent hab rfl).symm

theorem Mapped.view_setPage_same (hp : p.Holds c)
    (hc : va / PGSIZE = q → c (va % PGSIZE) = s.view va) : (s.setPage q p).view va = s.view va := by
  rw [view_setPage hp]
  split
  · next hq => exact hc hq
  · rfl

theorem Mapped.page_shrunk (hal : start % PGSIZE = 0) (hr : s.removable start n = true)
    (hcov : (s.cut start n f).covers va = true) :
    s.covers va = true ∧ (s.cut start n f).page (va / PGSIZE) = s.page (va / PGSIZE) := by
  obtain ⟨hused, hn, hr⟩ := removable_iff.1 hr
  have hva := (covers_iff.1 hcov).2
  simp only [cut, unmapped, wrote, shrink] at hva
  have hout : va < start ∨ start + n ≤ va := by
    split at hva <;> omega
  refine ⟨covers_iff.2 ⟨hused, by split at hva <;> omega⟩, if_neg ?_⟩
  simp only [PGSIZE] at hal ⊢
  omega

theorem Mapped.fault_same (h : s.fault va = some s') : ∃ page, s' = { s with page := page } := by
  obtain ⟨c, -, rfl⟩ | ⟨-, -, rfl⟩ | ⟨-, -, -, rfl⟩ := fault_cases h
  · exact ⟨_, rfl⟩
  · exact ⟨_, rfl⟩
  · exact ⟨_, rfl⟩

theorem Mapped.argaddr_same (h : s.argaddr va = some s') : ∃ page, s' = { s with page := page } ∧
    ∀ q, q ≠ va / PGSIZE → page q = s.page q := by
  obtain rfl | hf := argaddr_cases h
  · exact ⟨s'.page, rfl, fun _ _ => rfl⟩
  · obtain ⟨c, -, rfl⟩ | ⟨-, -, rfl⟩ | ⟨-, -, -, rfl⟩ := fault_cases hf
    · exact ⟨_, rfl, fun q hq => setPage_other hq⟩
    · exact ⟨_, rfl, fun q hq => setPage_other hq⟩
    · exact ⟨_, rfl, fun q hq => setPage_other hq⟩

theorem rest_page_ne (hal : start % PGSIZE = 0) (hn : n % PGSIZE = 0) (hpos : 0 < n) (k : Nat) :
    (start + n + k) / PGSIZE ≠ start / PGSIZE := by
  simp only [PGSIZE] at hal hn ⊢
  omega

theorem Mapped.fill_eq (hal : s.addr % PGSIZE = 0) (hva : s.addr ≤ va)
    (hsize : s.filesz ≤ s.file.size) : s.fill va (va % PGSIZE) =
      if va - s.addr < s.filesz then s.file.bytes (va - s.addr) else .zero := by
  have hoff : s.pageOff va + va % PGSIZE = va - s.addr := by
    simp only [Mapped.pageOff, PGSIZE] at hal ⊢
    omega
  have hlt : va % PGSIZE < PGSIZE := Nat.mod_lt _ (by decide)
  unfold Mapped.fill
  rw [hoff]
  refine if_congr ⟨fun h => ?_, fun h => ⟨?_, ?_, ?_⟩⟩ rfl rfl <;> omega

theorem Mapped.fill_page (hal : s.addr % PGSIZE = 0) (hva : s.addr ≤ va)
    (hva' : s.addr ≤ va') (hpage : va' / PGSIZE = va / PGSIZE) : s.fill va = s.fill va' := by
  have hoff : s.pageOff va = s.pageOff va' := by
    simp only [Mapped.pageOff, PGSIZE] at hal hpage ⊢
    omega
  unfold Mapped.fill
  rw [hoff]

theorem Mapped.fill_zero (h : s.filesz = 0) (i : Nat) : s.fill va i = .zero := by
  unfold Mapped.fill
  exact if_neg fun hlt => Nat.not_lt_zero _ (h ▸ hlt.1)

/-- No page is in the mapping in part, but for the last one of the process. -/
def Mapped.Fits (s : Mapped) : Prop :=
  s.filesz = 0 ∨ s.addr % PGSIZE = 0 ∧ (s.sz ≤ s.addr + s.len ∨ (s.addr + s.len) % PGSIZE = 0)

theorem Mapped.fault_view (hfits : s.used = true → s.Fits) (h : s.fault va = some s')
    (hcov' : s.covers va' = true) : s'.view va' = s.view va' := by
  obtain ⟨hused, hin⟩ := covers_iff.1 hcov'
  obtain ⟨c, hc, rfl⟩ | ⟨hab, hcov, rfl⟩ | ⟨hab, hcov, hsz, rfl⟩ := fault_cases h
  · exact view_setPage_same (.inl rfl) fun hp => (view_holds (.inr hc) hp).symm
  · refine view_setPage_same (.inl rfl) fun hp => ?_
    rw [view_absent hab hp]
    obtain hzero | ⟨hal, -⟩ := hfits hused
    · rw [fill_zero hzero, fill_zero hzero]
    · rw [fill_page hal (covers_iff.1 hcov).2.1 hin.1 hp]
  · refine view_setPage_same (.inl rfl) fun hp => ?_
    obtain hzero | ⟨hal, hedge⟩ := hfits hused
    · rw [view_absent hab hp, fill_zero hzero]
    · have hout : ¬ (s.addr ≤ va ∧ va < s.addr + s.len) := fun hva =>
        absurd (covers_iff.2 ⟨hused, hva⟩) (by simp [hcov])
      simp only [PGSIZE] at hal hp hedge
      omega

theorem Mapped.argaddr_view (hfits : s.used = true → s.Fits) (h : s.argaddr va = some s')
    (hcov : s.covers va' = true) : s'.view va' = s.view va' := by
  obtain rfl | h := argaddr_cases h
  · rfl
  · exact fault_view hfits h hcov

theorem Mapped.store_view (h : s.store va = some s') (hne : va' ≠ va) :
    s'.view va' = s.view va' := by
  obtain ⟨c, hc, -, -, rfl⟩ := store_cases h
  refine view_setPage_same (s := s) (.inl rfl) fun hp => ?_
  have hmod : va' % PGSIZE ≠ va % PGSIZE := fun hmod => hne (by
    rw [← Nat.div_add_mod va' PGSIZE, ← Nat.div_add_mod va PGSIZE, hp, hmod])
  rw [update_of_ne hmod, view_holds (.inl hc) hp]

theorem Mapped.vmaWriteback_cases (hlen : s.pageOff va < s.len)
    (h : s.vmaWriteback va c = some f) :
    s.write = false ∧ f = s.file ∨ s.write = true ∧ s.pageOff va ≤ s.file.size ∧
      f = { s.file with
        bytes := fun x =>
          if s.pageOff va ≤ x ∧ x < s.pageOff va + min PGSIZE (s.len - s.pageOff va)
          then c (x - s.pageOff va) else s.file.bytes x
        size := max s.file.size (s.pageOff va + min PGSIZE (s.len - s.pageOff va)) } := by
  unfold Mapped.vmaWriteback at h
  split at h
  · next hw => exact .inl ⟨hw, (Option.some.inj h).symm⟩
  · next hw =>
    rw [if_neg (Nat.not_le.2 hlen)] at h
    unfold File.writei at h
    split at h
    · cases h
    · next hsize =>
      exact .inr ⟨by simpa using hw, Nat.le_of_not_lt fun hlt => hsize (.inl hlt),
        (Option.some.inj h).symm⟩

end OopsOS.Mapping
