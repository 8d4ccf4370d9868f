import OopsOS.Mapping

namespace OopsOS.Mapping
set_option autoImplicit true
open Function

variable {s s' : Mapped} {va q start n : Nat} {f : File} {src : Nat → Option Byte}

/-- The file holds in a range what the mapping showed there, and is otherwise as it was. -/
def Mapped.Exact (s : Mapped) (f : File) (lo n : Nat) : Prop :=
  f.size = s.file.size ∧ ∀ x, x < s.file.size →
    f.bytes x = if lo ≤ x ∧ x < lo + n then s.view (s.base + x) else s.file.bytes x

/-- How much of a page is mapped. -/
def Mapped.partOf (s : Mapped) (q : Nat) : Nat := min PGSIZE (s.len - (q * PGSIZE - s.addr))

/-- The write-back of a step is exact, and pages written back show the same bytes when filled again.
-/
def Mapped.WrittenBack (s : Mapped) : Event → Prop
  | .munmap start n =>
    s.removable start n = true →
      ∃ s', s.munmap start n = some s' ∧ s.Exact s'.file (start - s.base) n
  | .finish =>
    s.used = true → ∃ s', s.finish = some s' ∧ s.Exact s'.file (s.addr - s.base) s.len
  | .evict q =>
    s.covers (q * PGSIZE) = true → ∀ s', s.evict q = some s' → s'.page q = .absent →
      s.Exact s'.file (q * PGSIZE - s.base) (s.partOf q) ∧
        ∀ va, va / PGSIZE = q → s.covers va = true → s'.view va = s.view va
  | _ => True

def Mapped.Refused (s : Mapped) (n : Nat) : Prop :=
  n = 0 ∨ s.file.mode = false ∨ s.file.size < s.file.off

def Mapped.Clean (s : Mapped) (lo n : Nat) : Prop :=
  ∀ x, lo ≤ x → x < lo + n → x < s.file.size → s.view (s.base + x) = s.file.bytes x

def Mapped.Ready (s : Mapped) (start n : Nat) : Prop :=
  s.file.off = start - s.base ∧ start - s.base + n ≤ s.file.size ∧
    ∀ va, start ≤ va → va < start + n → s.page (va / PGSIZE) ≠ .absent

def Mapped.Flushes (s : Mapped) (start n : Nat) : Prop :=
  s.Refused n ∧ s.Clean (start - s.base) n ∨ ¬ s.Refused n ∧ s.Ready start n

def Slot.isResident : Slot → Bool
  | .resident _ => true
  | _ => false

/-- When write-back is exact: a range that ends is flushed as in `Flushes`; a page is evicted with
no head gone and its mapped part in the file, or past the end, where nothing is written. -/
def Mapped.Careful (s : Mapped) : Event → Prop
  | .munmap start n => s.removable start n = true → ∀ s₁, s.argaddr start = some s₁ →
      start % PGSIZE = 0 ∧ s₁.Flushes start n
  | .finish => s.used = true → s.Flushes s.addr s.len
  | .evict q =>
    s.covers (q * PGSIZE) = true → (s.page q).isResident = true →
      s.file.size < q * PGSIZE - s.addr ∨
        s.addr = s.base ∧ q * PGSIZE - s.addr + s.partOf q ≤ s.file.size
  | _ => True

/-- The rest of the mapping has its pages when a head of whole pages is unmapped. -/
def Mapped.Orderly (s : Mapped) (e : Event) : Prop :=
  s.Careful e ∧
    match e with
    | .munmap start n => s.removable start n = true → s.addr = start → 0 < n → n < s.len →
        n % PGSIZE = 0 ∧ ∀ k, k < min (s.len - n) s.filesz →
          s.page ((start + n + k) / PGSIZE) ≠ .absent
    | _ => True

def Mapped.Room (s : Mapped) : Event → Prop
  | .munmap _ n => s.file.off + n ≤ MAXFILE * BSIZE
  | .finish => s.file.off + s.len ≤ MAXFILE * BSIZE
  | .evict q => q * PGSIZE - s.addr + s.partOf q ≤ MAXFILE * BSIZE
  | _ => True

theorem writeMax_pos : 0 < writeMax := by decide

theorem File.writei_eq {off : Nat} {b : Nat → Byte} (hoff : off ≤ f.size)
    (hroom : off + n ≤ MAXFILE * BSIZE) :
    f.writei off n b = some { f with
      bytes := fun x => if off ≤ x ∧ x < off + n then b (x - off) else f.bytes x
      size := max f.size (off + n) } :=
  if_neg (by omega)

theorem File.filewrite_refused (fuel i : Nat) (h : f.mode = false ∨ f.size < f.off) :
    File.filewrite src fuel f i n = some f := by
  cases fuel with
  | zero => rfl
  | succ fuel =>
    unfold File.filewrite
    split
    · rfl
    · split
      · rfl
      · next hmode =>
        have hsize := h.resolve_left hmode
        have hnone (k : Nat) (b : Nat → Byte) : f.writei f.off k b = none := if_pos (.inl hsize)
        simp only [hnone]

def File.overwritten (f : File) (src : Nat → Option Byte) (i n : Nat) : File :=
  { f with
    bytes := fun x =>
      if f.off ≤ x ∧ x < f.off + (n - i) then (src (i + (x - f.off))).getD .zero else f.bytes x
    size := max f.size (f.off + (n - i))
    off := f.off + (n - i) }

theorem File.overwritten_add (i k : Nat) (hk : i + k ≤ n) :
    (f.overwritten src i (i + k)).overwritten src (i + k) n = f.overwritten src i n := by
  simp only [overwritten, Nat.add_sub_cancel_left, File.mk.injEq, and_true]
  refine ⟨funext fun x => ?_, by omega, by omega⟩
  by_cases hx : f.off + k ≤ x
  · rw [show i + k + (x - (f.off + k)) = i + (x - f.off) by omega]
    split_ifs <;> first | rfl | omega
  · split_ifs <;> first | rfl | omega

theorem File.filewrite_step {fuel i : Nat} (hi : i < n) (hmode : f.mode = true)
    (hoff : f.off ≤ f.size) (hroom : f.off + (n - i) ≤ MAXFILE * BSIZE) :
    File.filewrite src (fuel + 1) f i n =
      if ∃ k < min (n - i) writeMax, src (i + k) = none then none
      else File.filewrite src fuel (f.overwritten src i (i + min (n - i) writeMax))
        (i + min (n - i) writeMax) n := by
  rw [File.filewrite, if_neg (Nat.not_le.2 hi), if_neg (by rw [hmode]; decide)]
  simp only [writei_eq hoff (Nat.le_trans (Nat.add_le_add_left (Nat.min_le_left ..) _) hroom),
    overwritten, Nat.add_sub_cancel_left]

theorem File.overwritten_self (i : Nat) (hi : n ≤ i) (hoff : f.off ≤ f.size) :
    f.overwritten src i n = f := by
  have hnone (x : Nat) : ¬ (f.off ≤ x ∧ x < f.off) := by omega
  simp only [overwritten, Nat.sub_eq_zero_of_le hi, Nat.add_zero, Nat.max_eq_left hoff, hnone,
    if_false]

theorem File.filewrite_done (hi : n ≤ i) : File.filewrite src fuel f i n = some f := by
  cases fuel with
  | zero => rfl
  | succ fuel => exact if_pos hi

theorem File.filewrite_all (hfuel : n - i ≤ fuel) (hmode : f.mode = true)
    (hoff : f.off ≤ f.size) (hroom : f.off + (n - i) ≤ MAXFILE * BSIZE)
    (hsrc : ∀ k, i ≤ k → k < n → src k ≠ none) :
    File.filewrite src fuel f i n = some (f.overwritten src i n) := by
  induction fuel generalizing f i with
  | zero =>
    have hi : n ≤ i := by omega
    rw [filewrite_done hi, overwritten_self i hi hoff]
  | succ fuel ih =>
    by_cases hi : n ≤ i
    · rw [filewrite_done hi, overwritten_self i hi hoff]
    · have hpos := writeMax_pos
      rw [filewrite_step (Nat.not_le.1 hi) hmode hoff hroom, if_neg, ih, overwritten_add]
      · omega
      · omega
      · exact hmode
      · simp only [overwritten]
        omega
      · simp only [overwritten]
        omega
      · exact fun k hk hn => hsrc k (by omega) hn
      · rintro ⟨k, hk, hnone⟩
        exact hsrc (i + k) (by omega) (by omega) hnone

theorem File.filewrite_stuck (hfuel : n - i ≤ fuel) (hmode : f.mode = true)
    (hoff : f.off ≤ f.size) (hroom : f.off + (n - i) ≤ MAXFILE * BSIZE)
    (hk : i ≤ k) (hn : k < n) (hsrc : src k = none) : File.filewrite src fuel f i n = none := by
  induction fuel generalizing f i with
  | zero => omega
  | succ fuel ih =>
    have hpos := writeMax_pos
    rw [filewrite_step (Nat.lt_of_le_of_lt hk hn) hmode hoff hroom]
    by_cases hin : k < i + min (n - i) writeMax
    · refine if_pos ⟨k - i, by omega, ?_⟩
      rw [Nat.add_sub_cancel' hk]
      exact hsrc
    · split
      · rfl
      · refine ih (by omega) hmode ?_ ?_ (Nat.le_of_not_lt hin)
        · simp only [overwritten]
          omega
        · simp only [overwritten]
          omega

def Byte.At (base x : Nat) (b : Byte) : Prop := b = .file x ∨ b = .stored (base + x)

theorem Byte.At.pos_eq {base x y : Nat} {b : Byte} (h : b.At base x) (h' : b.At base y) :
    x = y := by
  obtain rfl | rfl := h
  · obtain h | h := h'
    · exact Byte.file.inj h
    · cases h
  · obtain h | h := h'
    · cases h
    · exact Nat.add_left_cancel (Byte.stored.inj h)

theorem Byte.At.ne_zero {base x : Nat} {b : Byte} (h : b.At base x) : b ≠ .zero := by
  obtain rfl | rfl := h
  · nofun
  · nofun

structure Mapped.Whole (s : Mapped) : Prop where
  shared : s.shared = true
  write : s.write = true
  start : s.base ≤ s.addr
  aligned : s.base % PGSIZE = 0
  place : s.used = true → s.addr % PGSIZE = 0
  edge : s.used = true → s.sz ≤ s.addr + s.len ∨ (s.addr + s.len) % PGSIZE = 0
  small : s.file.size ≤ MAXFILE * BSIZE
  size : s.filesz ≤ s.file.size
  reach : s.file.size ≤ s.filesz ∨ s.addr + s.len ≤ s.base + s.filesz
  bytes : ∀ x, x < s.file.size → (s.file.bytes x).At s.base x
  zero : ∀ va, s.covers va = true → s.filesz ≤ va - s.base → s.view va = .zero ∨
    s.view va = .stored va
  shown : ∀ va, s.covers va = true → va - s.base < s.filesz → (s.view va).At s.base (va - s.base)

/-- What `copyin` reads of a mapped range: a page that is absent does not show its bytes. -/
structure Mapped.Reads (s : Mapped) (start n : Nat) (src : Nat → Option Byte) : Prop where
  inside : ∀ va, start ≤ va → va < start + n → s.covers va = true
  present : ∀ k, k < n → s.page ((start + k) / PGSIZE) ≠ .absent → src k = some (s.view (start + k))
  absent : ∀ k, k < n → s.page ((start + k) / PGSIZE) = .absent →
    src k = none ∨ src k = some .zero

namespace Mapped.Whole

def writtenPage (s : Mapped) (q : Nat) (c : Nat → Byte) : File :=
  { s.file with
    bytes := fun x =>
      if q * PGSIZE - s.addr ≤ x ∧ x < q * PGSIZE - s.addr + s.partOf q
      then c (x - (q * PGSIZE - s.addr)) else s.file.bytes x
    size := max s.file.size (q * PGSIZE - s.addr + s.partOf q) }

def dropped (s : Mapped) (q : Nat) (c : Nat → Byte) : Mapped :=
  (s.setPage q .absent).wrote (writtenPage s q c)

theorem exact_same : s.Exact s.file lo n ↔ s.Clean lo n := by
  constructor
  · intro hex x hlo hhi hx
    rw [hex.2 x hx, if_pos ⟨hlo, hhi⟩]
  · intro hclean
    refine ⟨rfl, fun x hx => ?_⟩
    split
    · next hin => exact (hclean x hin.1 hin.2 hx).symm
    · rfl

section
variable (h : s.Whole)
include h

theorem view_owned (hcov : s.covers va = true) :
    s.view va = .zero ∨ (s.view va).At s.base (va - s.base) := by
  by_cases hva : va - s.base < s.filesz
  · exact .inr (h.shown va hcov hva)
  · refine (h.zero va hcov (Nat.le_of_not_lt hva)).imp_right fun hst => .inr ?_
    rw [hst, Nat.add_sub_cancel' (Nat.le_trans h.start (covers_iff.1 hcov).2.1)]

theorem view_at (hcov : s.covers (s.base + x) = true)
    (hx : x < s.file.size) : (s.view (s.base + x)).At s.base x := by
  obtain ⟨-, -, hin⟩ := covers_iff.1 hcov
  have hat := h.shown _ hcov (by have := h.reach; omega)
  rwa [Nat.add_sub_cancel_left] at hat

theorem fill (hcov : s.covers va = true) : s.fill va (va % PGSIZE) =
    if va - s.addr < s.filesz then s.file.bytes (va - s.addr) else .zero :=
  fill_eq (h.place (covers_iff.1 hcov).1) (covers_iff.1 hcov).2.1 h.size

theorem past (hcov : s.covers va = true) (hab : s.page (va / PGSIZE) = .absent)
    (hbase : s.addr ≠ s.base) : s.filesz ≤ va - s.addr := by
  by_contra hlt
  have hlt := Nat.lt_of_not_le hlt
  have hat := h.bytes _ (Nat.lt_of_lt_of_le hlt h.size)
  have hview := (view_absent hab rfl).trans (h.fill hcov)
  rw [if_pos hlt] at hview
  rw [← hview] at hat
  have hpos := hat.pos_eq ((h.view_owned hcov).resolve_left hat.ne_zero)
  have hlo := (covers_iff.1 hcov).2.1
  have hstart := h.start
  omega

theorem fits (hused : s.used = true) : s.Fits := .inr ⟨h.place hused, h.edge hused⟩

theorem repage (hview : ∀ va, s.covers va = true →
    Mapped.view { s with page := pages } va = s.view va ∨
      Mapped.view { s with page := pages } va = .stored va) :
    Mapped.Whole { s with page := pages } := by
  refine { h with zero := fun va hcov hpast => ?_, shown := fun va hcov hin => ?_ }
  · obtain heq | heq := hview va hcov
    · rw [heq]
      exact h.zero va hcov hpast
    · exact .inr heq
  · obtain heq | heq := hview va hcov
    · rw [heq]
      exact h.shown va hcov hin
    · refine .inr ?_
      rw [heq]
      exact congrArg _ (Nat.add_sub_cancel' (Nat.le_trans h.start (covers_iff.1 hcov).2.1)).symm

theorem fault (hfire : s.fault va = some s') : s'.Whole := by
  obtain ⟨page, rfl⟩ := fault_same hfire
  exact h.repage fun va' hcov => .inl (fault_view h.fits hfire hcov)

theorem argaddr (hfire : s.argaddr va = some s') : s'.Whole := by
  obtain ⟨page, rfl, -⟩ := argaddr_same hfire
  exact h.repage fun va' hcov => .inl (argaddr_view h.fits hfire hcov)

theorem store (hfire : s.store va = some s') : s'.Whole := by
  have hview {va' : Nat} : va' ≠ va → s'.view va' = s.view va' := store_view hfire
  obtain ⟨c, hc, -, -, rfl⟩ := store_cases hfire
  have hpage :
      (s.setPage (va / PGSIZE) (.resident (update c (va % PGSIZE) (.stored va)))).Whole := by
    refine h.repage fun va' _ => ?_
    by_cases hva : va' = va
    · subst hva
      exact .inr
        ((view_holds (s := s.setPage _ _) (.inl (setPage_same ..)) rfl).trans (update_self ..))
    · exact .inl (hview hva)
  exact { hpage with }

section
variable (hcov : s.covers (q * PGSIZE) = true)
include hcov

theorem pageOff_eq : s.pageOff (q * PGSIZE) = q * PGSIZE - s.addr := by
  obtain ⟨hused, hlo, -⟩ := covers_iff.1 hcov
  have hal := h.place hused
  simp only [pageOff, PGSIZE] at hal hlo ⊢
  omega

theorem vmaWriteback_eq (c : Nat → Byte) : s.vmaWriteback (q * PGSIZE) c =
    s.file.writei (q * PGSIZE - s.addr) (s.partOf q) c := by
  have hin := (covers_iff.1 hcov).2
  rw [vmaWriteback, if_neg (by rw [h.write]; decide), h.pageOff_eq hcov, if_neg (by omega)]
  rfl

theorem at_page (hlo : q * PGSIZE - s.addr ≤ x) (hhi : x < q * PGSIZE - s.addr + PGSIZE) :
    (s.addr + x) / PGSIZE = q ∧ (s.addr + x) % PGSIZE = x - (q * PGSIZE - s.addr) := by
  obtain ⟨hused, hin, -⟩ := covers_iff.1 hcov
  have hal := h.place hused
  simp only [PGSIZE] at hal hin hlo hhi ⊢
  omega

omit h in
theorem partOf_pos : 0 < s.partOf q ∧ s.partOf q ≤ PGSIZE := by
  have hin := (covers_iff.1 hcov).2
  simp only [partOf, PGSIZE] at hin ⊢
  omega

theorem exact_writtenPage (hc : s.page q = .resident c) :
    s.Exact (writtenPage s q c) (q * PGSIZE - s.base) (s.partOf q) ↔
      s.addr = s.base ∧ q * PGSIZE - s.addr + s.partOf q ≤ s.file.size := by
  obtain ⟨hpos, hle⟩ := partOf_pos hcov
  have hin := (covers_iff.1 hcov).2
  have hstart := h.start
  constructor
  · intro hex
    have hsize : q * PGSIZE - s.addr + s.partOf q ≤ s.file.size := by
      have hmax := hex.1
      simp only [writtenPage] at hmax
      omega
    refine ⟨?_, hsize⟩
    -- Written elsewhere, the first byte of the page is at a place where another byte belongs.
    by_contra hbase
    have hat := h.bytes (q * PGSIZE - s.addr) (by omega)
    have hbyte := hex.2 (q * PGSIZE - s.addr) (by omega)
    rw [if_neg (by omega)] at hbyte
    simp only [writtenPage] at hbyte
    rw [if_pos (by omega), Nat.sub_self] at hbyte
    have hview : s.view (q * PGSIZE) = c 0 := by
      rw [view_holds (.inl hc) (Nat.mul_div_cancel _ (by decide)), Nat.mul_mod_left]
    rw [← hbyte, ← hview] at hat
    have hsame := hat.pos_eq ((h.view_owned hcov).resolve_left hat.ne_zero)
    omega
  · rintro ⟨hbase, hsize⟩
    refine ⟨Nat.max_eq_left hsize, fun x _ => ?_⟩
    simp only [writtenPage, hbase]
    split
    · next hx =>
      obtain ⟨hpage, hmod⟩ := h.at_page hcov (x := x) (by omega) (by omega)
      rw [hbase] at hpage hmod
      rw [view_holds (.inl hc) hpage, hmod]
    · rfl

theorem view_dropped (hc : s.page q = .resident c) (hbase : s.addr = s.base)
    (hsize : q * PGSIZE - s.addr + s.partOf q ≤ s.file.size) (hva : s.covers va = true) :
    (dropped s q c).view va = s.view va := by
  obtain ⟨hused, hin⟩ := covers_iff.1 hva
  have hstart := (covers_iff.1 hcov).2
  have hfill : (dropped s q c).fill va (va % PGSIZE) =
      if va - s.addr < s.filesz then (writtenPage s q c).bytes (va - s.addr) else .zero :=
    fill_eq (s := dropped s q c) (h.place hused) hin.1 (Nat.le_trans h.size (Nat.le_max_left ..))
  have hreach := h.reach
  have hva' : s.addr + (va - s.addr) = va := Nat.add_sub_cancel' hin.1
  by_cases hq : va / PGSIZE = q
  · have hlo : q * PGSIZE ≤ va ∧ va < q * PGSIZE + PGSIZE := by
      simp only [PGSIZE] at hq ⊢
      omega
    have hpart : va - s.addr < q * PGSIZE - s.addr + s.partOf q := by
      simp only [partOf]
      omega
    have hmod := (h.at_page hcov (x := va - s.addr) (by omega) (by omega)).2
    rw [hva'] at hmod
    rw [view_absent (s := dropped s q c) (setPage_same s q _) hq, hfill, if_pos (by omega),
      view_holds (.inl hc) hq, hmod]
    exact if_pos (by omega)
  · refine view_keep rfl (setPage_other hq) fun hab => ?_
    have hout : ¬ (q * PGSIZE - s.addr ≤ va - s.addr ∧
        va - s.addr < q * PGSIZE - s.addr + s.partOf q) := by
      intro hpos
      have hpart := (partOf_pos hcov).2
      have hpage := (h.at_page hcov hpos.1 (by omega)).1
      rw [hva'] at hpage
      exact hq hpage
    rw [hfill, view_absent hab rfl, h.fill hva]
    simp only [writtenPage, if_neg hout]

theorem evict_eq {c : Nat → Byte} (hc : s.page q = .resident c) (hroom : s.Room (.evict q))
    (hlo : q * PGSIZE - s.addr ≤ s.file.size) : s.evict q = some (dropped s q c) := by
  simp only [Mapped.evict, hc, hcov, h.shared, and_self, if_true, h.vmaWriteback_eq hcov,
    File.writei_eq hlo hroom]
  rfl

end

theorem evict_cases (hfire : s.evict q = some s') : s' = s ∨ ∃ c, s.page q = .resident c ∧
      ((s.covers (q * PGSIZE) = true ∧ q * PGSIZE - s.addr ≤ s.file.size ∧ s' = dropped s q c) ∨
      (s.covers (q * PGSIZE) = false ∧ s' = s.setPage q (.swapped c))) := by
  obtain rfl | ⟨c, hc, ⟨hcov, -, f, hf, rfl⟩ | ⟨hcov, rfl⟩⟩ := Mapped.evict_cases hfire
  · exact .inl rfl
  · rw [h.vmaWriteback_eq hcov, File.writei] at hf
    split at hf
    · cases hf
    · next hsize =>
      obtain rfl := Option.some.inj hf
      exact .inr ⟨c, hc, .inl ⟨hcov, by omega, rfl⟩⟩
  · refine .inr ⟨c, hc, .inr ⟨?_, rfl⟩⟩
    rw [h.shared] at hcov
    simpa using hcov

/-- A file that was written exactly still holds the bytes of the mapping at their places. -/
theorem exact_at (hex : s.Exact f (start - s.base) n) (hstart : s.base ≤ start)
    (hin : ∀ va, start ≤ va → va < start + n → s.covers va = true) (hx : x < f.size) :
    (f.bytes x).At s.base x := by
  rw [hex.1] at hx
  rw [hex.2 x hx]
  split
  · next hpos => exact h.view_at (hin _ (by omega) (by omega)) hx
  · exact h.bytes x hx

theorem evict (hcare : s.Careful (.evict q)) (hfire : s.evict q = some s') : s'.Whole := by
  obtain rfl | ⟨c, hc, ⟨hcov, hlo, rfl⟩ | ⟨hcov, rfl⟩⟩ := h.evict_cases hfire
  · exact h
  · obtain ⟨hbase, hle⟩ := (hcare hcov (by rw [hc]; rfl)).resolve_left (Nat.not_lt.2 hlo)
    have hex := (h.exact_writtenPage hcov hc).2 ⟨hbase, hle⟩
    have hsize : (dropped s q c).file.size = s.file.size := hex.1
    obtain ⟨hused, hva⟩ := covers_iff.1 hcov
    refine { h with
      small := hsize ▸ h.small
      size := hsize ▸ h.size
      reach := hsize ▸ h.reach
      bytes := fun x => h.exact_at hex (Nat.le_trans h.start hva.1) fun va hlo hhi => ?_
      zero := fun va hva => h.view_dropped hcov hc hbase hle hva ▸ h.zero va hva
      shown := fun va hva => h.view_dropped hcov hc hbase hle hva ▸ h.shown va hva }
    refine covers_iff.2 ⟨hused, ?_⟩
    simp only [partOf] at hhi
    omega
  · exact h.repage fun va _ =>
      .inl (view_setPage_same (.inr rfl) fun hq => (view_holds (.inl hc) hq).symm)

theorem evict_iff (hroom : s.Room (.evict q)) : s.WrittenBack (.evict q) ↔
    s.Careful (.evict q) := by
  constructor
  · intro hback hcov hres
    by_cases hlo : s.file.size < q * PGSIZE - s.addr
    · exact .inl hlo
    · cases hc : s.page q with
      | absent => rw [hc] at hres; cases hres
      | swapped c => rw [hc] at hres; cases hres
      | resident c =>
        have hfire := h.evict_eq hcov hc hroom (Nat.not_lt.1 hlo)
        exact .inr ((h.exact_writtenPage hcov hc).1 (hback hcov _ hfire (setPage_same ..)).1)
  · intro hcare hcov s' hfire hab
    obtain rfl | ⟨c, hc, ⟨-, hlo, rfl⟩ | ⟨hcov', rfl⟩⟩ := h.evict_cases hfire
    · rw [Mapped.evict, hab] at hfire
      cases hfire
    · obtain ⟨hbase, hle⟩ := (hcare hcov (by rw [hc]; rfl)).resolve_left (Nat.not_lt.2 hlo)
      exact ⟨(h.exact_writtenPage hcov hc).2 ⟨hbase, hle⟩,
        fun va _ hva => h.view_dropped hcov hc hbase hle hva⟩
    · cases hcov.symm.trans hcov'

theorem exact_of_ready (hsrc : s.Reads start n src) (hn : n ≠ 0) (hready : s.Ready start n) :
    s.Exact (s.file.overwritten src 0 n) (start - s.base) n := by
  obtain ⟨hoff, hle, hall⟩ := hready
  have hstart : s.base ≤ start :=
    Nat.le_trans h.start (covers_iff.1 (hsrc.inside start (Nat.le_refl _) (by omega))).2.1
  refine ⟨Nat.max_eq_left (by omega), fun x hx => ?_⟩
  simp only [File.overwritten, Nat.sub_zero, Nat.zero_add, hoff]
  split
  · next hpos =>
    have hva : start + (x - (start - s.base)) = s.base + x := by omega
    rw [hsrc.present _ (by omega) (hall _ (by omega) (by omega)), hva]
    rfl
  · rfl

theorem ready_of_exact (hsrc : s.Reads start n src) (hn : n ≠ 0)
    (hex : s.Exact (s.file.overwritten src 0 n) (start - s.base) n) :
    s.Ready start n := by
  have hstart : s.base ≤ start :=
    Nat.le_trans h.start (covers_iff.1 (hsrc.inside start (Nat.le_refl _) (by omega))).2.1
  have hsize : s.file.off + n ≤ s.file.size := by
    have hmax := hex.1
    simp only [File.overwritten] at hmax
    omega
  have hat {x : Nat} (hx : x < s.file.size) :
      ((s.file.overwritten src 0 n).bytes x).At s.base x :=
    h.exact_at hex hstart hsrc.inside (hex.1 ▸ hx)
  have hbytes {k : Nat} (hk : k < n) :
      ((s.file.overwritten src 0 n).bytes (s.file.off + k)) = (src k).getD .zero := by
    simp only [File.overwritten, Nat.sub_zero, Nat.zero_add, Nat.add_sub_cancel_left]
    exact if_pos (by omega)
  have hpage {k : Nat} (hk : k < n) : s.page ((start + k) / PGSIZE) ≠ .absent := by
    intro hab
    have hbyte := hat (x := s.file.off + k) (by omega)
    rw [hbytes hk] at hbyte
    obtain hk' | hk' := hsrc.absent k hk hab
    · exact hbyte.ne_zero (by rw [hk']; rfl)
    · exact hbyte.ne_zero (by rw [hk']; rfl)
  have hoff : s.file.off = start - s.base := by
    have hbyte := hat (x := s.file.off) (by omega)
    have hfirst := hbytes (k := 0) (by omega)
    rw [Nat.add_zero, hsrc.present 0 (by omega) (hpage (by omega))] at hfirst
    rw [hfirst, Nat.add_zero] at hbyte
    have hview := h.view_owned (hsrc.inside start (Nat.le_refl _) (by omega))
    exact hbyte.pos_eq (hview.resolve_left hbyte.ne_zero)
  refine ⟨hoff, by omega, fun va hlo hhi => ?_⟩
  have hva := hpage (k := va - start) (by omega)
  rwa [Nat.add_sub_cancel' hlo] at hva

end

theorem flush_iff (h : s.Whole) (hsrc : s.Reads start n src)
    (hroom : s.Flushes start n ∨ s.file.off + n ≤ MAXFILE * BSIZE) :
    (∃ f, File.filewrite src n s.file 0 n = some f ∧ s.Exact f (start - s.base) n) ↔
      s.Flushes start n := by
  by_cases hr : s.Refused n
  · have hsame : File.filewrite src n s.file 0 n = some s.file := by
      obtain hn | hr := hr
      · exact File.filewrite_done (Nat.le_zero.2 hn)
      · exact File.filewrite_refused n 0 hr
    rw [hsame, Flushes]
    constructor
    · intro hback
      obtain ⟨f, hf, hex⟩ := hback
      obtain rfl := Option.some.inj hf
      exact .inl ⟨hr, exact_same.1 hex⟩
    · intro hflush
      obtain ⟨-, hclean⟩ | ⟨hr', -⟩ := hflush
      · exact ⟨s.file, rfl, exact_same.2 hclean⟩
      · exact absurd hr hr'
  · have hn : n ≠ 0 := fun hn => hr (.inl hn)
    have hmode : s.file.mode = true := by simpa using fun hmode => hr (.inr (.inl hmode))
    have hoff : s.file.off ≤ s.file.size := Nat.le_of_not_lt fun hlt => hr (.inr (.inr hlt))
    have hroom : s.file.off + n ≤ MAXFILE * BSIZE := by
      obtain (⟨hr', -⟩ | ⟨-, hpos, hle, -⟩) | hroom := hroom
      · exact absurd hr' hr
      · exact hpos ▸ Nat.le_trans hle h.small
      · exact hroom
    constructor
    · intro hback
      obtain ⟨f, hf, hex⟩ := hback
      have hall : ∀ k, 0 ≤ k → k < n → src k ≠ none := by
        intro k hk hlt hnone
        rw [File.filewrite_stuck (Nat.sub_le n 0) hmode hoff hroom hk hlt hnone] at hf
        cases hf
      rw [File.filewrite_all (Nat.sub_le n 0) hmode hoff hroom hall] at hf
      obtain rfl := Option.some.inj hf
      exact .inr ⟨hr, h.ready_of_exact hsrc hn hex⟩
    · intro hflush
      obtain ⟨hr', -⟩ | ⟨-, hready⟩ := hflush
      · exact absurd hr' hr
      · have hall : ∀ k, 0 ≤ k → k < n → src k ≠ none := by
          intro k _ hlt hnone
          rw [hsrc.present k hlt (hready.2.2 _ (by omega) (by omega))] at hnone
          cases hnone
        exact ⟨_, File.filewrite_all (Nat.sub_le n 0) hmode hoff hroom hall,
          h.exact_of_ready hsrc hn hready⟩

theorem copyin_present (hp : s'.page = s.page) (h : s.page (va / PGSIZE) ≠ .absent) :
    s'.copyin va = some (s.view va) := by
  rw [copyin, view, hp]
  cases hpage : s.page (va / PGSIZE) with
  | absent => exact absurd hpage h
  | resident c => rfl
  | swapped c => rfl

theorem removed_covers (hr : s.removable start n = true) (hlo : start ≤ va) (hhi : va < start + n) :
    s.covers va = true ∧ (s.shrink start n).covers va = false := by
  obtain ⟨hused, hn, hr⟩ := removable_iff.1 hr
  refine ⟨covers_iff.2 ⟨hused, by omega⟩, Bool.eq_false_iff.2 fun hcov => ?_⟩
  have hva := (covers_iff.1 hcov).2
  simp only [shrink] at hva
  split at hva <;> omega

theorem remove_iff (h : s.Whole) (hr : s.removable start n = true)
    (hroom : s.Flushes start n ∨ s.file.off + n ≤ MAXFILE * BSIZE) :
    (∃ s', s.remove start n = some s' ∧ s.Exact s'.file (start - s.base) n) ↔
      start % PGSIZE = 0 ∧ s.Flushes start n := by
  have hflush : (s.shrink start n).flush start n =
      File.filewrite (fun i => (s.shrink start n).copyin (start + i)) n s.file 0 n :=
    if_pos ⟨h.shared, h.write⟩
  have hsrc : s.Reads start n fun i => (s.shrink start n).copyin (start + i) :=
    { inside := fun va hlo hhi => (removed_covers hr hlo hhi).1
      present := fun k _ hpage => copyin_present rfl hpage
      absent := fun k hk hab => .inr (by
        rw [copyin, show (s.shrink start n).page = s.page from rfl, hab]
        exact if_neg (by rw [(removed_covers hr (Nat.le_add_right ..) (by omega)).2]; decide)) }
  rw [← flush_iff h hsrc hroom]
  constructor
  · rintro ⟨s', hfire, hex⟩
    obtain ⟨hr', -⟩ | ⟨-, hal, f, hf, rfl⟩ := remove_cases hfire
    · cases hr.symm.trans hr'
    · exact ⟨hal, f, hflush ▸ hf, hex⟩
  · rintro ⟨hal, f, hf, hex⟩
    refine ⟨s.cut start n f, ?_, hex⟩
    have hmap : ((s.shrink start n).wrote f).uvmunmap start (n / PGSIZE) =
        some (((s.shrink start n).wrote f).unmapped start (n / PGSIZE)) := if_neg (not_not.2 hal)
    rw [Mapped.remove, if_pos hr, hflush, hf]
    simp only [hmap]
    rfl

theorem exact_argaddr (h : s.Whole) (hr : s.removable start n = true)
    (hpage : s.argaddr start = some s₁) :
    s₁.Exact f (start - s₁.base) n ↔ s.Exact f (start - s.base) n := by
  have hview {va : Nat} : s.covers va = true → s₁.view va = s.view va := argaddr_view h.fits hpage
  have hsame : s₁.file = s.file ∧ s₁.base = s.base := by
    obtain ⟨page, rfl, -⟩ := argaddr_same hpage
    exact ⟨rfl, rfl⟩
  have hstart := h.start
  unfold Exact
  rw [hsame.1, hsame.2]
  refine and_congr_right fun _ => forall_congr' fun x => imp_congr_right fun _ => ?_
  obtain ⟨hused, hn, hr'⟩ := removable_iff.1 hr
  by_cases hx : start - s.base ≤ x ∧ x < start - s.base + n
  · rw [if_pos hx, if_pos hx, hview (removed_covers hr (by omega) (by omega)).1]
  · rw [if_neg hx, if_neg hx]

theorem argaddr_none (h : s.argaddr va = none) : s.covers va = false := by
  unfold Mapped.argaddr at h
  split at h
  · cases h
  · split at h
    · cases h
    · unfold Mapped.fault at h
      split at h
      · next hno _ c hres => exact absurd hres (hno c)
      · cases h
      · split at h
        · cases h
        · next hcov => simpa using hcov

theorem munmap_iff (h : s.Whole)
    (hroom : s.Careful (.munmap start n) ∨ s.Room (.munmap start n)) :
    s.WrittenBack (.munmap start n) ↔ s.Careful (.munmap start n) := by
  refine forall_congr' fun hr => ?_
  rw [Mapped.munmap]
  cases hpage : s.argaddr start with
  | none =>
    have hcov := argaddr_none hpage
    obtain ⟨hused, hn, hr'⟩ := removable_iff.1 hr
    have hzero : n = 0 := by
      by_contra hne
      have hin : s.covers start = true := covers_iff.2 ⟨hused, by omega⟩
      cases hcov.symm.trans hin
    refine iff_of_true ⟨s, rfl, exact_same.2 fun x hlo hhi => ?_⟩ fun s₁ hs₁ => nomatch hs₁
    omega
  | some s₁ =>
    have hsame : s₁.removable start n = s.removable start n ∧ s₁.file = s.file := by
      obtain ⟨page, rfl, -⟩ := argaddr_same hpage
      exact ⟨rfl, rfl⟩
    have hiff := (h.argaddr hpage).remove_iff (hsame.1.trans hr)
      (hroom.imp (fun hc => (hc hr s₁ hpage).2) fun hle => hsame.2 ▸ hle)
    constructor
    · rintro ⟨s', hfire, hex⟩ s₂ hs₂
      cases hs₂
      exact hiff.1 ⟨s', hfire, (exact_argaddr h hr hpage).2 hex⟩
    · intro hcare
      obtain ⟨s', hfire, hex⟩ := hiff.2 (hcare s₁ rfl)
      exact ⟨s', hfire, (exact_argaddr h hr hpage).1 hex⟩

theorem finish_iff (h : s.Whole) (hroom : s.Careful .finish ∨ s.Room .finish) :
    s.WrittenBack .finish ↔ s.Careful .finish := by
  refine forall_congr' fun hused => ?_
  have hflush : s.flush s.addr s.len =
      File.filewrite (fun i => s.copyin (s.addr + i)) s.len s.file 0 s.len :=
    if_pos ⟨h.shared, h.write⟩
  have hsrc : s.Reads s.addr s.len fun i => s.copyin (s.addr + i) :=
    { inside := fun va hlo hhi => covers_iff.2 ⟨hused, hlo, hhi⟩
      present := fun k _ hpage => copyin_present rfl hpage
      absent := fun k hk hab => .inl (by
        rw [copyin, hab]
        exact if_pos (covers_iff.2 ⟨hused, Nat.le_add_right .., by omega⟩)) }
  refine Iff.trans ?_ (flush_iff h hsrc (hroom.imp_left fun hc => hc hused))
  constructor
  · rintro ⟨s', hfire, hex⟩
    obtain ⟨hno, -⟩ | ⟨-, -, f, hf, rfl⟩ := finish_cases hfire
    · cases hused.symm.trans hno
    · exact ⟨f, hflush ▸ hf, hex⟩
  · rintro ⟨f, hf, hex⟩
    refine ⟨{ (s.wrote f).unmapped s.addr (s.len / PGSIZE) with used := false }, ?_, hex⟩
    have hmap : (s.wrote f).uvmunmap s.addr (s.len / PGSIZE) =
        some ((s.wrote f).unmapped s.addr (s.len / PGSIZE)) := if_neg (not_not.2 (h.place hused))
    simp only [Mapped.finish, hused, if_true, hflush, hf, hmap]

theorem writtenBack_iff (h : s.Whole) (hroom : s.Room e) :
    s.WrittenBack e ↔ s.Careful e := by
  cases e with
  | fault va => exact Iff.rfl
  | store va => exact Iff.rfl
  | seek off => exact Iff.rfl
  | evict q => exact h.evict_iff hroom
  | munmap start n => exact h.munmap_iff (.inr hroom)
  | finish => exact h.finish_iff (.inr hroom)

section
variable (h : s.Whole)
  (hrest : s.addr = start → 0 < n → n < s.len → n % PGSIZE = 0 ∧
    ∀ k, k < min (s.len - n) s.filesz → s.page ((start + n + k) / PGSIZE) ≠ .absent)
include h hrest

theorem cut_past (hcov : (s.cut start n f).covers va = true) (hin : s.covers va = true)
    (hab : s.page (va / PGSIZE) = .absent) :
    (s.cut start n f).addr = s.base ∨ s.filesz ≤ va - (s.cut start n f).addr := by
  have hva := (covers_iff.1 hcov).2
  have hlen : (s.cut start n f).len = s.len - n := rfl
  by_cases hhead : s.addr = start ∧ 0 < n
  · have haddr : (s.cut start n f).addr = start + n := (if_pos hhead.1).trans (by rw [hhead.1])
    rw [haddr, hlen] at hva
    rw [haddr]
    refine .inr (Nat.le_of_not_lt fun hlt => ?_)
    refine (hrest hhead.1 hhead.2 (by omega)).2 (va - (start + n)) (by omega) ?_
    rwa [Nat.add_sub_cancel' hva.1]
  · have haddr : (s.cut start n f).addr = s.addr := by
      simp only [Mapped.cut, unmapped, Mapped.wrote, shrink]
      split <;> omega
    rw [haddr]
    exact or_iff_not_imp_left.2 (h.past hin hab)

theorem cut (hr : s.removable start n = true) (hal : start % PGSIZE = 0)
    (hex : s.Exact f (start - s.base) n) :
    (s.cut start n f).Whole := by
  obtain ⟨hused, hn, hr'⟩ := removable_iff.1 hr
  have hstart := h.start
  have hplace (hmore : (s.cut start n f).used = true) : (s.cut start n f).addr % PGSIZE = 0 := by
    have hlen : s.len - n ≠ 0 := of_decide_eq_true hmore
    have hal' := h.place hused
    by_cases hhead : s.addr = start ∧ 0 < n
    · have hwhole := (hrest hhead.1 hhead.2 (by omega)).1
      simp only [Mapped.cut, unmapped, Mapped.wrote, shrink, PGSIZE] at hal' hwhole ⊢
      split <;> omega
    · simp only [Mapped.cut, unmapped, Mapped.wrote, shrink, PGSIZE] at hal' ⊢
      split <;> omega
  have hsize : s.filesz ≤ f.size := hex.1 ▸ h.size
  have hbase : s.base ≤ (s.cut start n f).addr := by
    simp only [Mapped.cut, unmapped, Mapped.wrote, shrink]
    split <;> omega
  have hat {x : Nat} : x < f.size → (f.bytes x).At s.base x :=
    h.exact_at hex (by omega) fun va hlo hhi => (removed_covers hr hlo hhi).1
  have hfill {va : Nat} (hcov : (s.cut start n f).covers va = true) :
      (s.cut start n f).fill va (va % PGSIZE) =
        if va - (s.cut start n f).addr < s.filesz then f.bytes (va - (s.cut start n f).addr)
          else .zero :=
    fill_eq (s := s.cut start n f) (hplace (covers_iff.1 hcov).1) (covers_iff.1 hcov).2.1 hsize
  refine { h with
    start := hbase
    place := hplace
    edge := fun _ => ?_
    small := hex.1 ▸ h.small
    size := hsize
    reach := ?_
    bytes := fun x => hat
    zero := fun va hcov hpast => ?_
    shown := fun va hcov hpos => ?_ }
  · have hedge := h.edge hused
    simp only [Mapped.cut, unmapped, Mapped.wrote, shrink, PGSIZE] at hedge hal ⊢
    split <;> omega
  · have hreach := h.reach
    have hsame : f.size = s.file.size := hex.1
    simp only [Mapped.cut, unmapped, Mapped.wrote, shrink]
    split <;> omega
  · obtain ⟨hin, hpage⟩ := page_shrunk hal hr hcov
    have hpast : s.filesz ≤ va - s.base := hpast
    by_cases hab : s.page (va / PGSIZE) = .absent
    · refine .inl ((view_absent (hpage.trans hab) rfl).trans ((hfill hcov).trans (if_neg ?_)))
      have hva := (covers_iff.1 hcov).2.1
      have hcut := h.cut_past hrest hcov hin hab
      omega
    · rw [view_keep rfl hpage fun hab' => absurd hab' hab]
      exact h.zero va hin hpast
  · obtain ⟨hin, hpage⟩ := page_shrunk hal hr hcov
    have hpos : va - s.base < s.filesz := hpos
    by_cases hab : s.page (va / PGSIZE) = .absent
    · have hcut := (h.cut_past hrest hcov hin hab).resolve_right (by omega)
      rw [view_absent (hpage.trans hab) rfl, hfill hcov, hcut, if_pos hpos]
      exact hat (Nat.lt_of_lt_of_le hpos hsize)
    · rw [view_keep rfl hpage fun hab' => absurd hab' hab]
      exact h.shown va hin hpos

end

theorem munmap (h : s.Whole) (horder : s.Orderly (.munmap start n))
    (hfire : s.munmap start n = some s') : s'.Whole := by
  obtain rfl | ⟨s₁, hpage, hrem⟩ := munmap_cases hfire
  · exact h
  have h₁ := h.argaddr hpage
  obtain ⟨-, rfl⟩ | ⟨hr, -, f, hf, rfl⟩ := remove_cases hrem
  · exact h₁
  obtain ⟨page, rfl, hother⟩ := argaddr_same hpage
  obtain ⟨hal, hflush⟩ := horder.1 hr _ hpage
  obtain ⟨s₂, hs₂, hex⟩ := (h₁.remove_iff hr (.inl hflush)).2 ⟨hal, hflush⟩
  cases hrem.symm.trans hs₂
  refine h₁.cut (fun haddr hpos hlt => ?_) hr hal hex
  have hrest := horder.2 hr
  obtain ⟨hn, hpages⟩ := hrest haddr hpos hlt
  refine ⟨hn, fun k hk hab => hpages k hk ?_⟩
  exact (hother _ (rest_page_ne hal hn hpos k)).symm.trans hab

theorem finish (h : s.Whole) (hcare : s.Careful .finish) (hfire : s.finish = some s') :
    s'.Whole := by
  obtain ⟨-, rfl⟩ | ⟨hused, -, f, hf, rfl⟩ := finish_cases hfire
  · exact h
  obtain ⟨s₂, hs₂, hex⟩ := (h.finish_iff (.inl hcare)).2 hcare hused
  cases hfire.symm.trans hs₂
  exact { h with
    place := fun hno => nomatch hno
    edge := fun hno => nomatch hno
    small := hex.1 ▸ h.small
    size := hex.1 ▸ h.size
    reach := hex.1 ▸ h.reach
    bytes := fun x => h.exact_at hex h.start fun va hlo hhi => covers_iff.2 ⟨hused, hlo, hhi⟩
    zero := fun va hcov => nomatch (covers_iff.1 hcov).1
    shown := fun va hcov => nomatch (covers_iff.1 hcov).1 }

theorem orderly (h : s.Whole) (horder : s.Orderly e) (hfire : Mapping.fire s e = some s') :
    s'.Whole := by
  cases e with
  | fault va => exact h.fault hfire
  | store va => exact h.store hfire
  | seek off =>
    cases hfire
    exact { h with }
  | evict q => exact h.evict horder.1 hfire
  | munmap start n => exact h.munmap horder hfire
  | finish => exact h.finish horder.1 hfire

end Mapped.Whole

section Run

variable {sz length size off : Nat} {mode : Bool} {e : Event} {es : List Event}

theorem mmap_whole (hsz : sz % PGSIZE = 0) (hsize : size ≤ MAXFILE * BSIZE) :
    (mmap sz length size off mode true true).Whole := by
  have hfilesz : (mmap sz length size off mode true true).filesz = min length size := by
    simp only [mmap]
    split_ifs <;> omega
  have hview {va : Nat} (hva : sz ≤ va) : (mmap sz length size off mode true true).view va =
      if va - sz < min length size then .file (va - sz) else .zero := by
    rw [Mapped.view_absent rfl rfl, Mapped.fill_eq hsz hva (hfilesz ▸ Nat.min_le_right ..), hfilesz]
    rfl
  have hreach : size ≤ min length size ∨ sz + length ≤ sz + min length size := by omega
  exact {
    shared := rfl
    write := rfl
    start := Nat.le_refl _
    aligned := hsz
    place := fun _ => hsz
    edge := fun _ => .inl (Nat.le_refl _)
    small := hsize
    size := hfilesz ▸ Nat.min_le_right ..
    reach := hfilesz ▸ hreach
    bytes := fun _ _ => .inl rfl
    zero := fun va hcov hva => by
      rw [hfilesz] at hva
      exact .inl ((hview (Mapped.covers_iff.1 hcov).2.1).trans (if_neg (Nat.not_lt.2 hva)))
    shown := fun va hcov hva => by
      rw [hfilesz] at hva
      exact .inl ((hview (Mapped.covers_iff.1 hcov).2.1).trans (if_pos hva)) }

/-- In a run that keeps to the condition, the write-back of a step is exact exactly if it meets it.
-/
theorem write_back_exact_iff (hsz : sz % PGSIZE = 0) (hsize : size ≤ MAXFILE * BSIZE)
    (hrun : Along fire Mapped.Orderly (mmap sz length size off mode true true) es)
    (hs : runEvents fire (mmap sz length size off mode true true) es = some s)
    (hroom : s.Room e) : s.WrittenBack e ↔ s.Careful e := by
  have hwhole : s.Whole := (Reaches.run hrun hs).invariant
    (fun s e s' h ho hfire => Mapped.Whole.orderly h ho hfire) (mmap_whole hsz hsize)
  exact hwhole.writtenBack_iff hroom

def tailRun : List Event :=
  [.fault 8192, .fault 12288, .store 12288, .seek 4096, .munmap 12288 100, .seek 0]

/-- A stored byte is written back when the tail is unmapped; then the process exits. -/
theorem write_back_exact_tail :
    ∃ s, runEvents fire (mmap 8192 4196 4196 0 true true true) tailRun = some s ∧
      s.WrittenBack .finish := by
  have hrun : Along fire Mapped.Orderly (mmap 8192 4196 4196 0 true true true) tailRun := by
    intro s₁ h₁
    cases h₁
    refine ⟨⟨trivial, trivial⟩, fun s₂ h₂ => ?_⟩
    cases h₂
    refine ⟨⟨trivial, trivial⟩, fun s₃ h₃ => ?_⟩
    cases h₃
    refine ⟨⟨trivial, trivial⟩, fun s₄ h₄ => ?_⟩
    cases h₄
    refine ⟨⟨trivial, trivial⟩, fun s₅ _ => ⟨⟨fun _ s₆ h₆ => ?_, fun _ haddr => ?_⟩,
      fun _ _ => ⟨⟨trivial, trivial⟩, trivial⟩⟩⟩
    · cases h₆
      refine ⟨rfl, .inr ⟨by simp only [Mapped.Refused]; decide, rfl, by decide,
        fun va hlo hhi => ?_⟩⟩
      rw [show va / PGSIZE = 3 by simp only [PGSIZE]; omega]
      nofun
    · cases haddr
  obtain ⟨s, hs, hbase, haddr, hlen, hoff, hsize, hmode, hpage⟩ := exists_of_any
    (P := fun s => s.base = 8192 ∧ s.addr = 8192 ∧ s.len = 4096 ∧ s.file.off = 0 ∧
      s.file.size = 4196 ∧ s.file.mode = true ∧ (s.page 2).isAbsent = false)
    (show ((runEvents fire (mmap 8192 4196 4196 0 true true true) tailRun).any _) = true by
      decide +kernel)
  have hroom : s.Room .finish := by
    simp only [Mapped.Room, hoff, hlen]
    decide
  refine ⟨s, hs, (write_back_exact_iff rfl (by decide) hrun hs hroom).2 fun _ => .inr ⟨?_, ?_⟩⟩
  · simp only [Mapped.Refused, hoff, hlen, hsize, hmode]
    decide
  · refine ⟨by rw [hoff, haddr, hbase], by
      rw [haddr, hbase, hlen, hsize]; decide, fun va hlo hhi hab => ?_⟩
    rw [show va / PGSIZE = 2 by simp only [PGSIZE]; omega] at hab
    rw [hab] at hpage
    cases hpage

/-- Half of a file has been read: `munmap` writes the stored byte to the second half. -/
theorem written_at_offset :
    ∃ s', runEvents fire (mmap 8192 100 200 100 true true true)
        [.fault 8192, .store 8192, .munmap 8192 100] = some s' ∧
      s'.file.bytes 0 = .file 0 ∧ s'.file.bytes 100 = .stored 8192 := by
  exact exists_of_any (by decide +kernel)

end Run

end OopsOS.Mapping
