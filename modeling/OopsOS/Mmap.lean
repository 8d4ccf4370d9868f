import OopsOS.Addresses
import OopsOS.Traces

namespace OopsOS.Mmap
set_option autoImplicit true
open Function

/-- An area; `id` is the number of the mapping that it belongs to. -/
structure Vma where
  used : Bool
  addr : Nat
  len : Nat
  id : Nat
deriving DecidableEq

inductive Origin where
  | heap
  | mapping (id : Nat)
deriving DecidableEq

/-- The memory of a process: its size, areas and valid pages. `next` is the number of the next
mapping. -/
structure MapState where
  sz : Nat
  vma : Fin NVMA → Vma
  page : Nat → Option Origin
  next : Nat
  panicked : Bool

def MapState.setVma (s : MapState) (i : Fin NVMA) (v : Vma) : MapState :=
  { s with vma := update s.vma i v }

/-- `uvmunmap`, which panics at an address that is not aligned or not below `MAXVA`. -/
def MapState.uvmunmap (s : MapState) (va npages : Nat) : MapState :=
  if va % PGSIZE ≠ 0 ∨ 0 < npages ∧ MAXVA < va + npages * PGSIZE then { s with panicked := true }
  else
    { s with
      page := fun q => if va / PGSIZE ≤ q ∧ q < va / PGSIZE + npages then none else s.page q }

/-- `sys_mmap`, whose checks of the file do not matter here. -/
def MapState.mmap (s : MapState) (length : Nat) : MapState :=
  if MAXVA < u64 (s.sz + length) then s
  else
    match (List.finRange NVMA).find? fun i => (s.vma i).used = false with
    | none => s
    | some i =>
      { s.setVma i ⟨true, s.sz, length, s.next⟩ with sz := u64 (s.sz + length), next := s.next + 1 }

def Vma.matches (v : Vma) (addr length : Nat) : Bool :=
  v.used && length ≤ v.len && (v.addr = addr || u64 (addr + length) = u64 (v.addr + v.len))

def Vma.shrink (v : Vma) (addr length : Nat) : Vma :=
  if v.addr = addr then { v with addr := u64 (v.addr + length), len := v.len - length }
  else { v with len := v.len - length }

def MapState.findVma (s : MapState) (addr length : Nat) : Option (Fin NVMA) :=
  (List.finRange NVMA).find? fun i => (s.vma i).matches addr length

/-- What `sys_munmap` does with its arguments; the write-back is not in this model. -/
def MapState.munmap (s : MapState) (addr length : Nat) : MapState :=
  match s.findVma addr length with
  | none => s
  | some i =>
    let v := (s.vma i).shrink addr length
    let s' := (s.setVma i v).uvmunmap addr (length / PGSIZE)
    if v.len = 0 then s'.setVma i { v with used := false } else s'

def MapState.uvmdealloc (s : MapState) (newsz : Nat) : MapState :=
  if s.sz ≤ newsz then s
  else if pgRoundUp newsz < pgRoundUp s.sz then
    { s.uvmunmap (pgRoundUp newsz) ((pgRoundUp s.sz - pgRoundUp newsz) / PGSIZE) with sz := newsz }
  else { s with sz := newsz }

def MapState.sbrk (s : MapState) (n : Int) : MapState :=
  let sz := ((s.sz + n) % 2 ^ 64).toNat
  if 0 < n then { s with sz := sz }
  else if 0 < sz then s.uvmdealloc sz
  else s

def MapState.lookup (s : MapState) (va : Nat) : Option (Fin NVMA) :=
  (List.finRange NVMA).find? fun i =>
    (s.vma i).used && (s.vma i).addr ≤ va && va ≤ u64
    ((s.vma i).addr + (s.vma i).len + (2 ^ 64 - 1))

/-- `mappages` of a new page, whose `walk` panics at an address not below `MAXVA`. -/
def MapState.fill (s : MapState) (va : Nat) (o : Origin) : MapState :=
  if va < MAXVA then { s with page := update s.page (va / PGSIZE) (some o) }
  else { s with panicked := true }

/-- A fault at a page that is not valid; `ok`: the access is allowed and there is memory. -/
def MapState.fault (s : MapState) (va : Nat) (ok : Bool) : MapState :=
  if ok then
    match s.lookup va with
    | some i => s.fill va (.mapping (s.vma i).id)
    | none => if va < s.sz then s.fill va .heap else s
  else s

/-- `argaddr` finds no page for the address, and `mmap_handler` or the heap has one. -/
def MapState.Absent (s : MapState) (addr : Nat) : Prop :=
  addr ≠ 0 ∧ (addr < MAXVA → s.page (addr / PGSIZE) = none) ∧
    ((s.lookup addr).isSome = true ∨ addr < s.sz)

instance {s : MapState} {addr : Nat} : Decidable (s.Absent addr) :=
  inferInstanceAs (Decidable (_ ∧ _ ∧ _))

/-- `argaddr`, which brings in the page of the address, or fails. -/
def MapState.argaddr (s : MapState) (addr : Nat) (ok : Bool) : Option MapState :=
  if s.Absent addr then
    if ok then some (s.fault addr true) else none
  else if addr = 0 ∨ addr < MAXVA ∧ (s.page (addr / PGSIZE)).isSome = true then some s
  else none

/-- `sys_munmap`: the address is fetched by `argaddr`. -/
def MapState.sysMunmap (s : MapState) (addr length : Nat) (ok : Bool) : MapState :=
  match s.argaddr addr ok with
  | none => s
  | some t => t.munmap addr length

inductive Event where
  | mmap (length : Nat)
  | munmap (addr length : Nat) (ok : Bool)
  | sbrk (n : Int)
  | fault (va : Nat) (ok : Bool)

/-- One call of the process, with arguments of the types that they have, or a page fault. -/
def fire (s : MapState) (e : Event) : Option MapState :=
  if s.panicked then none
  else
    match e with
    | .mmap length => if length < 2 ^ 31 then some (s.mmap length) else none
    | .munmap addr length ok =>
      if addr < 2 ^ 64 ∧ length < 2 ^ 31 then some (s.sysMunmap addr length ok) else none
    | .sbrk n => if -2 ^ 31 ≤ n ∧ n < 2 ^ 31 then some (s.sbrk n) else none
    | .fault va ok => if va < MAXVA ∧ s.page (va / PGSIZE) = none then some (s.fault va ok)
      else none

end OopsOS.Mmap
