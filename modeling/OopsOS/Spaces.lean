import OopsOS.Addresses
import OopsOS.Traces

namespace OopsOS.Spaces
set_option autoImplicit true
open Function

/-- A byte is known by its origin: a file mapped at the address, or a store or copy with this
number. -/
inductive Byte where
  | zero
  | file (va : Nat)
  | stored (k : Nat)
deriving DecidableEq

/-- How a page may be written: not at all, directly, or after it has been copied. -/
inductive Mode where
  | ro
  | rw
  | cow
deriving DecidableEq

/-- An entry of a page table: none, a frame of memory or a slot of the swap area. -/
inductive Entry where
  | absent
  | present (frame : Nat) (mode : Mode)
  | slot (bytes : Nat → Byte) (mode : Mode)

def Entry.isAbsent : Entry → Bool
  | .absent => true
  | _ => false

def Entry.frame? : Entry → Option Nat
  | .present f _ => some f
  | _ => none

/-- The page tables below `n` and the frames, free from `next` on. `file` are absent pages of a
private mapping. -/
structure State where
  n : Nat
  pages : Nat
  table : Nat → Nat → Entry
  file : Nat → Nat → Bool
  writable : Nat → Nat → Bool
  data : Nat → Nat → Byte
  cnt : Nat → Nat
  next : Nat
  stores : Nat

variable (s : State)

def State.setEntry (m q : Nat) (e : Entry) : State :=
  { s with table := update s.table m (update (s.table m) q e) }

def State.place (m q : Nat) (c : Nat → Byte) (mode : Mode) : State :=
  { s.setEntry m q (.present s.next mode) with
    data := update s.data s.next c
    cnt := update s.cnt s.next 1
    next := s.next + 1 }

def State.fill (m q : Nat) (i : Nat) : Byte := if s.file m q then .file (q * PGSIZE + i) else .zero

/-- A page is brought into memory, by `swapin`, `mmap_handler` or the lazy allocation. -/
def State.bring (m q : Nat) : State :=
  match s.table m q with
  | .absent => s.place m q (s.fill m q) (if s.writable m q then .rw else .ro)
  | .slot c mode => s.place m q c mode
  | .present _ _ => s

def State.cowalloc (m q : Nat) : State :=
  match s.table m q with
  | .present f .cow =>
    if s.cnt f = 1 then s.setEntry m q (.present f .rw)
    else { s with cnt := update s.cnt f (s.cnt f - 1) }.place m q (s.data f) .rw
  | _ => s

def State.ready (m q : Nat) : State := (s.bring m q).cowalloc m q

def State.write (f i : Nat) : State :=
  { s with
    data := update s.data f (update (s.data f) i (.stored s.stores))
    stores := s.stores + 1 }

/-- A store of the user, after the page faults that it takes; none if the process is killed. -/
def State.store (m va : Nat) : Option State :=
  match (s.ready m (va / PGSIZE)).table m (va / PGSIZE) with
  | .present f .rw => some ((s.ready m (va / PGSIZE)).write f (va % PGSIZE))
  | _ => none

/-- `copyout` of a byte, which does not look at the write permission of a present page. -/
def State.copyout (m va : Nat) : Option State :=
  match s.table m (va / PGSIZE), s.writable m (va / PGSIZE) with
  | .absent, false => none
  | _, _ =>
    match (s.ready m (va / PGSIZE)).table m (va / PGSIZE) with
    | .present f _ => some ((s.ready m (va / PGSIZE)).write f (va % PGSIZE))
    | _ => none

def State.entries (m f : Nat) : Nat :=
  (List.range s.pages).countP fun q => (s.table m q).frame? = some f

def Mode.protect : Mode → Mode
  | .rw => .cow
  | mode => mode

def Entry.protect : Entry → Entry
  | .present f mode => .present f mode.protect
  | e => e

/-- `fork`: `uvmcopy` marks writable pages in both tables, and copies the slots of swapped pages. -/
def State.fork (p : Nat) : State :=
  { s with
    n := s.n + 1
    table := update
      (update s.table p fun q => (s.table p q).protect) s.n fun q => (s.table p q).protect
    file := update s.file s.n (s.file p)
    writable := update s.writable s.n (s.writable p)
    cnt := fun f => s.cnt f + s.entries p f }

/-- `uvmshare` first brings the pages of the leader that are swapped out back into memory. -/
def State.swapinAll : List Nat → State → State
  | [], s => s
  | q :: qs, s =>
    match s.table 0 q with
    | .slot _ _ => State.swapinAll qs (s.bring 0 q)
    | _ => State.swapinAll qs s

def State.addThread : State :=
  { s with
    n := s.n + 1
    table := update s.table s.n (s.table 0)
    file := update s.file s.n fun _ => false
    writable := update s.writable s.n fun _ => true
    cnt := fun f => s.cnt f + s.entries 0 f }

def State.clone : State := (State.swapinAll (List.range s.pages) s).addThread

def State.view (m va : Nat) : Byte :=
  match s.table m (va / PGSIZE) with
  | .absent => s.fill m (va / PGSIZE) (va % PGSIZE)
  | .present f _ => s.data f (va % PGSIZE)
  | .slot c _ => c (va % PGSIZE)

variable {s s' : State} {m u q f va i : Nat} {c : Nat → Byte} {mode : Mode} {e : Entry}

def State.users (s : State) (f : Nat) : Finset Nat :=
  (Finset.range s.n).filter fun m => ∃ q, q < s.pages ∧ (s.table m q).frame? = some f

/-- Frames are shared at one address, counted for each table, and hold no later store. -/
structure State.Sound (s : State) : Prop where
  apart : ∀ {m m' q q' f}, m < s.n → m' < s.n → (s.table m q).frame? = some f →
    (s.table m' q').frame? = some f → q = q'
  low : ∀ {m q f}, m < s.n → (s.table m q).frame? = some f → q < s.pages ∧ f < s.next
  count : ∀ f, (s.users f).card ≤ s.cnt f
  data : ∀ {f i k}, s.data f i = .stored k → k < s.stores
  slots : ∀ {m q c mode i k}, m < s.n → s.table m q = .slot c mode → c i = .stored k → k < s.stores

theorem State.mem_users (h : s.Sound) :
    m ∈ s.users f ↔ m < s.n ∧ ∃ q, (s.table m q).frame? = some f := by
  rw [State.users, Finset.mem_filter, Finset.mem_range]
  refine and_congr_right fun hm => ⟨fun hq => ?_, fun hq => ?_⟩
  · obtain ⟨q, -, hq⟩ := hq
    exact ⟨q, hq⟩
  · obtain ⟨q, hq⟩ := hq
    exact ⟨q, (h.low hm hq).1, hq⟩

theorem State.setEntry_same : (s.setEntry m q e).table m q = e := by
  simp only [State.setEntry, update_self]

theorem State.setEntry_other (h : ¬ (m' = m ∧ q' = q)) :
    (s.setEntry m q e).table m' q' = s.table m' q' := by
  simp only [State.setEntry]
  by_cases hm : m' = m
  · subst hm
    rw [update_self, update_of_ne fun hq => h ⟨rfl, hq⟩]
  · rw [update_of_ne hm]

theorem State.place_frame (h : ((s.place m q c mode).table m' q').frame? = some f) :
    m' = m ∧ q' = q ∧ f = s.next ∨ ¬ (m' = m ∧ q' = q) ∧ (s.table m' q').frame? = some f := by
  have htable : (s.place m q c mode).table = (s.setEntry m q (.present s.next mode)).table := rfl
  rw [htable] at h
  by_cases hmq : m' = m ∧ q' = q
  · obtain ⟨rfl, rfl⟩ := hmq
    rw [setEntry_same] at h
    exact .inl ⟨rfl, rfl, (Option.some.inj h).symm⟩
  · rw [setEntry_other hmq] at h
    exact .inr ⟨hmq, h⟩

theorem State.Sound.place (cnt : Nat → Nat) (h : s.Sound) (hm : m < s.n) (hq : q < s.pages)
    (hc : ∀ i k, c i = .stored k → k < s.stores)
    (hcnt : ∀ f, ((s.table m q).frame? = some f → ((s.users f).erase m).card ≤ cnt f) ∧
      ((s.table m q).frame? ≠ some f → cnt f = s.cnt f)) :
    ({ s with cnt := cnt }.place m q c mode).Sound := by
  have hold {m' q' f : Nat} (hm' : m' < s.n) (hf : (s.table m' q').frame? = some f) : f < s.next :=
    (h.low hm' hf).2
  constructor
  · intro m₁ m₂ q₁ q₂ f h₁ h₂ hf₁ hf₂
    obtain ⟨-, hq₁, hnext₁⟩ | ⟨-, hg₁⟩ := place_frame hf₁
    · obtain ⟨-, hq₂, -⟩ | ⟨-, hg₂⟩ := place_frame hf₂
      · exact hq₁.trans hq₂.symm
      · exact absurd (hnext₁ ▸ hold h₂ hg₂) (Nat.lt_irrefl _)
    · obtain ⟨-, -, hnext₂⟩ | ⟨-, hg₂⟩ := place_frame hf₂
      · exact absurd (hnext₂ ▸ hold h₁ hg₁) (Nat.lt_irrefl _)
      · exact h.apart h₁ h₂ hg₁ hg₂
  · intro m' q' f hm' hf
    obtain ⟨-, rfl, rfl⟩ | ⟨-, hf⟩ := place_frame hf
    · exact ⟨hq, Nat.lt_succ_self _⟩
    · exact ⟨(h.low hm' hf).1, Nat.lt_succ_of_lt (h.low hm' hf).2⟩
  · intro f
    by_cases hnext : f = s.next
    · subst hnext
      have hsub : ({ s with cnt := cnt }.place m q c mode).users s.next ⊆ {m} := by
        intro u hu
        obtain ⟨hu, q', -, hf⟩ := Finset.mem_filter.1 hu
        obtain ⟨rfl, -, -⟩ | ⟨-, hf⟩ := place_frame hf
        · exact Finset.mem_singleton_self u
        · exact absurd (hold (Finset.mem_range.1 hu) hf) (Nat.lt_irrefl _)
      have hone : ({ s with cnt := cnt }.place m q c mode).cnt s.next = 1 := update_self ..
      rw [hone]
      exact (Finset.card_le_card hsub).trans (Finset.card_singleton m).le
    · have hsame : ({ s with cnt := cnt }.place m q c mode).cnt f = cnt f :=
        update_of_ne hnext ..
      have hsub {u : Nat} (hu : u ∈ ({ s with cnt := cnt }.place m q c mode).users f) :
          u ∈ s.users f ∧ ((s.table m q).frame? = some f → u ≠ m) := by
        obtain ⟨hu, q', -, hf⟩ := Finset.mem_filter.1 hu
        have hu := Finset.mem_range.1 hu
        obtain ⟨-, -, rfl⟩ | ⟨hne, hf⟩ := place_frame hf
        · exact absurd rfl hnext
        · refine ⟨(mem_users h).2 ⟨hu, q', hf⟩, fun hmq heq => hne ⟨heq, ?_⟩⟩
          exact h.apart hu hm hf hmq
      rw [hsame]
      by_cases hmq : (s.table m q).frame? = some f
      · refine (Finset.card_le_card fun u hu => ?_).trans ((hcnt f).1 hmq)
        exact Finset.mem_erase.2 ⟨(hsub hu).2 hmq, (hsub hu).1⟩
      · rw [(hcnt f).2 hmq]
        exact (Finset.card_le_card fun u hu => (hsub hu).1).trans (h.count f)
  · intro f i k hk
    by_cases hnext : f = s.next
    · subst hnext
      have hdata : ({ s with cnt := cnt }.place m q c mode).data s.next = c := update_self ..
      rw [hdata] at hk
      exact hc i k hk
    · have hdata : ({ s with cnt := cnt }.place m q c mode).data f = s.data f :=
        update_of_ne hnext ..
      rw [hdata] at hk
      exact h.data hk
  · intro m' q' c' mode' i k hm' hslot hk
    have htable : ({ s with cnt := cnt }.place m q c mode).table =
        (s.setEntry m q (.present s.next mode)).table := rfl
    rw [htable] at hslot
    by_cases hmq : m' = m ∧ q' = q
    · obtain ⟨rfl, rfl⟩ := hmq
      rw [setEntry_same] at hslot
      cases hslot
    · rw [setEntry_other hmq] at hslot
      exact h.slots hm' hslot hk

theorem State.fill_old : s.fill m q i ≠ .stored k := by
  unfold State.fill
  split <;> nofun

section
variable (h : s.Sound)
include h

theorem State.Sound.sole (hcnt : s.cnt f = 1) (hm : m < s.n) (hu : u < s.n)
    (hmq : (s.table m q).frame? = some f) (huq : (s.table u q').frame? = some f) : m = u :=
  Finset.card_le_one.1 (hcnt ▸ h.count f) m ((mem_users h).2 ⟨hm, q, hmq⟩) u
    ((mem_users h).2 ⟨hu, q', huq⟩)

theorem State.Sound.bring (hm : m < s.n) (hq : q < s.pages) : (s.bring m q).Sound := by
  unfold State.bring
  cases he : s.table m q with
  | absent =>
    refine h.place s.cnt hm hq (fun i k hk => absurd hk fill_old) fun f => ⟨?_, fun _ => rfl⟩
    rw [he]
    nofun
  | slot c mode =>
    refine h.place s.cnt hm hq (fun i k => h.slots hm he) fun f => ⟨?_, fun _ => rfl⟩
    rw [he]
    nofun
  | present f mode => exact h

theorem State.Sound.congr (hsize : s'.n = s.n ∧ s'.pages = s.pages ∧ s'.next = s.next)
    (hframe : ∀ m q, (s'.table m q).frame? = (s.table m q).frame?)
    (hslot : ∀ m q c mode, s'.table m q = .slot c mode → s.table m q = .slot c mode)
    (hcnt : ∀ f, s.cnt f ≤ s'.cnt f) (hstores : s.stores ≤ s'.stores)
    (hdata : ∀ f i k, s'.data f i = .stored k → k < s'.stores) : s'.Sound := by
  obtain ⟨hn, hpages, hnext⟩ := hsize
  have husers (f : Nat) : s'.users f = s.users f := by
    simp only [State.users, hn, hpages, hframe]
  constructor
  · intro m m' q q' f hm hm' hf hf'
    rw [hn] at hm hm'
    rw [hframe] at hf hf'
    exact h.apart hm hm' hf hf'
  · intro m q f hm hf
    rw [hn] at hm
    rw [hframe] at hf
    rw [hpages, hnext]
    exact h.low hm hf
  · intro f
    rw [husers]
    exact (h.count f).trans (hcnt f)
  · exact fun {f i k} => hdata f i k
  · intro m q c mode i k hm hs hk
    rw [hn] at hm
    exact Nat.lt_of_lt_of_le (h.slots hm (hslot _ _ _ _ hs) hk) hstores

theorem State.Sound.setMode (he : s.table m q = .present f mode) (mode' : Mode) :
    (s.setEntry m q (.present f mode')).Sound := by
  refine h.congr ⟨rfl, rfl, rfl⟩ (fun m' q' => ?_) (fun m' q' c mode'' hs => ?_)
    (fun _ => Nat.le_refl _) (Nat.le_refl _) fun f i k hk => h.data hk
  · by_cases hmq : m' = m ∧ q' = q
    · obtain ⟨rfl, rfl⟩ := hmq
      rw [setEntry_same, he]
      rfl
    · rw [setEntry_other hmq]
  · by_cases hmq : m' = m ∧ q' = q
    · obtain ⟨rfl, rfl⟩ := hmq
      rw [setEntry_same] at hs
      cases hs
    · rwa [setEntry_other hmq] at hs

theorem State.Sound.cowalloc (hm : m < s.n) : (s.cowalloc m q).Sound := by
  unfold State.cowalloc
  split
  · next f he =>
    split
    · exact h.setMode he .rw
    · have hq : q < s.pages := (h.low hm (f := f) (by rw [he]; rfl)).1
      have hmem : m ∈ s.users f := (mem_users h).2 ⟨hm, q, by rw [he]; rfl⟩
      refine h.place _ hm hq (fun i k hk => h.data hk) fun f' => ⟨fun hf' => ?_, fun hf' => ?_⟩
      · rw [he] at hf'
        obtain rfl := Option.some.inj hf'
        rw [update_self, Finset.card_erase_of_mem hmem]
        exact Nat.sub_le_sub_right (h.count f) 1
      · refine update_of_ne ?_ ..
        intro heq
        rw [he, heq] at hf'
        exact hf' rfl
  · exact h

theorem State.Sound.write (f i : Nat) : (s.write f i).Sound := by
  refine h.congr ⟨rfl, rfl, rfl⟩ (fun _ _ => rfl) (fun _ _ _ _ hs => hs) (fun _ => Nat.le_refl _)
    (Nat.le_succ _) fun f' i' k hk => ?_
  simp only [State.write] at hk
  by_cases hf : f' = f
  · subst hf
    rw [update_self] at hk
    by_cases hi : i' = i
    · subst hi
      rw [update_self] at hk
      exact Byte.stored.inj hk ▸ Nat.lt_succ_self _
    · rw [update_of_ne hi] at hk
      exact Nat.lt_succ_of_lt (h.data hk)
  · rw [update_of_ne hf] at hk
    exact Nat.lt_succ_of_lt (h.data hk)

theorem State.entries_pos (hm : m < s.n) (hf : (s.table m q).frame? = some f) :
    1 ≤ s.entries m f := by
  refine List.countP_pos_iff.2 ⟨q, List.mem_range.2 (h.low hm hf).1, ?_⟩
  exact decide_eq_true hf

end

theorem State.Sound.add (file writable : Nat → Bool) (h : s.Sound)
    (hp : p < s.n) (hT : ∀ q, (T q).frame? = (s.table p q).frame?)
    (hslot : ∀ q c mode, T q = .slot c mode → s.table p q = .slot c mode) :
    State.Sound { s with
      n := s.n + 1
      table := update s.table s.n T
      file := update s.file s.n file
      writable := update s.writable s.n writable
      cnt := fun f => s.cnt f + s.entries p f } := by
  have hwho {m q f : Nat} (hm : m < s.n + 1)
      (hf : (update s.table s.n T m q).frame? = some f) :
      ∃ m' < s.n, (s.table m' q).frame? = some f ∧ (m = s.n → m' = p) ∧ (m ≠ s.n → m' = m) := by
    by_cases hmn : m = s.n
    · subst hmn
      rw [update_self, hT] at hf
      exact ⟨p, hp, hf, fun _ => rfl, fun hne => absurd rfl hne⟩
    · rw [update_of_ne hmn] at hf
      exact ⟨m, Nat.lt_of_le_of_ne (Nat.le_of_lt_succ hm) hmn, hf, fun heq => absurd heq hmn,
        fun _ => rfl⟩
  constructor
  · intro m₁ m₂ q₁ q₂ f h₁ h₂ hf₁ hf₂
    obtain ⟨m₁', hlt₁, hg₁, -⟩ := hwho h₁ hf₁
    obtain ⟨m₂', hlt₂, hg₂, -⟩ := hwho h₂ hf₂
    exact h.apart hlt₁ hlt₂ hg₁ hg₂
  · intro m q f hm hf
    obtain ⟨m', hlt, hg, -⟩ := hwho hm hf
    exact h.low hlt hg
  · intro f
    have hin {m : Nat} (hm : m < s.n + 1)
        (hf : ∃ q, q < s.pages ∧ (update s.table s.n T m q).frame? = some f) :
        m = s.n ∧ (∃ q, (s.table p q).frame? = some f) ∨ m ∈ s.users f := by
      obtain ⟨q, -, hf⟩ := hf
      obtain ⟨m', hlt, hg, hnew, hold⟩ := hwho hm hf
      by_cases hmn : m = s.n
      · exact .inl ⟨hmn, q, hnew hmn ▸ hg⟩
      · exact .inr (hold hmn ▸ (mem_users h).2 ⟨hlt, q, hg⟩)
    by_cases hpf : ∃ q, (s.table p q).frame? = some f
    · obtain ⟨q, hq⟩ := hpf
      refine (Finset.card_le_card (t := insert s.n (s.users f)) fun m hm => ?_).trans
        ((Finset.card_insert_le _ _).trans (Nat.add_le_add (h.count f) (entries_pos h hp hq)))
      obtain ⟨hm, hf⟩ := Finset.mem_filter.1 hm
      obtain ⟨rfl, -⟩ | hmem := hin (Finset.mem_range.1 hm) hf
      · exact Finset.mem_insert_self ..
      · exact Finset.mem_insert_of_mem hmem
    · refine (Finset.card_le_card fun m hm => ?_).trans ((h.count f).trans (Nat.le_add_right ..))
      obtain ⟨hm, hf⟩ := Finset.mem_filter.1 hm
      obtain ⟨-, hp'⟩ | hmem := hin (Finset.mem_range.1 hm) hf
      · exact absurd hp' hpf
      · exact hmem
  · exact h.data
  · intro m q c mode i k hm hs hk
    by_cases hmn : m = s.n
    · subst hmn
      simp only [update_self] at hs
      exact h.slots hp (hslot q c mode hs) hk
    · simp only [update_of_ne hmn] at hs
      exact h.slots (Nat.lt_of_le_of_ne (Nat.le_of_lt_succ hm) hmn) hs hk

theorem Entry.protect_frame? (e : Entry) : e.protect.frame? = e.frame? := by
  cases e <;> rfl

theorem Entry.protect_slot (h : e.protect = .slot c mode) : e = .slot c mode := by
  cases e with
  | absent => cases h
  | present f mode' => cases h
  | slot c' mode' => exact h

theorem State.bring_size (m q : Nat) : (s.bring m q).n = s.n ∧ (s.bring m q).pages = s.pages := by
  unfold State.bring
  split <;> exact ⟨rfl, rfl⟩

theorem State.cowalloc_size (m q : Nat) :
    (s.cowalloc m q).n = s.n ∧ (s.cowalloc m q).pages = s.pages := by
  unfold State.cowalloc
  split
  · split <;> exact ⟨rfl, rfl⟩
  · exact ⟨rfl, rfl⟩

theorem State.ready_size (m q : Nat) : (s.ready m q).n = s.n ∧ (s.ready m q).pages = s.pages := by
  obtain ⟨hn, hpages⟩ := (s.bring m q).cowalloc_size m q
  exact ⟨hn.trans (s.bring_size m q).1, hpages.trans (s.bring_size m q).2⟩

theorem State.view_write (f i u va : Nat) : (s.write f i).view u va =
    if (s.table u (va / PGSIZE)).frame? = some f ∧ va % PGSIZE = i then .stored s.stores
    else s.view u va := by
  unfold State.view
  have htable : (s.write f i).table = s.table := rfl
  rw [htable]
  cases he : s.table u (va / PGSIZE) with
  | absent => exact (if_neg fun hf => nomatch hf.1).symm
  | slot c mode => exact (if_neg fun hf => nomatch hf.1).symm
  | present f' mode =>
    simp only [State.write, Entry.frame?, Option.some.injEq]
    by_cases hf : f' = f
    · subst hf
      rw [update_self]
      by_cases hi : va % PGSIZE = i
      · rw [if_pos ⟨rfl, hi⟩, hi, update_self]
      · rw [if_neg fun hand => hi hand.2, update_of_ne hi]
    · rw [if_neg fun hand => hf hand.1, update_of_ne hf]

theorem State.bring_other (hne : ¬ (u = m ∧ q' = q)) :
    (s.bring m q).table u q' = s.table u q' := by
  unfold State.bring
  split
  · exact setEntry_other hne
  · exact setEntry_other hne
  · rfl

theorem State.cowalloc_other (hne : ¬ (u = m ∧ q' = q)) :
    (s.cowalloc m q).table u q' = s.table u q' := by
  unfold State.cowalloc
  split
  · split
    · exact setEntry_other hne
    · exact setEntry_other hne
  · rfl

theorem State.ready_other (hne : ¬ (u = m ∧ q' = q)) :
    (s.ready m q).table u q' = s.table u q' := by
  rw [State.ready, cowalloc_other hne, bring_other hne]

theorem State.ready_same (he : s.table m q = .present f mode) (hmode : mode ≠ .cow) :
    s.ready m q = s := by
  have hbring : s.bring m q = s := by
    rw [State.bring, he]
  rw [State.ready, hbring, State.cowalloc, he]
  cases mode with
  | cow => exact absurd rfl hmode
  | ro => rfl
  | rw => rfl

theorem State.place_same : (s.place m q c mode).table m q = .present s.next mode :=
  setEntry_same (s := s)

theorem State.ready_frame (hf : (s.ready m q).table m q = .present f mode) :
    s.next ≤ f ∨ ∃ mode', s.table m q = .present f mode' ∧ (mode' = .cow → s.cnt f = 1) := by
  have hnew {c : Nat → Byte} {mode' : Mode}
      (hf : ((s.place m q c mode').cowalloc m q).table m q = .present f mode) : s.next ≤ f := by
    unfold State.cowalloc at hf
    rw [place_same] at hf
    cases mode' with
    | cow =>
      have hone : (s.place m q c .cow).cnt s.next = 1 := update_self ..
      simp only [hone, if_true, setEntry_same, Entry.present.injEq] at hf
      exact hf.1.le
    | ro =>
      simp only [place_same, Entry.present.injEq] at hf
      exact hf.1.le
    | rw =>
      simp only [place_same, Entry.present.injEq] at hf
      exact hf.1.le
  unfold State.ready State.bring at hf
  cases he : s.table m q with
  | absent =>
    rw [he] at hf
    exact .inl (hnew hf)
  | slot c' mode' =>
    rw [he] at hf
    exact .inl (hnew hf)
  | present f' mode' =>
    simp only [he] at hf
    unfold State.cowalloc at hf
    simp only [he] at hf
    cases mode' with
    | cow =>
      simp only at hf
      split at hf
      · next hone =>
        rw [setEntry_same] at hf
        obtain ⟨rfl, -⟩ := Entry.present.inj hf
        exact .inr ⟨.cow, rfl, fun _ => hone⟩
      · have hf := place_same.symm.trans hf
        obtain ⟨hnext, -⟩ := Entry.present.inj hf
        exact .inl hnext.le
    | ro =>
      simp only [he, Entry.present.injEq] at hf
      exact .inr ⟨.ro, hf.1 ▸ rfl, nofun⟩
    | rw =>
      simp only [he, Entry.present.injEq] at hf
      exact .inr ⟨.rw, hf.1 ▸ rfl, nofun⟩

theorem State.ready_stores (m q : Nat) : (s.ready m q).stores = s.stores := by
  have hbring : (s.bring m q).stores = s.stores := by
    unfold State.bring
    split <;> rfl
  rw [State.ready, ← hbring, State.cowalloc]
  split
  · split <;> rfl
  · rfl

structure State.Fetched (s s' : State) : Prop where
  sound : s'.Sound
  n : s'.n = s.n
  pages : s'.pages = s.pages
  file : s'.file = s.file
  view : ∀ u va, u < s.n → s'.view u va = s.view u va
  absent : ∀ u q, (s'.table u q).isAbsent = (s.table u q).isAbsent

theorem State.Fetched.trans (h : s.Fetched s') (h' : s'.Fetched s'') : s.Fetched s'' :=
  ⟨h'.sound, h'.n.trans h.n, h'.pages.trans h.pages, h'.file.trans h.file,
    fun u va hu => (h'.view u va (h.n.symm ▸ hu)).trans (h.view u va hu),
    fun u q => (h'.absent u q).trans (h.absent u q)⟩

section
variable (h : s.Sound)
include h

theorem State.Sound.fork (hp : p < s.n) : (s.fork p).Sound := by
  have hown : State.Sound
      { s with table := update s.table p fun q => (s.table p q).protect } := by
    refine h.congr ⟨rfl, rfl, rfl⟩ (fun m q => ?_) (fun m q c mode hs => ?_)
      (fun _ => Nat.le_refl _) (Nat.le_refl _) fun f i k hk => h.data hk
    · by_cases hm : m = p
      · subst hm
        simp only [update_self, Entry.protect_frame?]
      · simp only [update_of_ne hm]
    · by_cases hm : m = p
      · subst hm
        simp only [update_self] at hs
        exact Entry.protect_slot hs
      · simpa only [update_of_ne hm] using hs
  have hadd := hown.add (T := fun q => (s.table p q).protect) (s.file p) (s.writable p) hp
    (fun q => by simp only [update_self])
    fun q c mode hs => by simpa only [update_self] using hs
  have hentries (f : Nat) : State.entries
      { s with table := update s.table p fun q => (s.table p q).protect } p f = s.entries p f := by
    simp only [State.entries, update_self, Entry.protect_frame?]
  simp only [hentries] at hadd
  exact hadd

theorem State.view_place (cnt : Nat → Nat) (hm : m < s.n) (hu : u < s.n)
    (hc : ∀ va, va / PGSIZE = q → c (va % PGSIZE) = s.view m va) :
    ({ s with cnt := cnt }.place m q c mode).view u va = s.view u va := by
  by_cases hmq : u = m ∧ va / PGSIZE = q
  · obtain ⟨rfl, hq⟩ := hmq
    have htable : ({ s with cnt := cnt }.place u q c mode).table u
      (va / PGSIZE) = .present s.next mode := by
      rw [hq]
      exact setEntry_same
    have hdata : ({ s with cnt := cnt }.place u q c mode).data s.next = c := update_self ..
    rw [State.view, htable]
    simp only [hdata]
    exact hc va hq
  · have htable : ({ s with cnt := cnt }.place m q c mode).table u (va / PGSIZE) =
        s.table u (va / PGSIZE) := setEntry_other hmq
    unfold State.view
    rw [htable]
    cases he : s.table u (va / PGSIZE) with
    | absent => rfl
    | slot c' mode' => rfl
    | present f mode' =>
      have hlt := (h.low hu (f := f) (by rw [he]; rfl)).2
      have hdata : ({ s with cnt := cnt }.place m q c mode).data f = s.data f :=
        update_of_ne (Nat.ne_of_lt hlt) ..
      simp only [hdata]

theorem State.Fetched.refl : s.Fetched s :=
  ⟨h, rfl, rfl, rfl, fun _ _ _ => rfl, fun _ _ => rfl⟩

section
variable (hm : m < s.n)
include hm

theorem State.view_bring (hu : u < s.n) : (s.bring m q).view u va = s.view u va := by
  unfold State.bring
  cases he : s.table m q with
  | absent =>
    refine view_place h s.cnt hm hu fun va hq => ?_
    rw [State.view, hq, he]
  | slot c mode =>
    refine view_place h s.cnt hm hu fun va hq => ?_
    rw [State.view, hq, he]
  | present f mode => rfl

theorem State.view_cowalloc (hu : u < s.n) : (s.cowalloc m q).view u va = s.view u va := by
  unfold State.cowalloc
  split
  · next f he =>
    split
    · unfold State.view
      by_cases hmq : u = m ∧ va / PGSIZE = q
      · obtain ⟨rfl, rfl⟩ := hmq
        rw [setEntry_same, he]
        rfl
      · rw [setEntry_other hmq]
        rfl
    · refine view_place h _ hm hu fun va hq => ?_
      rw [State.view, hq, he]
  · rfl

theorem State.Sound.ready (hq : q < s.pages) : (s.ready m q).Sound :=
  (h.bring hm hq).cowalloc ((s.bring_size m q).1 ▸ hm)

theorem State.view_ready (hq : q < s.pages) (hu : u < s.n) :
    (s.ready m q).view u va = s.view u va := by
  have hn := (s.bring_size m q).1
  rw [State.ready, view_cowalloc (h.bring hm hq) (hn ▸ hm) (hn ▸ hu), view_bring h hm hu]

theorem State.Sound.ready_private (hu : u < s.n) (hne : u ≠ m)
    (hnot : ∀ f mode, s.table m q = .present f mode → mode = .cow)
    (hf : (s.ready m q).table m q = .present f mode) :
    ((s.ready m q).table u q').frame? ≠ some f := by
  intro huf
  rw [ready_other fun hand => hne hand.1] at huf
  obtain hnext | ⟨mode', he, hone⟩ := ready_frame hf
  · exact absurd (h.low hu huf).2 (Nat.not_lt.2 hnext)
  · exact hne (h.sole (hone (hnot f mode' he)) hu hm huf (by rw [he]; rfl))

theorem State.view_old (hv : s.view m va = .stored k) : k < s.stores := by
  unfold State.view at hv
  split at hv
  · exact absurd hv fill_old
  · exact h.data hv
  · next hslot => exact h.slots hm hslot hv

theorem State.Sound.fetch (hq : q < s.pages)
    (he : s.table m q = .slot c mode) : s.Fetched (s.bring m q) := by
  refine ⟨h.bring hm hq, (s.bring_size m q).1, (s.bring_size m q).2, ?_,
    fun u va hu => view_bring h hm hu, fun u q' => ?_⟩
  · rw [State.bring, he]
    rfl
  · by_cases hmq : u = m ∧ q' = q
    · obtain ⟨rfl, rfl⟩ := hmq
      rw [State.bring, he]
      simp only [place_same]
      rfl
    · rw [bring_other hmq]

end

theorem State.Sound.swapinAll (hn : 0 < s.n) (hqs : ∀ q ∈ qs, q < s.pages) :
    s.Fetched (State.swapinAll qs s) := by
  induction qs generalizing s with
  | nil => exact .refl h
  | cons q qs ih =>
    unfold State.swapinAll
    have hrest : ∀ q ∈ qs, q < s.pages := fun q' hq' => hqs q' (List.mem_cons_of_mem q hq')
    split
    · next he =>
      have hq := h.fetch hn (hqs q List.mem_cons_self) he
      exact hq.trans (ih hq.sound (hq.n ▸ hn) (hq.pages ▸ hrest))
    · exact ih h hn hrest

end

def onePage (file writable : Bool) : State where
  n := 1
  pages := 1
  table := fun _ _ => .absent
  file := fun _ _ => file
  writable := fun _ _ => writable
  data := fun _ _ => .zero
  cnt := fun _ => 0
  next := 0
  stores := 0

theorem onePage_sound (file writable : Bool) : (onePage file writable).Sound := by
  refine ⟨nofun, nofun, fun f => ?_, nofun, nofun⟩
  have hempty : (onePage file writable).users f = ∅ :=
    Finset.filter_eq_empty_iff.2 fun m _ hq => nomatch hq.choose_spec.2
  rw [hempty]
  exact Nat.zero_le _

end OopsOS.Spaces
