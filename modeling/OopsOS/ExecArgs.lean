import Mathlib

namespace OopsOS.Args
set_option autoImplicit true

def MAXARG : Nat := 32
def PHYSTOP : Nat := 0x88000000

/-- The test of `kfree`: an address that fails it ends in `panic`. -/
def IsPage (kend pa : Nat) : Prop := pa % 4096 = 0 ∧ kend ≤ pa ∧ pa < PHYSTOP

instance : Decidable (IsPage kend pa) := inferInstanceAs (Decidable (_ ∧ _))

/-- What one call meets: the page `kalloc i` for `argv[i]` or 0; `fetchaddr` goes by the user's own
index. -/
structure Env where
  kend : Nat
  path : Nat
  argsOk : Bool
  fetchaddr : Nat → Option Nat
  kalloc : Nat → Nat
  fetchstr : Nat → Bool
  exec : Int
  image : 0 < kend
  /-- `path` is on the kernel stack, which is mapped below the trampoline. -/
  stack : PHYSTOP ≤ path
  pages : ∀ i, kalloc i = 0 ∨ IsPage kend (kalloc i)

structure Frame where
  argv : List Nat
  got : List Nat

structure Outcome where
  got : List Nat
  freed : List Nat
  /-- `none` after the panic of `kfree`. -/
  ret : Option Int
deriving DecidableEq

/-- The loop over the user's vector with `n` entries of `argv` left; false is `goto bad`. -/
def fetch (e : Env) (first : Nat) : Nat → Frame → Bool × Frame
  | 0, f => (false, f)
  | n + 1, f =>
    let i := MAXARG - (n + 1)
    match e.fetchaddr (i - first) with
    | none => (false, f)
    | some 0 => (true, { f with argv := f.argv.set i 0 })
    | some (_ + 1) =>
      if e.kalloc i = 0 then (false, { f with argv := f.argv.set i 0 })
      else
        let f := { argv := f.argv.set i (e.kalloc i), got := f.got ++ [e.kalloc i] }
        if e.fetchstr i then fetch e first n f else (false, f)

/-- The loop that releases `argv` up to its first 0: the calls of `kfree`, and
whether all returned. -/
def kfreeAll (kend : Nat) : List Nat → List Nat × Bool
  | [] => ([], true)
  | pa :: l =>
    if pa = 0 then ([], true)
    else if IsPage kend pa then ((kfreeAll kend l).map (pa :: ·) id) else ([pa], false)

def finish (e : Env) (ok : Bool) (f : Frame) (start : Nat) : Outcome :=
  let r := kfreeAll e.kend (f.argv.drop start)
  { got := f.got, freed := r.1, ret := if r.2 then some (if ok then e.exec else -1) else none }

def sysExec (e : Env) : Outcome :=
  if e.argsOk then
    let r := fetch e 0 MAXARG ⟨List.replicate MAXARG 0, []⟩
    finish e r.1 r.2 0
  else ⟨[], [], some (-1)⟩

def execveFetch (e : Env) : Bool × Frame :=
  fetch e 1 (MAXARG - 1) ⟨(List.replicate MAXARG 0).set 0 e.path, []⟩

def sysExecve (e : Env) : Outcome :=
  if e.argsOk then
    let r := execveFetch e
    finish e r.1 r.2 (if r.1 then 1 else 0)
  else ⟨[], [], some (-1)⟩

/-- `argv` is what was there at first, then the pages, then zeros. -/
structure Filled (e : Env) (pre : List Nat) (f : Frame) (k : Nat) : Prop where
  argv : f.argv = pre ++ f.got ++ List.replicate k 0
  size : pre.length + f.got.length + k = MAXARG
  pages : ∀ a ∈ f.got, IsPage e.kend a

theorem Filled.set_next (h : Filled e pre f (k + 1)) (a : Nat) :
    f.argv.set (MAXARG - (k + 1)) a = pre ++ f.got ++ a :: List.replicate k 0 := by
  have hi : MAXARG - (k + 1) = (pre ++ f.got).length := by
    have := h.size
    simp only [List.length_append]
    omega
  rw [h.argv, hi, List.set_append_right _ _ le_rfl, Nat.sub_self, List.replicate_succ,
    List.set_cons_zero]

theorem Filled.fetch (h : Filled e pre f n) (first : Nat) :
    ∃ k, Filled e pre (fetch e first n f).2 k := by
  induction n generalizing f with
  | zero => exact ⟨0, h⟩
  | succ n ih =>
    have hzero : Filled e pre { f with argv := f.argv.set (MAXARG - (n + 1)) 0 } (n + 1) :=
      ⟨h.set_next 0, h.size, h.pages⟩
    simp only [Args.fetch]
    split
    · exact ⟨n + 1, h⟩
    · exact ⟨n + 1, hzero⟩
    · split_ifs with hk hs
      · exact ⟨n + 1, hzero⟩
      all_goals
        set a := e.kalloc (MAXARG - (n + 1)) with ha
        have hnext : Filled e pre ⟨f.argv.set (MAXARG - (n + 1)) a, f.got ++ [a]⟩ n := by
          refine ⟨by simp [h.set_next], by have := h.size; simp; omega, ?_⟩
          intro b hb
          rcases List.mem_append.mp hb with hb | hb
          · exact h.pages b hb
          · rw [List.mem_singleton.mp hb]
            exact (e.pages _).resolve_left hk
      · exact ih hnext
      · exact ⟨n, hnext⟩

theorem kfreeAll_pages (hend : 0 < kend) (hl : ∀ a ∈ l, IsPage kend a) (k : Nat) :
    kfreeAll kend (l ++ List.replicate k 0) = (l, true) := by
  induction l with
  | nil => cases k <;> simp [kfreeAll, List.replicate_succ]
  | cons a l ih =>
    have ha := hl a List.mem_cons_self
    have hne : a ≠ 0 := by
      have := ha.2.1
      omega
    simp [kfreeAll, hne, ha, ih fun b hb => hl b (List.mem_cons_of_mem _ hb)]

theorem Filled.finish (h : Filled e pre f k) (ok : Bool) :
    finish e ok f pre.length = ⟨f.got, f.got, some (if ok then e.exec else -1)⟩ := by
  simp [Args.finish, h.argv, List.append_assoc, kfreeAll_pages e.image h.pages]

theorem sysExec_returns (e : Env) : ∃ got r, sysExec e = ⟨got, got, some r⟩ := by
  have hstart : Filled e [] ⟨List.replicate MAXARG 0, []⟩ MAXARG := ⟨rfl, rfl, by simp⟩
  obtain ⟨k, hk⟩ := hstart.fetch 0
  unfold sysExec
  split_ifs
  · exact ⟨_, _, hk.finish _⟩
  · exact ⟨[], -1, rfl⟩

theorem filled_execve (e : Env) : ∃ k, Filled e [e.path] (execveFetch e).2 k :=
  Filled.fetch ⟨rfl, rfl, by simp⟩ 1

theorem path_not_page (e : Env) : e.path ≠ 0 ∧ ¬ IsPage e.kend e.path := by
  have hstack := e.stack
  refine ⟨?_, fun h => absurd h.2.2 (by omega)⟩
  unfold PHYSTOP at hstack
  omega

theorem finish_execve_bad (e : Env) :
    finish e false (execveFetch e).2 0 = ⟨(execveFetch e).2.got, [e.path], none⟩ := by
  obtain ⟨k, hk⟩ := filled_execve e
  simp [Args.finish, hk.argv, kfreeAll, path_not_page]

/-- The argument with the index `i` of the user's vector is fetched. -/
def Env.Takes (e : Env) (i : Nat) : Prop :=
  (∃ u, e.fetchaddr i = some (u + 1)) ∧ e.kalloc (i + 1) ≠ 0 ∧ e.fetchstr (i + 1) = true

/-- The user's vector ends after fetched arguments that leave room for the last 0. -/
def Env.Ends (e : Env) : Prop :=
  ∃ n ≤ MAXARG - 2, e.fetchaddr n = some 0 ∧ ∀ i < n, e.Takes i

theorem fetch_true_iff (hn : n < MAXARG) : (fetch e 1 n f).1 = true ↔
    ∃ k < n, e.fetchaddr (MAXARG - n - 1 + k) = some 0 ∧ ∀ i < k, e.Takes (MAXARG - n - 1 + i) := by
  induction n generalizing f with
  | zero => simp [fetch]
  | succ n ih =>
    obtain ⟨a, ha⟩ : ∃ a, MAXARG = n + 1 + (a + 1) := Nat.exists_eq_add_of_lt hn
    have hi : MAXARG - (n + 1) = a + 1 := by omega
    have hrest : MAXARG - n - 1 = a + 1 := by omega
    simp only [hrest, Nat.add_right_comm a 1] at ih
    -- The vector ends here, or this argument is taken and the vector ends later.
    have hsplit : (∃ k < n + 1, e.fetchaddr (a + k) = some 0 ∧ ∀ i < k, e.Takes (a + i)) ↔
        e.fetchaddr a = some 0 ∨ e.Takes a ∧
          ∃ k < n, e.fetchaddr (a + k + 1) = some 0 ∧ ∀ i < k, e.Takes (a + i + 1) := by
      constructor
      · rintro ⟨_ | k, hk, hend, hall⟩
        · exact .inl hend
        · exact .inr ⟨hall 0 k.succ_pos, k, Nat.lt_of_succ_lt_succ hk, hend,
            fun i hi => hall (i + 1) (Nat.succ_lt_succ hi)⟩
      · rintro (hend | ⟨hfirst, k, hk, hend, hall⟩)
        · exact ⟨0, n.succ_pos, hend, fun i hi => absurd hi i.not_lt_zero⟩
        · refine ⟨k + 1, Nat.succ_lt_succ hk, hend, fun i hi => ?_⟩
          cases i with
          | zero => exact hfirst
          | succ i => exact hall i (Nat.lt_of_succ_lt_succ hi)
    have htakes : e.Takes a ↔ (∃ u, e.fetchaddr a = some (u + 1)) ∧ e.kalloc (a + 1) ≠ 0 ∧
        e.fetchstr (a + 1) = true := Iff.rfl
    simp only [fetch, hi, Nat.add_sub_cancel]
    rw [hsplit, htakes]
    cases hfetch : e.fetchaddr a with
    | none => simp
    | some u =>
      cases u with
      | zero => simp
      | succ u =>
        by_cases hk : e.kalloc (a + 1) = 0
        · simp [hk]
        · cases hs : e.fetchstr (a + 1) with
          | false => simp [hk]
          | true => simp [hk, ih (Nat.lt_of_succ_lt hn)]

theorem execveFetch_iff (e : Env) : (execveFetch e).1 = true ↔ e.Ends := by
  refine (fetch_true_iff (by decide)).trans ?_
  simp only [MAXARG, Nat.reduceSub, Nat.zero_add, Nat.lt_succ_iff, Env.Ends]

/-- `sys_exec` frees the pages it got, each once, on every path; `sys_execve` exactly if it does not
reach `bad`. -/
theorem argument_pages_freed_iff (e : Env) :
    (sysExec e).freed = (sysExec e).got ∧
      ((sysExecve e).freed = (sysExecve e).got ↔ (e.argsOk = true → e.Ends)) := by
  rw [← execveFetch_iff]
  constructor
  · obtain ⟨got, r, h⟩ := sysExec_returns e
    rw [h]
  obtain ⟨k, hk⟩ := filled_execve e
  unfold sysExecve
  cases hargs : e.argsOk with
  | false => simp
  | true =>
    cases hok : (execveFetch e).1 with
    | true =>
      have := hk.finish true
      simp_all
    | false =>
      have hne : [e.path] ≠ (execveFetch e).2.got := by
        intro h
        exact (path_not_page e).2 (hk.pages _ (h ▸ List.mem_singleton_self _))
      simp [hok, finish_execve_bad, hne]

/-- The user's vector cannot be read: `kfree` of the buffer of the path panics. -/
theorem sysExecve_frees_path :
    let e : Env :=
      { kend := 0x80030000, path := 0x3fffffd000, argsOk := true, fetchaddr := fun _ => none
        kalloc := fun _ => 0, fetchstr := fun _ => true, exec := 0, image := by decide
        stack := by decide, pages := fun _ => .inl rfl }
    sysExecve e = ⟨[], [e.path], none⟩ := by
  decide

end OopsOS.Args
