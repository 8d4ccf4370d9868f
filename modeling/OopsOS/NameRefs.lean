import OopsOS.NameCalls

namespace OopsOS.Ns
set_option autoImplicit true
open Function

variable {s s₀ s' : NsState} {E : Stop → Prop} {H L : List Nat} {i : Nat}

@[simp] theorem setRef_ref : (s.setRef i n).ref = update s.ref i n := rfl
@[simp] theorem setRef_node : (s.setRef i n).node = s.node := rfl
@[simp] theorem setRef_locked : (s.setRef i n).locked = s.locked := rfl
@[simp] theorem setValid_ref : (s.setValid i b).ref = s.ref := rfl
@[simp] theorem setValid_node : (s.setValid i b).node = s.node := rfl
@[simp] theorem setValid_valid : (s.setValid i b).valid = update s.valid i b := rfl
@[simp] theorem setValid_locked : (s.setValid i b).locked = s.locked := rfl
@[simp] theorem setLocked_node : (s.setLocked i b).node = s.node := rfl
@[simp] theorem setNode_node : (s.setNode i n).node = update s.node i n := rfl
@[simp] theorem setNode_locked : (s.setNode i n).locked = s.locked := rfl

/-- An allocated inode without links is in use and loaded; a loaded inode is allocated. -/
structure Tidy (s : NsState) : Prop where
  orphan : ∀ i, (s.node i).nlink = 0 → (s.node i).type = .free ∨ 0 < s.ref i ∧ s.valid i = true
  loaded : ∀ i, 0 < s.ref i → s.valid i = true → (s.node i).type ≠ .free

/-- Since `s₀` a call has taken the references `H` and holds the locks `L`; types in use have not
changed. -/
structure Acct (s₀ : NsState) (H L : List Nat) (s : NsState) : Prop extends Tidy s where
  ref : ∀ i, s.ref i = s₀.ref i + H.count i
  lock : ∀ i, (s.locked i).toNat = L.count i
  owned : ∀ i ∈ L, i ∈ H ∧ s.valid i = true
  type : ∀ i, 0 < s₀.ref i → (s₀.node i).type ≠ .free → (s.node i).type = (s₀.node i).type
  files : s.files = s₀.files
  ofile : s.ofile = s₀.ofile
  cwd : s.cwd = s₀.cwd

theorem Acct.refl (ht : Tidy s) (hl : ∀ i, s.locked i = false) : Acct s [] [] s where
  toTidy := ht
  ref _ := rfl
  lock i := by rw [hl i]; rfl
  owned i hi := by cases hi
  type _ _ _ := rfl
  files := rfl
  ofile := rfl
  cwd := rfl

theorem Acct.perm (h : Acct s₀ H L s) (hH : H.Perm H') (hL : L.Perm L') : Acct s₀ H' L' s where
  __ := h
  ref i := by rw [h.ref, hH.count_eq]
  lock i := by rw [h.lock, hL.count_eq]
  owned i hi := by
    obtain ⟨hm, hv⟩ := h.owned i (hL.mem_iff.2 hi)
    exact ⟨hH.mem_iff.1 hm, hv⟩

theorem Acct.swap (h : Acct s₀ (i :: j :: H) L s) : Acct s₀ (j :: i :: H) L s :=
  h.perm (List.Perm.swap _ _ _) (List.Perm.refl _)

theorem Acct.swap_lock (h : Acct s₀ H (i :: j :: L) s) : Acct s₀ H (j :: i :: L) s :=
  h.perm (List.Perm.refl _) (List.Perm.swap _ _ _)

theorem Acct.not_mem_lock (h : Acct s₀ H (i :: L) s) : i ∉ L := by
  have hl := h.lock i
  have hb := Bool.toNat_le (s.locked i)
  rw [List.count_cons_self] at hl
  exact List.count_eq_zero.1 (by omega)

theorem count_cons_eq (i j : Nat) (H : List Nat) :
    (i :: H).count j = H.count j + if j = i then 1 else 0 := by
  rw [List.count_cons]
  by_cases hj : j = i
  · simp [hj]
  · simp [hj, Ne.symm hj]

/-- What `Acct` says of one inode, with the call's references and locks on it. -/
structure Fits (n₀ : Node) (r₀ : Nat) (n : Node) (r : Nat) (v l : Bool) (held locks : Nat) :
    Prop where
  orphan : n.nlink = 0 → n.type = .free ∨ 0 < r ∧ v = true
  loaded : 0 < r → v = true → n.type ≠ .free
  ref : r = r₀ + held
  lock : l.toNat = locks
  owned : 0 < locks → 0 < held ∧ v = true
  type : 0 < r₀ → n₀.type ≠ .free → n.type = n₀.type

def Tolerant (E : Stop → Prop) : Prop := ∀ e, e ≠ .deadlock → E e

theorem wp_getNode {Q : Node → NsState → Prop} : wp E (getNode i) s Q ↔ Q (s.node i) s := Iff.rfl

section
variable (h : Acct s₀ H L s)
include h

theorem Acct.ref_pos (hi : i ∈ H) : 0 < s.ref i := by
  have hc : 0 < H.count i := List.count_pos_iff.2 hi
  have := h.ref i
  omega

theorem Acct.locked_iff : s.locked i = true ↔ i ∈ L := by
  have hl := h.lock i
  rw [← List.count_pos_iff, ← hl]
  cases s.locked i with
  | true => simp
  | false => simp

theorem Acct.fits (i : Nat) : Fits (s₀.node i) (s₀.ref i) (s.node i) (s.ref i)
    (s.valid i) (s.locked i) (H.count i) (L.count i) where
  orphan := h.orphan i
  loaded := h.loaded i
  ref := h.ref i
  lock := h.lock i
  owned hl := (h.owned i (List.count_pos_iff.1 hl)).imp_left List.count_pos_iff.2
  type := h.type i

theorem Acct.change (hs' : { s with
      node := update s.node i n
      ref := update s.ref i r
      valid := update s.valid i v
      locked := update s.locked i l } = s')
    (hcount : ∀ j ≠ i, H'.count j = H.count j ∧ L'.count j = L.count j)
    (hi : Fits (s₀.node i) (s₀.ref i) n r v l (H'.count i) (L'.count i)) : Acct s₀ H' L' s' := by
  have hfits (j : Nat) : Fits (s₀.node j) (s₀.ref j) (s'.node j) (s'.ref j) (s'.valid j)
    (s'.locked j) (H'.count j) (L'.count j) := by
    rw [← hs']
    by_cases hj : j = i
    · subst hj
      simpa using hi
    · simpa [hj, hcount j hj] using h.fits j
  refine ⟨⟨fun j => (hfits j).orphan, fun j => (hfits j).loaded⟩, fun j => (hfits j).ref,
    fun j => (hfits j).lock, fun j hj => ?_, fun j => (hfits j).type, hs' ▸ h.files, hs' ▸ h.ofile,
    hs' ▸ h.cwd⟩
  exact ((hfits j).owned (List.count_pos_iff.2 hj)).imp_left List.count_pos_iff.1

theorem Acct.more (hi : 0 < s.ref i) : Acct s₀ (i :: H) L (s.setRef i (s.ref i + 1)) := by
  have hf := h.fits i
  refine h.change (n := s.node i) (r := s.ref i + 1) (v := s.valid i) (l := s.locked i)
    (by simp [NsState.setRef]) (fun j hj => by simp [count_cons_eq, hj]) { hf with
      orphan := fun hn => (hf.orphan hn).imp_right fun hr => ⟨Nat.succ_pos _, hr.2⟩
      loaded := fun _ => hf.loaded hi
      ref := ?_
      owned := fun hl => ⟨by simp, (hf.owned hl).2⟩ }
  rw [List.count_cons_self, hf.ref, Nat.add_assoc]

theorem Acct.first (hi : s.ref i = 0) : Acct s₀ (i :: H) L ((s.setRef i 1).setValid i false) := by
  have hf := h.fits i
  have hr := hf.ref
  refine h.change (n := s.node i) (r := 1) (v := false) (l := s.locked i)
    (by simp [NsState.setRef, NsState.setValid]) (fun j hj => by simp [count_cons_eq, hj]) { hf with
      orphan := fun hn => .inl ((hf.orphan hn).resolve_right fun hr => by omega)
      loaded := fun _ hv => nomatch hv
      ref := ?_
      owned := fun hl => ?_ }
  · rw [List.count_cons_self]
    omega
  · have := (hf.owned hl).1
    omega

theorem Acct.lock_set (hi : s.locked i = false) (hm : i ∈ H) (hv : s.valid i = true) :
    Acct s₀ H (i :: L) (s.setLocked i true) := by
  have hf := h.fits i
  refine h.change (n := s.node i) (r := s.ref i) (v := s.valid i) (l := true)
    (by simp [NsState.setLocked]) (fun j hj => by simp [count_cons_eq, hj]) { hf with
      lock := ?_
      owned := fun _ => ⟨List.count_pos_iff.2 hm, hv⟩ }
  rw [List.count_cons_self, ← hf.lock, hi]
  rfl

theorem Acct.load (hi : (s.node i).type ≠ .free) : Acct s₀ H L (s.setValid i true) := by
  have hf := h.fits i
  exact h.change (n := s.node i) (r := s.ref i) (v := true) (l := s.locked i)
    (by simp [NsState.setValid]) (fun _ _ => ⟨rfl, rfl⟩) { hf with
      orphan := fun hn => (hf.orphan hn).imp_right fun hr => ⟨hr.1, rfl⟩
      loaded := fun _ _ => hi
      owned := fun hl => ⟨(hf.owned hl).1, rfl⟩ }

theorem Acct.write (hi : i ∈ L) (hn : n.type = (s.node i).type) : Acct s₀ H L (s.setNode i n) := by
  have hf := h.fits i
  exact h.change (n := n) (r := s.ref i) (v := s.valid i) (l := s.locked i)
    (by simp [NsState.setNode]) (fun _ _ => ⟨rfl, rfl⟩) { hf with
      orphan := fun _ => .inr ⟨h.ref_pos (h.owned i hi).1, (h.owned i hi).2⟩
      loaded := fun hr hv => hn ▸ hf.loaded hr hv
      type := fun hr ht => hn.trans (hf.type hr ht) }

theorem idup_spec (hi : 0 < s.ref i) :
    wp E (idup i) s (fun _ s' => Acct s₀ (i :: H) L s' ∧ s'.node = s.node) :=
  ⟨h.more hi, rfl⟩

end

theorem Acct.less (h : Acct s₀ (i :: H) L s) (hL : i ∈ L → i ∈ H)
    (hi : s.ref i ≠ 1 ∨ s.valid i = false ∨ (s.node i).nlink ≠ 0) :
    Acct s₀ H L (s.setRef i (s.ref i - 1)) := by
  have hf := h.fits i
  have hr := hf.ref
  rw [List.count_cons_self] at hr
  refine h.change (n := s.node i) (r := s.ref i - 1) (v := s.valid i) (l := s.locked i)
    (by simp [NsState.setRef]) (fun j hj => by simp [count_cons_eq, hj]) { hf with
      orphan := fun hn => (hf.orphan hn).imp_right fun hr => ⟨?_, hr.2⟩
      loaded := fun _ => hf.loaded (by omega)
      ref := by omega
      owned := fun hl =>
        ⟨List.count_pos_iff.2 (hL (List.count_pos_iff.1 hl)), (hf.owned hl).2⟩ }
  have hne : s.ref i ≠ 1 := by
    obtain h1 | h2 | h3 := hi
    · exact h1
    · rw [hr.2] at h2
      cases h2
    · exact absurd hn h3
  omega

theorem Acct.free (h : Acct s₀ (i :: H) L s) (hL : i ∈ L → i ∈ H) (hi : s.ref i = 1) :
    Acct s₀ H L (((s.setNode i (s.node i).freed).setValid i false).setRef i (s.ref i - 1)) := by
  have hf := h.fits i
  have hr := hf.ref
  rw [List.count_cons_self] at hr
  refine h.change (n := (s.node i).freed) (r := s.ref i - 1) (v := false) (l := s.locked i)
    (by simp [NsState.setNode, NsState.setRef, NsState.setValid])
    (fun j hj => by simp [count_cons_eq, hj]) { hf with
      orphan := fun _ => .inl rfl
      loaded := fun _ hv => nomatch hv
      ref := by omega
      owned := fun hl => ?_
      type := fun hr₀ => by omega }
  have hc := List.count_pos_iff.2 (hL (List.count_pos_iff.1 hl))
  omega

theorem Acct.lock_clear (h : Acct s₀ H (i :: L) s) : Acct s₀ H L (s.setLocked i false) := by
  have hf := h.fits i
  exact h.change (n := s.node i) (r := s.ref i) (v := s.valid i) (l := false)
    (by simp [NsState.setLocked]) (fun j hj => by simp [count_cons_eq, hj]) { hf with
      lock := (List.count_eq_zero.2 h.not_mem_lock).symm
      owned := fun _ => hf.owned (by simp) }

theorem iget_spec (hE : Tolerant E) (h : Acct s₀ H L s) (i : Nat) :
    wp E (iget i) s (fun _ s' => Acct s₀ (i :: H) L s' ∧ s'.node = s.node) := by
  unfold iget
  rw [wp_bind, wp_get, wp_ite]
  split
  · rename_i hi
    exact ⟨h.more hi, rfl⟩
  · rename_i hi
    cases hfull : s.full with
    | true => exact hE _ (by simp)
    | false => exact ⟨h.first (by omega), rfl⟩

theorem ilock_spec (hE : Tolerant E) (h : Acct s₀ H L s) (hi : i ∈ H)
    (hd : i ∈ L → E .deadlock) :
    wp E (ilock i) s (fun _ s' => Acct s₀ H (i :: L) s' ∧ s'.node = s.node ∧
      (s.node i).type ≠ .free) := by
  unfold ilock
  rw [wp_bind, wp_get, wp_ite]
  split
  · exact hE _ (by simp)
  rw [wp_ite]
  split
  · rename_i hl
    exact hd (h.locked_iff.1 hl)
  rename_i hl
  have hl' : s.locked i = false := by simpa using hl
  rw [wp_ite]
  split
  · rename_i hv
    exact ⟨h.lock_set hl' hi hv, rfl, h.loaded i (h.ref_pos hi) hv⟩
  rw [wp_ite]
  split
  · exact hE _ (by simp)
  · rename_i hf
    refine ⟨?_, rfl, hf⟩
    have hset := (h.load hf).lock_set (i := i) hl' hi (by simp)
    exact hset

theorem iunlock_spec (h : Acct s₀ H (i :: L) s) :
    wp E (iunlock i) s (fun _ s' => Acct s₀ H L s' ∧ s'.node = s.node) := by
  have hm : i ∈ i :: L := List.mem_cons_self ..
  have hl : s.locked i = true := h.locked_iff.2 hm
  have hr : 0 < s.ref i := h.ref_pos (h.owned i hm).1
  unfold iunlock
  rw [wp_bind, wp_get, if_neg (by simp [hl]; omega)]
  exact ⟨h.lock_clear, rfl⟩

/-- The inodes after a reference to one is dropped, with those that remain. -/
def drop (ref : Nat → Nat) (H : List Nat) (N : Nodes) (i : Nat) : Nodes :=
  if ref i + H.count i = 0 ∧ (N i).nlink = 0 ∧ (N i).type ≠ .free then
    update N i (N i).freed
  else
    N

theorem iput_spec (h : Acct s₀ (i :: H) L s) (hL : i ∈ L → i ∈ H) :
    wp E (iput i) s (fun _ s' => Acct s₀ H L s' ∧ s'.node = drop s₀.ref H s.node i) := by
  have hpos : 0 < s.ref i := h.ref_pos (List.mem_cons_self ..)
  have href := h.ref i
  rw [List.count_cons_self] at href
  unfold iput
  rw [wp_bind, wp_get, wp_ite]
  split
  · rename_i hc
    obtain ⟨hr, hv, hn⟩ := hc
    have hlocked : s.locked i = false := by
      rw [Bool.eq_false_iff]
      intro hl
      have hc := List.count_pos_iff.2 (hL (h.locked_iff.1 hl))
      omega
    rw [wp_ite, if_neg (by simp [hlocked])]
    refine ⟨h.free hL hr, ?_⟩
    rw [drop, if_pos ⟨by omega, hn, h.loaded i hpos hv⟩]
    rfl
  · rename_i hc
    refine ⟨h.less hL ?_, ?_⟩
    · by_cases h1 : s.ref i = 1
      · by_cases h2 : s.valid i = true
        · exact .inr (.inr fun h3 => hc ⟨h1, h2, h3⟩)
        · exact .inr (.inl (by simpa using h2))
      · exact .inl h1
    · rw [drop, if_neg]
      · rfl
      · intro ⟨h1, h2, h3⟩
        obtain hf | ⟨_, hv⟩ := h.orphan i h2
        · exact h3 hf
        · exact hc ⟨by omega, hv, h2⟩

theorem iunlockput_spec (h : Acct s₀ (i :: H) (i :: L) s) :
    wp E (iunlockput i) s (fun _ s' => Acct s₀ H L s' ∧ s'.node = drop s₀.ref H s.node i) := by
  have hn := h.not_mem_lock
  apply (iunlock_spec h).bind
  intro _ s₁ ⟨h₁, hn₁⟩
  rw [← hn₁]
  exact iput_spec h₁ (fun hi => absurd hi hn)

def Settled (s₀ : NsState) (H : List Nat) (N : Nodes) : Prop :=
  ∀ i, (N i).nlink = 0 → (N i).type = .free ∨ 0 < s₀.ref i + H.count i

theorem Acct.settled (h : Acct s₀ H L s) : Settled s₀ H s.node := by
  intro i hi
  obtain hf | ⟨hr, -⟩ := h.orphan i hi
  · exact .inl hf
  · rw [h.ref] at hr
    exact .inr hr

theorem Settled.drop_eq (h : Settled s₀ H N) (i : Nat) : drop s₀.ref H N i = N := by
  rw [drop, if_neg]
  intro ⟨h1, h2, h3⟩
  obtain hf | hr := h i h2
  · exact h3 hf
  · omega

theorem Settled.cons (h : Settled s₀ H N) (i : Nat) : Settled s₀ (i :: H) N := by
  intro j hj
  obtain hf | hr := h j hj
  · exact .inl hf
  · rw [count_cons_eq]
    exact .inr (by omega)

theorem ilock_first (hE : Tolerant E) (h : Acct s₀ (i :: H) [] s) (hn : s.node = N) :
    wp E (ilock i) s (fun _ s' => Acct s₀ (i :: H) [i] s' ∧ s'.node = N ∧ (N i).type ≠ .free) := by
  subst hn
  exact ilock_spec hE h (List.mem_cons_self ..) (fun hi => nomatch hi)

theorem iput_same (h : Acct s₀ (i :: H) L s) (hn : s.node = N) (hN : Settled s₀ H N)
    (hL : i ∈ L → i ∈ H) : wp E (iput i) s (fun _ s' => Acct s₀ H L s' ∧ s'.node = N) := by
  subst hn
  exact hN.drop_eq i ▸ iput_spec h hL

theorem iunlockput_same (h : Acct s₀ (i :: H) (i :: L) s) (hn : s.node = N) (hN : Settled s₀ H N) :
    wp E (iunlockput i) s (fun _ s' => Acct s₀ H L s' ∧ s'.node = N) := by
  subst hn
  exact hN.drop_eq i ▸ iunlockput_spec h

theorem dirlookup_spec (hE : Tolerant E) (h : Acct s₀ H L s) (dp : Nat) (name : Name) :
    wp E (dirlookup dp name) s (fun r s' => s'.node = s.node ∧ (s.node dp).type = .dir ∧
      match r with
      | none => slotOf (s.node dp).entries name = none ∧ Acct s₀ H L s'
      | some (ip, k) => slotOf (s.node dp).entries name = some k ∧
          inumAt (s.node dp).entries k = ip ∧ Acct s₀ (ip :: H) L s') := by
  unfold dirlookup getNode
  rw [wp_bind, wp_bind, wp_get, wp_pure, wp_ite]
  split
  · exact hE _ (by simp)
  · rename_i hdir
    have hdir' : (s.node dp).type = .dir := by simpa using hdir
    cases hs : slotOf (s.node dp).entries name with
    | none => exact ⟨rfl, hdir', rfl, h⟩
    | some k =>
      apply (iget_spec hE h _).bind
      intro _ s' ⟨h', hn⟩
      exact ⟨hn, hdir', rfl, rfl, h'⟩

theorem resolve_name (h : resolve N false i names = some (j, name)) : name = [] := by
  induction names generalizing i with
  | nil =>
    cases h
    rfl
  | cons nm rest ih =>
    unfold resolve at h
    split at h
    · cases h
    split at h
    · rename_i hp
      cases hp.1
    split at h
    · cases h
    · exact ih h

theorem self_mem_visits (N : Nodes) (parent : Bool) (i : Nat) (name : Name) (rest : List Name) :
    i ∈ visits N parent i (name :: rest) := by
  unfold visits
  split
  · exact List.mem_cons_self ..
  · split
    · exact List.mem_cons_self ..
    · exact List.mem_cons_self ..

theorem visits_none (hdir : ¬ (N i).type ≠ .dir) (hlast : ¬ (parent = true ∧ rest = []))
    (hs : slotOf (N i).entries name = none) : visits N parent i (name :: rest) = [i] := by
  rw [visits, if_neg (not_or.2 ⟨hdir, hlast⟩), hs]

theorem visits_some (hdir : ¬ (N i).type ≠ .dir) (hlast : ¬ (parent = true ∧ rest = []))
    (hs : slotOf (N i).entries name = some k) : visits N parent i (name :: rest) =
      i :: visits N parent (inumAt (N i).entries k) rest := by
  rw [visits, if_neg (not_or.2 ⟨hdir, hlast⟩), hs]

theorem namexLoop_spec (hE : Tolerant E) (parent : Bool) (names : List Name)
    (hd : ∀ j ∈ visits s.node parent i names, j ∈ L → E .deadlock) (h : Acct s₀ (i :: H) L s)
    (hN : Settled s₀ H s.node) (hL : ∀ j ∈ L, j ∈ H) :
    wp E (namexLoop parent i names) s (fun r s' => r = resolve s.node parent i names ∧
      s'.node = s.node ∧ Acct s₀ ((r.map Prod.fst).toList ++ H) L s' ∧
      ∀ j ∈ visits s.node parent i names, j ∉ L) := by
  induction names generalizing i s with
  | nil =>
    unfold namexLoop
    have hfree : ∀ j ∈ visits s.node parent i [], j ∉ L := by
      intro j hj
      cases hj
    cases parent with
    | true =>
      apply (iput_same h rfl hN (hL i)).bind
      intro _ s' ⟨h', hn⟩
      exact ⟨rfl, hn, h', hfree⟩
    | false => exact ⟨rfl, rfl, h, hfree⟩
  | cons name rest ih =>
    unfold namexLoop
    have hi := self_mem_visits s.node parent i name rest
    apply (ilock_spec hE h (List.mem_cons_self ..) (hd i hi)).bind
    intro _ s₁ ⟨h₁, hn₁, _⟩
    have hN₁ : Settled s₀ H s₁.node := hn₁ ▸ hN
    have hiL : i ∉ L := h₁.not_mem_lock
    have honly : ∀ j ∈ [i], j ∉ L := by
      intro j hj
      rw [List.mem_singleton.1 hj]
      exact hiL
    rw [← hn₁] at hd ⊢
    rw [wp_bind, wp_getNode, wp_ite]
    split
    · rename_i hdir
      apply (iunlockput_same h₁ rfl hN₁).bind
      intro _ s₂ ⟨h₂, hn₂⟩
      rw [resolve, if_pos hdir, visits, if_pos (.inl hdir)]
      exact ⟨rfl, hn₂, h₂, honly⟩
    rename_i hdir
    rw [wp_ite]
    split
    · rename_i hlast
      apply (iunlock_spec h₁).bind
      intro _ s₂ ⟨h₂, hn₂⟩
      rw [resolve, if_neg hdir, if_pos hlast, visits, if_pos (.inr hlast)]
      exact ⟨rfl, hn₂, h₂, honly⟩
    rename_i hlast
    rw [resolve, if_neg hdir, if_neg hlast]
    apply (dirlookup_spec hE h₁ i name).bind
    intro r s₂ ⟨hn₂, _, hr⟩
    cases r with
    | none =>
      obtain ⟨hs, h₂⟩ := hr
      apply (iunlockput_same h₂ hn₂ hN₁).bind
      intro _ s₃ ⟨h₃, hn₃⟩
      rw [hs, visits_none hdir hlast hs]
      exact ⟨rfl, hn₃, h₃, honly⟩
    | some x =>
      obtain ⟨next, k⟩ := x
      obtain ⟨hs, hk, h₂⟩ := hr
      subst hk
      apply (iunlockput_same h₂.swap hn₂ (hN₁.cons _)).bind
      intro _ s₃ ⟨h₃, hn₃'⟩
      rw [visits_some hdir hlast hs, ← hn₃'] at hd
      have hrest := ih (fun j hj => hd j (List.mem_cons_of_mem _ hj)) (hn₃' ▸ h₃) (hn₃' ▸ hN₁)
      rw [hn₃'] at hrest
      apply hrest.mono
      intro r s₄ ⟨hr₄, hn₄, h₄, hv₄⟩
      rw [hs, visits_some hdir hlast hs]
      refine ⟨hr₄, hn₄, h₄, ?_⟩
      intro j hj
      obtain he | hj := List.mem_cons.1 hj
      · rw [he]
        exact hiL
      · exact hv₄ j hj

def Seated (s : NsState) : Prop := ∀ p i, s.cwd p = some i → 0 < s.ref i

theorem startOf_spec (hE : Tolerant E) (hc : Seated s₀) (h : Acct s₀ H L s) (p : ProcSlot)
    (path : Path) :
    wp E (startOf p path) s (fun i s' => s.start p path = some i ∧ s'.node = s.node ∧
      Acct s₀ (i :: H) L s') := by
  unfold startOf NsState.start
  rw [wp_ite]
  split
  · apply (iget_spec hE h ROOTINO).bind
    intro _ s' ⟨h', hn⟩
    exact ⟨rfl, hn, h'⟩
  · rw [wp_bind, wp_get]
    cases hp : s.cwd p with
    | none => exact hE _ (by simp)
    | some i =>
      have hi : 0 < s.ref i := by
        have := hc p i (h.cwd ▸ hp)
        have := h.ref i
        omega
      apply (idup_spec h hi).bind
      intro _ s' ⟨h', hn⟩
      exact ⟨rfl, hn, h'⟩

theorem NsState.passes_eq (h : s.start p path = some i) :
    s.passes p parent path = visits s.node parent i (namesOf path) := by
  rw [passes, h]
  rfl

theorem namex_spec (hE : Tolerant E) (hc : Seated s₀) (h : Acct s₀ H L s) (p : ProcSlot)
    (parent : Bool) (path : Path) (hd : ∀ j ∈ s.passes p parent path, j ∈ L → E .deadlock) :
    wp E (namex p parent path) s (fun r s' => r = s.find p parent path ∧ s'.node = s.node ∧
      Acct s₀ ((r.map Prod.fst).toList ++ H) L s' ∧ ∀ j ∈ s.passes p parent path, j ∉ L) := by
  unfold namex
  apply (startOf_spec hE hc h p path).bind
  intro i s₁ ⟨hs, hn, h₁⟩
  have hN : Settled s₀ H s₁.node := hn ▸ h.settled
  have hL : ∀ j ∈ L, j ∈ H := fun j hj => (h.owned j hj).1
  rw [NsState.passes_eq hs, ← hn] at hd
  have hwalk := namexLoop_spec hE parent (namesOf path) hd h₁ hN hL
  rw [NsState.passes_eq hs, NsState.find, hs, ← hn]
  exact hwalk

theorem namei_spec (hE : Tolerant E) (hc : Seated s₀) (h : Acct s₀ H [] s) (p : ProcSlot)
    (path : Path) :
    wp E (namei p path) s (fun r s' => s'.node = s.node ∧
      match r with
      | none => s.find p false path = none ∧ Acct s₀ H [] s'
      | some ip => s.find p false path = some (ip, []) ∧ Acct s₀ (ip :: H) [] s') := by
  unfold namei
  apply (namex_spec hE hc h p false path (fun j _ hj => nomatch hj)).bind
  intro r s' ⟨hr, hn, h', _⟩
  cases r with
  | none => exact ⟨hn, hr.symm, h'⟩
  | some x =>
    obtain ⟨ip, name⟩ := x
    have hname : name = [] := by
      obtain ⟨i, _, hi⟩ := Option.bind_eq_some_iff.1 hr.symm
      exact resolve_name hi
    subst hname
    exact ⟨hn, hr.symm, h'⟩

theorem nameiparent_spec (hE : Tolerant E) (hc : Seated s₀) (h : Acct s₀ H L s) (p : ProcSlot)
    (path : Path) (hd : ∀ j ∈ s.passes p true path, j ∈ L → E .deadlock) :
    wp E (nameiparent p path) s (fun r s' => s'.node = s.node ∧
      (∀ j ∈ s.passes p true path, j ∉ L) ∧
      match r with
      | none => s.find p true path = none ∧ Acct s₀ H L s'
      | some (dp, name) => s.find p true path = some (dp, name) ∧ Acct s₀ (dp :: H) L s') := by
  apply (namex_spec hE hc h p true path hd).mono
  intro r s' ⟨hr, hn, h', hv⟩
  cases r with
  | none => exact ⟨hn, hv, hr.symm, h'⟩
  | some x => exact ⟨hn, hv, hr.symm, h'⟩

theorem mem_visits_of_resolve (h : resolve N true i names = some (j, name)) :
    j ∈ visits N true i names := by
  induction names generalizing i with
  | nil => cases h
  | cons nm rest ih =>
    unfold resolve at h
    unfold visits
    split at h
    · cases h
    rename_i hdir
    split at h
    · rename_i hlast
      cases h
      rw [if_pos (.inr hlast)]
      exact List.mem_cons_self ..
    rename_i hlast
    rw [if_neg (not_or.2 ⟨hdir, hlast⟩)]
    split at h
    · cases h
    · exact List.mem_cons_of_mem _ (ih h)

theorem NsState.mem_passes_of_find (h : s.find p true path = some (dp, name)) :
    dp ∈ s.passes p true path := by
  obtain ⟨i, hi, hr⟩ := Option.bind_eq_some_iff.1 h
  rw [passes_eq hi]
  exact mem_visits_of_resolve hr

theorem writeSlot_spec (h : Acct s₀ H L s) (hd : d ∈ L) (k : Nat) (e : Dirent) :
    wp E (writeSlot d k e) s (fun _ s' => Acct s₀ H L s' ∧ s'.node = putEntry s.node d k e) :=
  ⟨h.write hd rfl, rfl⟩

theorem addLink_spec (h : Acct s₀ H L s) (hi : i ∈ L) (δ : Int16) :
    wp E (addLink i δ) s (fun _ s' => Acct s₀ H L s' ∧ s'.node = relink s.node i δ) :=
  ⟨h.write hi rfl, rfl⟩

theorem dirlink_spec (hE : Tolerant E) (h : Acct s₀ H L s) (hd : d ∈ L) (name : Name) (i : Nat) :
    wp E (dirlink d name i) s (fun r s' => Acct s₀ H L s' ∧ (s.node d).type = .dir ∧
      if r then slotOf (s.node d).entries name = none ∧ s'.node = linkName s.node d name i
      else s'.node = s.node) := by
  unfold dirlink
  apply (dirlookup_spec hE h d name).bind
  intro r s₁ ⟨hn₁, hdir, hr⟩
  cases r with
  | none =>
    obtain ⟨hs, h₁⟩ := hr
    rw [wp_bind, wp_getNode, wp_bind]
    apply (writeSlot_spec h₁ hd _ _).mono
    intro _ s₂ ⟨h₂, hn₂⟩
    rw [hn₁] at hn₂
    exact ⟨h₂, hdir, hs, hn₂⟩
  | some x =>
    obtain ⟨ip, k⟩ := x
    obtain ⟨_, _, h₁⟩ := hr
    apply (iput_same h₁ hn₁ h.settled fun hi => (h.owned ip hi).1).bind
    intro _ s₂ ⟨h₂, hn₂⟩
    exact ⟨h₂, hdir, hn₂⟩

theorem Acct.alloc (h : Acct s₀ H L s) (hi : (s.node i).type = .free) (hn : n.type ≠ .free)
    (hs' : { s with
      node := update s.node i n
      ref := update s.ref i (s.ref i + 1)
      valid := update s.valid i true
      locked := update s.locked i true } = s') : Acct s₀ (i :: H) (i :: L) s' := by
  have hf := h.fits i
  have hfree : L.count i = 0 := by
    rw [List.count_eq_zero]
    intro hl
    obtain ⟨hm, hv⟩ := h.owned i hl
    exact hf.loaded (h.ref_pos hm) hv hi
  refine h.change hs' (fun j hj => by simp [count_cons_eq, hj])
    ⟨fun _ => .inr ⟨Nat.succ_pos _, rfl⟩, fun _ _ => hn, ?_, ?_, fun _ => ⟨by simp, rfl⟩,
      fun hr ht => absurd (hf.type hr ht ▸ hi) ht⟩
  · rw [List.count_cons_self, hf.ref, Nat.add_assoc]
  · rw [List.count_cons_self, hfree]
    rfl

theorem NsState.firstFree_some (h : s.firstFree = some i) :
    (s.node i).type = .free ∧ 0 < i ∧ i < NINODES := by
  have hf := List.find?_some h
  have hm := List.mem_of_find?_eq_some h
  rw [List.mem_range'_1] at hm
  refine ⟨by simpa using hf, by omega, by omega⟩

theorem iget_unloaded (hE : Tolerant E) (hv : 0 < s.ref i → s.valid i = false) :
    wp E (iget i) s (fun _ s' => s' = (s.setRef i (s.ref i + 1)).setValid i false) := by
  unfold iget
  rw [wp_bind, wp_get, wp_ite]
  split
  · rename_i hr
    rw [wp_set]
    have hsame : update s.valid i false = s.valid := by
      rw [← hv hr]
      exact update_eq_self i s.valid
    change s.setRef i (s.ref i + 1) = _
    simp only [NsState.setRef, NsState.setValid, hsame]
  · rename_i hr
    cases hfull : s.full with
    | true => exact hE _ (by simp)
    | false =>
      have h0 : s.ref i = 0 := by omega
      rw [h0]
      exact rfl

theorem ilock_unloaded (hE : Tolerant E) (hr : 0 < s.ref i) (hl : s.locked i = false)
    (hv : s.valid i = false) :
    wp E (ilock i) s (fun _ s' => (s.node i).type ≠ .free ∧
      s' = (s.setLocked i true).setValid i true) := by
  unfold ilock
  rw [wp_bind, wp_get, if_neg (by omega), if_neg (by simp [hl]), if_neg (by simp [hv]), wp_ite]
  split
  · exact hE _ (by simp)
  · rename_i hf
    exact ⟨hf, rfl⟩

theorem newNode_spec (hE : Tolerant E) (h : Acct s₀ H L s) (type : InodeType)
    (major minor : Int16) :
    wp E (newNode type major minor) s (fun ip s' => Acct s₀ (ip :: H) (ip :: L) s' ∧
      type ≠ .free ∧ ((s.node ip).type = .free ∧ 0 < ip ∧ ip < NINODES) ∧
      s'.node = update s.node ip (fresh type major minor)) := by
  unfold newNode ialloc
  rw [wp_bind, wp_bind, wp_get]
  cases hfirst : s.firstFree with
  | none => exact hE _ (by simp)
  | some i =>
    have hi := NsState.firstFree_some hfirst
    have hload : 0 < s.ref i → s.valid i = false := by
      intro hr
      rw [Bool.eq_false_iff]
      intro hv
      exact h.loaded i hr hv hi.1
    have hfree : s.locked i = false := by
      rw [Bool.eq_false_iff]
      intro hl
      obtain ⟨hm, hv⟩ := h.owned i (h.locked_iff.1 hl)
      exact h.loaded i (h.ref_pos hm) hv hi.1
    rw [wp_bind, setNode, wp_modify, wp_bind]
    apply (iget_unloaded (s := s.setNode i _) hE hload).mono
    intro _ s₁ hs₁
    have hr₁ : 0 < s₁.ref i := by simp [hs₁]
    have hl₁ : s₁.locked i = false := by simpa [hs₁] using hfree
    have hv₁ : s₁.valid i = false := by simp [hs₁]
    rw [wp_pure, wp_bind]
    apply (ilock_unloaded hE hr₁ hl₁ hv₁).mono
    intro _ s₂ ⟨ht, hs₂⟩
    subst hs₂ hs₁
    rw [wp_bind, wp_getNode, wp_bind]
    have htype : type ≠ .free := by simpa using ht
    refine ⟨?_, htype, hi, ?_⟩
    · apply h.alloc (n := fresh type major minor) hi.1 htype
      simp [fresh, NsState.setRef, NsState.setValid, NsState.setLocked, NsState.setNode]
    · simp [fresh]

end OopsOS.Ns
