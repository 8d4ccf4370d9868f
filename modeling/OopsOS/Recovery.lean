import OopsOS.Log

namespace OopsOS
set_option autoImplicit true
open Function

variable {m m' : Machine} {E : Disk → Prop} {b n k : Nat} {old new home d : Disk} {lh : List Nat}
  {Q : Unit → Machine → Prop}

theorem wp_readBuf {Q : Bytes → Machine → Prop} : wp E (readBuf b) m Q ↔ Q (m.cache b) m := Iff.rfl

theorem wp_bwrite (hE : m.fuel = 0 → E m.disk)
    (hQ : 0 < m.fuel → Q () (m.written b data)) : wp E (bwrite b data) m Q := by
  simp only [bwrite, wp_bind, wp_get, wp_ite]
  split
  · next h => exact hE h
  · next h => exact hQ (Nat.pos_of_ne_zero h)

theorem wp_clearHead : wp E clearHead m Q ↔ Q () { m with lh := [] } := Iff.rfl

theorem wp_readHead : wp E readHead m Q ↔ Q () { m with lh := getHead (m.cache sb.logstart) } :=
  Iff.rfl

theorem wp_writeHead (hE : m.fuel = 0 → E m.disk)
    (hQ : 0 < m.fuel → Q () (m.written sb.logstart (putHead (m.cache sb.logstart) m.lh))) :
    wp E writeHead m Q := wp_bwrite hE hQ

theorem Machine.written_self (m : Machine) (b : Nat) (data : Bytes) :
    (m.written b data).disk b = data := update_self ..

theorem Machine.written_other (m : Machine) (data : Bytes) (h : x ≠ b) :
    (m.written b data).disk x = m.disk x := update_of_ne h ..

theorem inLog_start : InLog sb.logstart := by decide

structure Clean (home d : Disk) : Prop where
  head : headCount (d sb.logstart) = 0
  blocks : ∀ b, ¬ InLog b → d b = home b

/-- A disk on which the transaction of the blocks `lh` with contents `new` is committed. -/
structure Committed (old new : Disk) (lh : List Nat) (d : Disk) : Prop where
  head : getHead (d sb.logstart) = lh
  log : ∀ i < lh.length, d (sb.logstart + i + 1) = new (lh.getD i 0)
  blocks : ∀ b, ¬ InLog b → b ∉ lh → d b = old b

def applied (old new : Disk) (lh : List Nat) : Disk := fun b => if b ∈ lh then new b else old b

structure Loggable (lh : List Nat) : Prop where
  room : lh.length ≤ sb.nlog - 1
  home : ∀ b ∈ lh, ¬ InLog b
  word : ∀ b ∈ lh, b < 2 ^ 32

theorem Loggable.length_lt (h : Loggable lh) : lh.length < 2 ^ 31 :=
  Nat.lt_of_le_of_lt h.room (by decide)

theorem Loggable.inLog (h : Loggable lh) (hi : i < lh.length) : InLog (sb.logstart + i + 1) := by
  have hroom : lh.length ≤ 29 := h.room
  change 2 ≤ 2 + i + 1 ∧ 2 + i + 1 < 2 + 30
  omega

theorem Clean.cleared (h : ∀ b, ¬ InLog b → m.disk b = home b) (hb : Bytes) :
    Clean home (m.written sb.logstart (putHead hb [])).disk := by
  refine ⟨?_, fun b hlog => ?_⟩
  · rw [m.written_self, headCount_putHead _ _ (by decide) (fun _ h => by cases h)]
    rfl
  · have hne : b ≠ sb.logstart := fun e => hlog (e ▸ inLog_start)
    rw [m.written_other _ hne, h b hlog]

theorem Committed.applied (h : Committed old new lh d) (hin : ∀ b ∈ lh, d b = new b) (b : Nat)
    (hb : ¬ InLog b) : d b = applied old new lh b := by
  rw [OopsOS.applied]
  split
  · next hm => exact hin b hm
  · next hm => exact h.blocks b hb hm

theorem Committed.install (h : Committed old new lh m.disk) (hl : Loggable lh) (hb : b ∈ lh)
    (data : Bytes) : Committed old new lh (m.written b data).disk := by
  have hlog := hl.home b hb
  refine ⟨?_, fun i hi => ?_, fun x hx hm => ?_⟩
  · have hne : sb.logstart ≠ b := fun e => hlog (e ▸ inLog_start)
    rw [m.written_other _ hne, h.head]
  · have hne : sb.logstart + i + 1 ≠ b := fun e => hlog (e ▸ hl.inLog hi)
    rw [m.written_other _ hne, h.log i hi]
  · have hne : x ≠ b := fun e => hm (e ▸ hb)
    rw [m.written_other _ hne, h.blocks x hx hm]

theorem getD_mem (h : i < lh.length) : lh.getD i 0 ∈ lh := by
  rw [List.getD_eq_getElem _ _ h]
  exact List.getElem_mem h

theorem installTrans_spec (h : Committed old new lh m.disk) (hl : Loggable lh) (hlh : m.lh = lh)
    (hcache : ∀ i < lh.length, m.cache (sb.logstart + i + 1) = new (lh.getD i 0)) :
    wp (Committed old new lh) installTrans m fun _ m' =>
      Committed old new lh m'.disk ∧ (∀ b ∈ lh, m'.disk b = new b) ∧
        ∀ b, (b ∈ lh → m.cache b = new b) → m'.cache b = m.cache b := by
  unfold installTrans
  rw [wp_bind, wp_get, hlh]
  refine wp.mono (wp_loop (fun i _ m' => Committed old new lh m'.disk ∧
    (∀ j < i, m'.disk (lh.getD j 0) = new (lh.getD j 0)) ∧
    (∀ i < lh.length, m'.cache (sb.logstart + i + 1) = new (lh.getD i 0)) ∧
    ∀ b, (b ∈ lh → m.cache b = new b) → m'.cache b = m.cache b) ?_ ?_) ?_
  · exact ⟨h, fun j hj => absurd hj (Nat.not_lt_zero j), hcache, fun _ _ => rfl⟩
  · intro i _ m₁ _ hi hinv
    obtain ⟨hcom, hdone, hlog, hbuf⟩ := hinv
    have hi' : i < lh.length := by omega
    have hmem := getD_mem hi'
    rw [wp_bind, wp_readBuf, hlog i hi']
    apply wp_bwrite fun _ => hcom
    intro _
    refine ⟨hcom.install hl hmem _, fun j hj => ?_, fun j hj => ?_, fun b hb => ?_⟩
    · by_cases he : lh.getD j 0 = lh.getD i 0
      · rw [he, m₁.written_self]
      · rw [m₁.written_other _ he]
        have hne : j ≠ i := fun e => he (by rw [e])
        exact hdone j (by omega)
    · have hne : sb.logstart + j + 1 ≠ lh.getD i 0 := fun e => hl.home _ hmem (e ▸ hl.inLog hj)
      exact (update_of_ne hne ..).trans (hlog j hj)
    · by_cases he : b = lh.getD i 0
      · rw [hb (he ▸ hmem), he]
        exact update_self ..
      · exact (update_of_ne he ..).trans (hbuf b hb)
  · intro _ m' hinv
    obtain ⟨hcom, hdone, -, hbuf⟩ := hinv
    refine ⟨hcom, fun b hb => ?_, hbuf⟩
    obtain ⟨i, hi, rfl⟩ := List.getElem_of_mem hb
    have h1 := hdone i (by omega)
    rwa [List.getD_eq_getElem _ _ hi] at h1

theorem recover_clean (h : Clean home d) :
    wp (Clean home) recoverFromLog (.powerOn d n) fun _ m' => Clean home m'.disk := by
  have hhead : getHead (d sb.logstart) = [] := by
    rw [getHead, h.head, List.range_zero, List.map_nil]
  simp only [recoverFromLog, wp_bind, wp_readHead, Machine.powerOn, hhead, installTrans, wp_get,
    List.length_nil, loop, wp_pure, wp_clearHead]
  apply wp_writeHead fun _ => h
  intro _
  exact Clean.cleared h.blocks _

theorem recover_committed (h : Committed old new lh d) (hl : Loggable lh) :
    wp (fun d' => Committed old new lh d' ∨ Clean (applied old new lh) d') recoverFromLog
      (.powerOn d n) fun _ m' => Clean (applied old new lh) m'.disk := by
  simp only [recoverFromLog, wp_bind, wp_readHead, Machine.powerOn, h.head]
  apply wp.mono (wp.weaken (installTrans_spec h hl rfl h.log) fun _ => .inl)
  intro _ m' hm
  obtain ⟨hcom, hin, -⟩ := hm
  rw [wp_clearHead]
  apply wp_writeHead fun _ => .inl hcom
  intro _
  exact Clean.cleared (hcom.applied hin) _

theorem writeLog_spec (hl : Loggable lh) (hlh : m.lh = lh) (hclean : Clean old m.disk)
    (hk : m.fuel = k) :
    wp (fun d => k ≤ lh.length ∧ Clean old d) writeLog m fun _ m' => Clean old m'.disk ∧
      (∀ i < lh.length, m'.disk (sb.logstart + i + 1) = m.cache (lh.getD i 0) ∧
        m'.cache (sb.logstart + i + 1) = m.cache (lh.getD i 0)) ∧
      (∀ b, ¬ InLog b → m'.cache b = m.cache b) ∧ m'.lh = lh ∧ m'.fuel + lh.length = k := by
  unfold writeLog
  rw [wp_bind, wp_get, hlh]
  refine wp.mono (wp_loop (fun i _ m' => Clean old m'.disk ∧
    (∀ j < i, m'.disk (sb.logstart + j + 1) = m.cache (lh.getD j 0) ∧
      m'.cache (sb.logstart + j + 1) = m.cache (lh.getD j 0)) ∧
    (∀ b, ¬ InLog b → m'.cache b = m.cache b) ∧ m'.lh = lh ∧ m'.fuel + i = k) ?_ ?_) ?_
  · exact ⟨hclean, fun j hj => absurd hj (Nat.not_lt_zero j), fun _ _ => rfl, hlh, hk⟩
  · intro i _ m₁ _ hi hinv
    obtain ⟨hcl, hdone, hcache, hlh₁, hfuel⟩ := hinv
    have hi' : i < lh.length := by omega
    have hin := hl.inLog hi'
    rw [wp_bind, wp_readBuf, hcache _ (hl.home _ (getD_mem hi'))]
    apply wp_bwrite
    · intro h0
      exact ⟨by omega, hcl⟩
    · intro hpos
      refine ⟨⟨?_, fun b hb => ?_⟩, fun j hj => ?_, fun b hb => ?_, hlh₁, ?_⟩
      · rw [m₁.written_other _ (by omega), hcl.head]
      · have hne : b ≠ sb.logstart + i + 1 := fun e => hb (e ▸ hin)
        rw [m₁.written_other _ hne, hcl.blocks b hb]
      · by_cases he : j = i
        · rw [he]
          exact ⟨update_self .., update_self ..⟩
        · have hne : sb.logstart + j + 1 ≠ sb.logstart + i + 1 := by omega
          have h1 := hdone j (by omega)
          exact ⟨(update_of_ne hne ..).trans h1.1, (update_of_ne hne ..).trans h1.2⟩
      · have hne : b ≠ sb.logstart + i + 1 := fun e => hb (e ▸ hin)
        exact (update_of_ne hne ..).trans (hcache b hb)
      · change m₁.fuel - 1 + (i + 1) = k
        omega
  · intro _ m' hinv
    obtain ⟨hcl, hdone, hcache, hlh', hfuel⟩ := hinv
    exact ⟨hcl, fun i hi => hdone i (by omega), hcache, hlh', by omega⟩

def Stopped (old new : Disk) (lh : List Nat) (k : Nat) (d : Disk) : Prop :=
  k ≤ lh.length ∧ Clean old d ∨
    lh.length < k ∧ (Committed old new lh d ∨ Clean (applied old new lh) d)

theorem applied_nil (old new : Disk) : applied old new [] = old := rfl

theorem commit_spec (hl : Loggable m.lh) (hhead : headCount (m.disk sb.logstart) = 0) :
    wp (Stopped m.disk m.cache m.lh m.fuel) commit m fun _ m' =>
      Clean (applied m.disk m.cache m.lh) m'.disk ∧ (m.lh.length < m.fuel ∨ m.lh = []) ∧
      (∀ b, ¬ InLog b → m'.cache b = m.cache b) ∧ m'.lh = [] := by
  have hclean : Clean m.disk m.disk := ⟨hhead, fun _ _ => rfl⟩
  unfold commit
  rw [wp_bind, wp_get, wp_ite]
  split
  · next hpos =>
    apply wp.bind (wp.weaken (writeLog_spec hl rfl hclean rfl) fun d hd => .inl hd)
    intro _ m₁ h₁
    obtain ⟨hcl, hlog, hbuf, hlh, hfuel⟩ := h₁
    rw [wp_bind]
    apply wp_writeHead
    · intro h0
      exact .inl ⟨by omega, hcl⟩
    · intro hfuel₁
      have hk : m.lh.length < m.fuel := by omega
      generalize hm₂ : m₁.written sb.logstart (putHead (m₁.cache sb.logstart) m₁.lh) = m₂
      have hne (i : Nat) : sb.logstart + i + 1 ≠ sb.logstart := by omega
      have hcom : Committed m.disk m.cache m.lh m₂.disk := by
        rw [← hm₂]
        refine ⟨?_, fun i hi => ?_, fun b hb _ => ?_⟩
        · rw [m₁.written_self, hlh, getHead_putHead _ _ hl.length_lt hl.word]
        · rw [m₁.written_other _ (hne i), (hlog i hi).1]
        · have hb' : b ≠ sb.logstart := fun e => hb (e ▸ inLog_start)
          rw [m₁.written_other _ hb', hcl.blocks b hb]
      have hcache (i : Nat) (hi : i < m.lh.length) :
          m₂.cache (sb.logstart + i + 1) = m.cache (m.lh.getD i 0) := by
        rw [← hm₂, ← (hlog i hi).2]
        exact update_of_ne (hne i) ..
      have hbuf₂ (b : Nat) (hb : ¬ InLog b) : m₂.cache b = m.cache b := by
        have hb' : b ≠ sb.logstart := fun e => hb (e ▸ inLog_start)
        rw [← hm₂, ← hbuf b hb]
        exact update_of_ne hb' ..
      have hlh₂ : m₂.lh = m.lh := by rw [← hm₂, ← hlh]; rfl
      apply wp.bind (wp.weaken (installTrans_spec hcom hl hlh₂ hcache)
        fun d hd => .inr ⟨hk, .inl hd⟩)
      intro _ m₃ h₃
      obtain ⟨hcom₃, hin, hbuf₃⟩ := h₃
      rw [wp_bind, wp_clearHead]
      apply wp_writeHead fun _ => .inr ⟨hk, .inl hcom₃⟩
      intro _
      refine ⟨Clean.cleared (hcom₃.applied hin) _, .inl hk, fun b hb => ?_, rfl⟩
      have hb' : b ≠ sb.logstart := fun e => hb (e ▸ inLog_start)
      refine (update_of_ne hb' ..).trans ?_
      rw [hbuf₃ b fun hm => hbuf₂ b (hl.home b hm), hbuf₂ b hb]
  · next hzero =>
    have hnil : m.lh = [] := List.eq_nil_of_length_eq_zero (by omega)
    rw [wp_pure]
    refine ⟨?_, .inr hnil, fun _ _ => rfl, hnil⟩
    rw [hnil, applied_nil]
    exact hclean

variable {fuel : Nat}

theorem stopAfter_of_wp {c : LogM Unit}
    (h : wp E c { m with fuel := k } Q) (hQ : ∀ m', Q () m' → E m'.disk) :
    E (stopAfter k c m) := by
  unfold wp at h
  unfold stopAfter
  cases hc : c { m with fuel := k } with
  | ok p => rw [hc] at h; exact hQ _ h
  | error d => rw [hc] at h; exact h

theorem stopped_commit (hl : Loggable m.lh) (hhead : headCount (m.disk sb.logstart) = 0) (k : Nat) :
    Stopped m.disk m.cache m.lh k (stopAfter k commit m) := by
  have hspec := @commit_spec { m with fuel := k } hl hhead
  apply stopAfter_of_wp hspec
  intro m' h
  obtain ⟨hclean, hk, -⟩ := h
  rcases hk with hlt | hnil
  · exact .inr ⟨hlt, .inr hclean⟩
  · change m.lh = [] at hnil
    change Clean (applied m.disk m.cache m.lh) m'.disk at hclean
    by_cases hlt : m.lh.length < k
    · exact .inr ⟨hlt, .inr hclean⟩
    · rw [hnil, applied_nil] at hclean
      exact .inl ⟨Nat.not_lt.1 hlt, hclean⟩

theorem recover_stopped (h : Stopped old new lh k d) (hl : Loggable lh) :
    wp (Stopped old new lh k) recoverFromLog (.powerOn d fuel) fun _ m' =>
      k ≤ lh.length ∧ Clean old m'.disk ∨ lh.length < k ∧ Clean (applied old new lh) m'.disk := by
  rcases h with ⟨hk, hclean⟩ | ⟨hk, hcom | hclean⟩
  · apply ((recover_clean hclean).weaken fun d hd => .inl ⟨hk, hd⟩).mono
    intro _ m' hm
    exact .inl ⟨hk, hm⟩
  · apply ((recover_committed hcom hl).weaken fun d hd => .inr ⟨hk, hd⟩).mono
    intro _ m' hm
    exact .inr ⟨hk, hm⟩
  · apply ((recover_clean hclean).weaken fun d hd => .inr ⟨hk, .inr hd⟩).mono
    intro _ m' hm
    exact .inr ⟨hk, hm⟩

theorem stopped_interrupted (h : Stopped old new lh k d) (hl : Loggable lh) (ks : List Nat) :
    Stopped old new lh k (interrupted d ks) := by
  induction ks generalizing d with
  | nil => exact h
  | cons j ks ih =>
    apply ih
    apply stopAfter_of_wp (recover_stopped h hl)
    intro m' hm
    rcases hm with ⟨hk, hclean⟩ | ⟨hk, hclean⟩
    · exact .inl ⟨hk, hclean⟩
    · exact .inr ⟨hk, .inr hclean⟩

theorem installTrans_returns (h : m.lh.length ≤ m.fuel) :
    wp (fun _ => False) installTrans m fun _ m' => m'.fuel + m.lh.length = m.fuel := by
  unfold installTrans
  rw [wp_bind, wp_get]
  refine wp.mono (wp_loop (fun i _ m' => m'.fuel + i = m.fuel) rfl ?_) ?_
  · intro i _ m₁ _ hi hfuel
    rw [wp_bind, wp_readBuf]
    apply wp_bwrite
    · intro h0
      omega
    · intro hpos
      change m₁.fuel - 1 + (i + 1) = m.fuel
      omega
  · intro _ m' hfuel
    rwa [Nat.zero_add] at hfuel

theorem recover_returns (h : headCount (d sb.logstart) < fuel) :
    wp (fun _ => False) recoverFromLog (.powerOn d fuel) fun _ _ => True := by
  have hlen : (getHead (d sb.logstart)).length = headCount (d sb.logstart) := by
    rw [getHead, List.length_map, List.length_range]
  simp only [recoverFromLog, wp_bind, wp_readHead]
  apply (installTrans_returns (by rw [← hlen] at h; exact h.le)).mono
  intro _ m' hfuel
  change m'.fuel + (getHead (d sb.logstart)).length = fuel at hfuel
  rw [wp_clearHead]
  apply wp_writeHead
  · intro h0
    change m'.fuel = 0 at h0
    omega
  · intro _
    trivial

theorem recover_disk (h : headCount (d sb.logstart) < fuel) :
    ∃ m', recoverFromLog (.powerOn d fuel) = .ok ((), m') ∧
      stopAfter fuel recoverFromLog (.powerOn d 0) = m'.disk := by
  obtain ⟨_, m', hok⟩ := (recover_returns h).returns
  refine ⟨m', hok, ?_⟩
  unfold stopAfter
  have he : { Machine.powerOn d 0 with fuel := fuel } = Machine.powerOn d fuel := rfl
  rw [he, hok]

theorem Stopped.headCount_lt (h : Stopped old new lh k d) (hl : Loggable lh) :
    headCount (d sb.logstart) < sb.nlog := by
  rcases h with ⟨-, hclean⟩ | ⟨-, hcom | hclean⟩
  · rw [hclean.head]
    decide
  · have hlen : (getHead (d sb.logstart)).length = headCount (d sb.logstart) := by
      rw [getHead, List.length_map, List.length_range]
    have hroom : lh.length ≤ 29 := hl.room
    rw [← hlen, hcom.head]
    exact Nat.lt_succ_of_le hroom
  · rw [hclean.head]
    decide

/-- A transaction is installed completely or not at all, wherever commit and recoveries are stopped.
-/
theorem commit_atomic (hl : Loggable m.lh) (hhead : headCount (m.disk sb.logstart) = 0) (k : Nat)
    (ks : List Nat) (fuel : Nat) :
    (sb.nlog ≤ fuel → ∃ m', recoverFromLog (.powerOn (interrupted (stopAfter k commit m) ks) fuel) =
      .ok ((), m')) ∧
    ∀ m', recoverFromLog (.powerOn (interrupted (stopAfter k commit m) ks) fuel) = .ok ((), m') →
      ((∀ b ∈ m.lh, m'.disk b = m.cache b) ∨ ∀ b ∈ m.lh, m'.disk b = m.disk b) ∧
      (m.lh.length < k → ∀ b ∈ m.lh, m'.disk b = m.cache b) ∧
      (∀ b, b ∉ m.lh → ¬ InLog b → m'.disk b = m.disk b) ∧
      headCount (m'.disk sb.logstart) = 0 := by
  have hstop := stopped_interrupted (stopped_commit hl hhead k) hl ks
  generalize interrupted (stopAfter k commit m) ks = d at hstop
  constructor
  · intro hfuel
    have hlt := Nat.lt_of_lt_of_le (hstop.headCount_lt hl) hfuel
    obtain ⟨m', hok, -⟩ := recover_disk hlt
    exact ⟨m', hok⟩
  · intro m' hok
    rcases (recover_stopped hstop hl).of_ok hok with ⟨hk, hclean⟩ | ⟨hk, hclean⟩
    · refine ⟨.inr fun b hb => hclean.blocks b (hl.home b hb), fun hlt => ?_, fun b _ hlog => ?_,
        hclean.head⟩
      · exact absurd hlt (Nat.not_lt.2 hk)
      · exact hclean.blocks b hlog
    · have hnew : ∀ b ∈ m.lh, m'.disk b = m.cache b := by
        intro b hb
        rw [hclean.blocks b (hl.home b hb), applied, if_pos hb]
      refine ⟨.inl hnew, fun _ => hnew, fun b hb hlog => ?_, hclean.head⟩
      rw [hclean.blocks b hlog, applied, if_neg hb]

def twoBlocks : Machine where
  disk _ := zeroBytes
  cache _ _ := 7
  lh := [3000, 4000]
  fuel := 0

theorem commit_atomic_twoBlocks : ∃ m', recoverFromLog
    (.powerOn (interrupted (stopAfter 4 commit twoBlocks) [1, 0, 2]) 30) = .ok ((), m') ∧
    m'.disk 3000 = twoBlocks.cache 3000 ∧ m'.disk 4000 = twoBlocks.cache 4000 := by
  have hl : Loggable twoBlocks.lh := ⟨by decide, by decide, by decide⟩
  obtain ⟨hret, hall⟩ := commit_atomic hl (by decide) 4 [1, 0, 2] 30
  obtain ⟨m', hok⟩ := hret (by decide)
  obtain ⟨-, hnew, -⟩ := hall m' hok
  exact ⟨m', hok, hnew (by decide) 3000 (by decide), hnew (by decide) 4000 (by decide)⟩

end OopsOS
