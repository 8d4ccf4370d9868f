import Mathlib

namespace OopsOS.History
set_option autoImplicit true
open Function

abbrev HIST_MAX : Nat := 16

abbrev MAXBUF : Nat := 128

/-- A line without blanks at its ends that fits in the buffers, so no copy is cut off. -/
abbrev Line := { text : List UInt8 // text.length < MAXBUF }

structure Hist where
  history : Nat → Line
  head : Nat
  size : Nat
  head_lt : head < HIST_MAX
  bound : size ≤ HIST_MAX

def Hist.add (h : Hist) (line : Line) : Hist :=
  if line.1 = [] then h
  else
    { history := update h.history h.head line
      head := (h.head + 1) % HIST_MAX
      size := if h.size < HIST_MAX then h.size + 1 else h.size
      head_lt := Nat.mod_lt _ (by decide)
      bound := by
        have := h.bound
        split <;> omega }

def Hist.get (h : Hist) (posNewest : Nat) : Line :=
  h.history (((h.head : Int) - 1 - posNewest) % HIST_MAX).toNat

def Hist.print (h : Hist) : List (Nat × Line) :=
  (List.range h.size).reverse.map fun i => (h.size - i, h.get i)

def bangBang : Line := ⟨[33, 33], by decide⟩

def historyLine : Line := ⟨[104, 105, 115, 116, 111, 114, 121], by decide⟩

inductive Expansion where
  | none
  | failed
  | line (out : Line)

def Hist.expand (atoi : List UInt8 → Int) (h : Hist) (line : Line) : Expansion :=
  if line.1.head? ≠ some 33 then .none
  else if h.size = 0 then .failed
  else if line = bangBang then .line (h.get 0)
  else
    let n := atoi line.1.tail
    if n ≤ 0 ∨ h.size < n then .failed else .line (h.get (h.size - n.toNat))

inductive Outcome where
  | refused
  | printed (l : List (Nat × Line))
  | ran (line : Line)
deriving DecidableEq

def Hist.run (h : Hist) (line : Line) : Outcome :=
  if line = historyLine then .printed h.print else .ran line

/-- `getcmd` records the line, and `main` expands and runs it. -/
def Hist.enter (atoi : List UInt8 → Int) (h : Hist) (line : Line) : Hist × Outcome :=
  let h := h.add line
  (h, match h.expand atoi line with
    | .none => h.run line
    | .failed => .refused
    | .line out => h.run out)

/-- The outcome is that of the line with the number `n` in a list, or a refusal if there is none. -/
def Recalls (h : Hist) (list : List (Nat × Line)) (n : Nat) (r : Outcome) : Prop :=
  (∀ line, (n, line) ∈ list → r = h.run line) ∧ ((∀ line, (n, line) ∉ list) → r = .refused)

variable {h : Hist} {line : Line} {n i : Nat} {atoi : List UInt8 → Int}

theorem get_add_zero (hline : line.1 ≠ []) : (h.add line).get 0 = line := by
  have hidx : (((h.head + 1) % HIST_MAX : Nat) - 1 - (0 : Nat) : Int) % HIST_MAX = h.head := by
    have hhead := h.head_lt
    simp only [HIST_MAX] at hhead ⊢
    omega
  rw [Hist.add, if_neg hline, Hist.get, hidx]
  exact update_self ..

theorem get_add_succ (hline : line.1 ≠ []) (hi : i + 1 < HIST_MAX) :
    (h.add line).get (i + 1) = h.get i := by
  have hhead := h.head_lt
  simp only [HIST_MAX] at hi hhead
  have hidx : (((h.head + 1) % HIST_MAX : Nat) - 1 - (i + 1 : Nat) : Int) % HIST_MAX =
      ((h.head : Int) - 1 - i) % HIST_MAX := by
    simp only [HIST_MAX]
    omega
  rw [Hist.add, if_neg hline, Hist.get, Hist.get, hidx]
  refine update_of_ne (fun he => ?_) ..
  simp only [HIST_MAX] at he
  omega

theorem size_add (hline : line.1 ≠ []) : (h.add line).size = if h.size < HIST_MAX then h.size + 1
    else h.size := by
  rw [Hist.add, if_neg hline]

theorem mem_print : (n, line) ∈ h.print ↔ 0 < n ∧ n ≤ h.size ∧ line = h.get (h.size - n) := by
  simp only [Hist.print, List.mem_map, List.mem_reverse, List.mem_range, Prod.mk.injEq]
  constructor
  · rintro ⟨i, hi, rfl, rfl⟩
    exact ⟨by omega, by omega, by rw [Nat.sub_sub_self hi.le]⟩
  · rintro ⟨hpos, hle, rfl⟩
    exact ⟨h.size - n, by omega, by omega, rfl⟩

theorem recalls_iff {h' : Hist} (hn : 0 < n) : Recalls h' h.print n r ↔
    r = if n ≤ h.size then h'.run (h.get (h.size - n)) else .refused := by
  simp only [Recalls, mem_print, hn, true_and]
  split
  · next hle => simp [hle]
  · next hgt => simp [hgt]

theorem run_inj {line' : Line} : h.run line = h.run line' ↔ line = line' := by
  refine ⟨fun heq => ?_, congrArg _⟩
  unfold Hist.run at heq
  split at heq <;> split at heq <;> simp_all

theorem enter_number (hbang : line.1.head? = some 33) (hne : line ≠ bangBang)
    (hatoi : atoi line.1.tail = n) (hn : 0 < n) : (h.enter atoi line).2 =
      if n ≤ (h.add line).size then (h.add line).run ((h.add line).get ((h.add line).size - n))
        else .refused := by
  simp only [Hist.enter, Hist.expand, hbang, hatoi, ne_eq, not_true_eq_false, if_false, if_neg hne]
  by_cases hle : n ≤ (h.add line).size
  · rw [if_neg (by omega), if_neg (by omega), if_pos hle, Int.toNat_natCast]
  · rw [if_pos (Or.inr (show (n : Int) > (h.add line).size by omega)), ite_self, if_neg hle]

theorem size_pos (hline : line.1 ≠ []) : 0 < (h.add line).size := by
  rw [size_add hline]
  split
  · exact Nat.succ_pos _
  · next hfull => exact Nat.lt_of_lt_of_le (by decide) (Nat.not_lt.1 hfull)

/-- `!!` runs itself. After `history`, `!n` recalls what was printed as `n` exactly if the table is
not full and `n` not its own number, or it is full and `n` too large or the next line the same. -/
theorem history_expansion_iff (h₀ : Hist) : (h₀.enter atoi bangBang).2 = .ran bangBang ∧
    ∀ h, h = (h₀.enter atoi historyLine).1 → ∀ (line : Line) (n : Nat), line.1.head? = some 33 →
      line ≠ bangBang → atoi line.1.tail = n → 0 < n →
        (Recalls (h.add line) h.print n (h.enter atoi line).2 ↔
        if h.size < HIST_MAX then n ≠ h.size + 1
        else n ≠ HIST_MAX ∧ (n < HIST_MAX → h.get (HIST_MAX - 1 - n) = h.get (HIST_MAX - n))) := by
  constructor
  · have hpos : 0 < (h₀.add bangBang).size := size_pos (by decide)
    have hget : (h₀.add bangBang).get 0 = bangBang := get_add_zero (by decide)
    simp only [Hist.enter, Hist.expand, hget, if_neg hpos.ne']
    rfl
  · intro h hh line n hbang hne hatoi hn
    have hline : line.1 ≠ [] := fun he => by simp [he] at hbang
    have hnot : line ≠ historyLine := fun he => by simp [he, historyLine] at hbang
    have hlast : h.get 0 = historyLine := by
      rw [hh]
      exact get_add_zero (show historyLine.1 ≠ [] by decide)
    have hself : (h.add line).run ((h.add line).get 0) = .ran line := by
      rw [get_add_zero hline, Hist.run, if_neg hnot]
    have hbound := h.bound
    rw [recalls_iff hn, enter_number hbang hne hatoi hn, size_add hline]
    by_cases hroom : h.size < HIST_MAX
    · rw [if_pos hroom, if_pos hroom]
      obtain hle | rfl | hgt : n ≤ h.size ∨ n = h.size + 1 ∨ h.size + 1 < n := by omega
      · rw [if_pos (by omega), if_pos hle, Nat.succ_sub hle, get_add_succ hline (by omega)]
        exact iff_of_true rfl (by omega)
      · rw [if_pos le_rfl, if_neg (by omega), Nat.sub_self, hself]
        exact iff_of_false nofun fun hno => hno rfl
      · rw [if_neg (by omega), if_neg (by omega)]
        exact iff_of_true rfl (by omega)
    · have hfull : h.size = HIST_MAX := by omega
      rw [if_neg hroom, if_neg hroom, hfull]
      obtain hlt | rfl | hgt := lt_trichotomy n HIST_MAX
      · have hget : (h.add line).get (HIST_MAX - n) = h.get (HIST_MAX - 1 - n) := by
          rw [show HIST_MAX - n = HIST_MAX - 1 - n + 1 by omega]
          exact get_add_succ hline (by omega)
        rw [if_pos hlt.le, if_pos hlt.le, run_inj, hget]
        exact ⟨fun he => ⟨hlt.ne, fun _ => he⟩, fun he => he.2 hlt⟩
      · rw [if_pos le_rfl, if_pos le_rfl, Nat.sub_self, hself, hlast]
        exact iff_of_false (by simp [Hist.run]) fun hno => hno.1 rfl
      · rw [if_neg (Nat.not_le.2 hgt), if_neg (Nat.not_le.2 hgt)]
        exact iff_of_true rfl ⟨hgt.ne', fun hlt => absurd hlt hgt.not_gt⟩

def Hist.boot : Hist := ⟨fun _ => ⟨[], by decide⟩, 0, 0, by decide, Nat.zero_le _⟩

/-- `history`, then `!1`. -/
theorem history_expansion_first :
    let h := (Hist.boot.enter (fun _ => 1) historyLine).1
    let line : Line := ⟨[33, 49], by decide⟩
    Recalls (h.add line) h.print 1 (h.enter (fun _ => 1) line).2 :=
  ((history_expansion_iff .boot).2 _ rfl _ 1 rfl (by decide) rfl one_pos).2 (by decide)

/-- `ls`, then `!!` runs `!!`. `history` prints one line, and `!2` is run and not refused. -/
theorem bang_runs_itself :
    let ls : Line := ⟨[108, 115], by decide⟩
    let line : Line := ⟨[33, 50], by decide⟩
    let h := (Hist.boot.enter (fun _ => 2) historyLine).1
    ((Hist.boot.enter (fun _ => 0) ls).1.enter (fun _ => 0) bangBang).2 = .ran bangBang ∧
      h.print = [(1, historyLine)] ∧ (h.enter (fun _ => 2) line).2 = .ran line := by
  decide

end OopsOS.History
