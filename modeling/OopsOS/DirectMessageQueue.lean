import Mathlib
import OopsOS.Limits
import OopsOS.Traces

namespace OopsOS
set_option autoImplicit true
open Function

variable {next next' : Nat → Nat} {a b c : Nat} {l : List Nat}

/-- The nodes `l`, each with a link to the next one, from `a` up to the null pointer. -/
def Linked (next : Nat → Nat) : Nat → List Nat → Prop
  | a, [] => a = 0
  | a, b :: l => a = b ∧ b ≠ 0 ∧ Linked next (next b) l

theorem Linked.ne_zero (h : Linked next a l) (b : Nat) (hb : b ∈ l) : b ≠ 0 := by
  induction l generalizing a with
  | nil => cases hb
  | cons x l ih =>
    obtain ⟨-, hx, hl⟩ := h
    rcases List.mem_cons.1 hb with rfl | hb
    · exact hx
    · exact ih hl hb

theorem Linked.snoc (h : Linked next a (l ++ [b])) (hsame : ∀ x ∈ l, next' x = next x)
    (hb : next' b = c)
    (hc : c ≠ 0) (hend : next' c = 0) : b ≠ 0 ∧ Linked next' a (l ++ [b] ++ [c]) := by
  induction l generalizing a with
  | nil =>
    obtain ⟨rfl, ha, -⟩ := h
    exact ⟨ha, rfl, ha, hb, hc, hend⟩
  | cons x l ih =>
    obtain ⟨rfl, ha, hl⟩ := h
    rw [← hsame a List.mem_cons_self] at hl
    obtain ⟨hb, hl⟩ := ih hl fun x hx => hsame x (List.mem_cons_of_mem _ hx)
    exact ⟨hb, rfl, ha, hl⟩

theorem Linked.push (h : Linked next a l) (hl : l.Nodup) (hc : c ∉ l) (h0 : c ≠ 0)
    (ht : t = l.getLastD 0) :
    Linked (if t ≠ 0 then update (update next c 0) t c else update next c 0)
      (if t ≠ 0 then a else c) (l ++ [c]) := by
  subst ht
  rcases List.eq_nil_or_concat l with rfl | ⟨l, b, rfl⟩
  · exact ⟨rfl, h0, update_self ..⟩
  · rw [List.concat_eq_append] at h hl hc ⊢
    rw [List.getLastD_concat]
    have hbl : b ∉ l := fun hb => (List.nodup_append.1 hl).2.2 b hb b List.mem_cons_self rfl
    have hcb : c ≠ b := fun he => hc (by simp [he])
    have hsame (x : Nat) (hx : x ∈ l) : update (update next c 0) b c x = next x := by
      rw [update_of_ne (by rintro rfl; exact hbl hx), update_of_ne (by rintro rfl; simp [hx] at hc)]
    obtain ⟨hb, hlinked⟩ := h.snoc hsame (update_self ..) h0 (by rw [update_of_ne hcb, update_self])
    rwa [if_pos hb, if_pos hb]

namespace Dmq

structure Message where
  sender : Nat
  bytes : List UInt8
deriving DecidableEq

/-- A `dmsgrcv` that has returned, with -1 if there is no result, and what it has taken. -/
structure Call where
  result : Option Message
  removed : List Message

/-- The queue of a live process. `hand` is the message of a `dmsgrcv` past the lock; `sent` and
`calls` are not of the kernel. -/
structure State where
  next : Nat → Nat
  msg : Nat → Message
  head : Nat
  tail : Nat
  count : Int
  bytes : Int
  killed : Bool
  used : List Nat
  hand : Option (Nat × Message)
  sent : List Message
  calls : List Call

/-- What the calls do with the lock held, with the page of `kalloc` or 0, and the end of `dmsgrcv`.
-/
inductive Event where
  | send (sender : Nat) (data : List UInt8) (page : Nat)
  | rcv (len : Int)
  | kfree
  | copyout (ok : Bool)
  | kill

def State.append (s : State) (m : Message) (page : Nat) : State :=
  { s with
    next := if s.tail ≠ 0 then update (update s.next page 0) s.tail page else update s.next page 0
    msg := update s.msg page m
    head := if s.tail ≠ 0 then s.head else page
    tail := page
    count := s.count + 1
    bytes := s.bytes + m.bytes.length
    used := page :: s.used
    sent := s.sent ++ [m] }

def State.returns (s : State) (result : Option Message) (removed : List Message) : State :=
  { s with hand := none, calls := s.calls ++ [⟨result, removed⟩] }

def State.dmsgrcv (s : State) (len : Int) : State :=
  if len < 0 ∨ DMSG_MAX < len then s.returns none []
  else if s.count = 0 then if s.killed then s.returns none [] else s
  else if len < (s.msg s.head).bytes.length then s.returns none []
  else { s with
    head := s.next s.head
    tail := if s.next s.head = 0 then 0 else s.tail
    count := s.count - 1
    bytes := s.bytes - (s.msg s.head).bytes.length
    hand := some (s.head, s.msg s.head) }

def fire (s : State) : Event → Option State
  | .send sender data page =>
    if data.length ≤ DMSG_MAX ∧ page ∉ s.used then
      some (if s.count < DMSG_QUEUE_MAX ∧ page ≠ 0 then s.append ⟨sender, data⟩ page else s)
    else none
  | .rcv len => if s.hand = none then some (s.dmsgrcv len) else none
  | .kfree => s.hand.map fun (a, m) => { s with used := s.used.erase a, hand := some (0, m) }
  | .copyout ok => match s.hand with
    | some (0, m) => some (s.returns (if m.bytes ≠ [] ∧ ok = false then none else some m) [m])
    | _ => none
  | .kill => some { s with killed := true }

/-- The pages hold the messages sent and not taken, in order, and the counters are right. -/
structure Holds (s : State) (pages : List Nat) : Prop where
  linked : Linked s.next s.head pages
  count : s.count = pages.length
  bytes : s.bytes = (pages.map fun a => ((s.msg a).bytes.length : Int)).sum
  bound : pages.length ≤ DMSG_QUEUE_MAX
  order : s.calls.flatMap Call.removed ++ (s.hand.map Prod.snd).toList ++ pages.map s.msg = s.sent
  delivered : ∀ c ∈ s.calls, ∀ m, c.result = some m → c.removed = [m]

def State.Fifo (s : State) : Prop := ∃ pages, Holds s pages

/-- A call that returned -1 has taken nothing. -/
def State.Intact (s : State) : Prop := ∀ c ∈ s.calls, c.result = none → c.removed = []

/-- No message is in hand when a copy to the user fails, or it has no bytes. -/
def Copied (s : State) : Event → Prop
  | .copyout false => ∀ m, s.hand = some (0, m) → m.bytes = []
  | _ => True

structure Inv (s : State) (pages : List Nat) : Prop extends Holds s pages where
  tail : s.tail = pages.getLastD 0
  nodup : pages.Nodup
  used : ∀ a ∈ pages, a ∈ s.used
  hand : ∀ a m, s.hand = some (a, m) → a ≠ 0 → a ∈ s.used ∧ a ∉ pages

variable {s s' : State} {m : Message} {pages : List Nat} {e : Event}

theorem Inv.returns (h : Inv s pages) (hr : ∀ m, r = some m → q = [m])
    (hq : q = (s.hand.map Prod.snd).toList) : Inv (s.returns r q) pages := by
  refine { h with order := ?_, delivered := ?_, hand := nofun }
  · simpa [State.returns, hq] using h.order
  · simp only [State.returns, List.mem_append, List.mem_singleton]
    rintro c (hc | rfl)
    · exact h.delivered c hc
    · exact hr

theorem Inv.append (h : Inv s pages) (hpage : page ∉ s.used) (h0 : page ≠ 0)
    (hroom : s.count < DMSG_QUEUE_MAX) : Inv (s.append m page) (pages ++ [page]) := by
  have hnew : page ∉ pages := fun hp => hpage (h.used page hp)
  have hmsg (a : Nat) (ha : a ∈ pages) : update s.msg page m a = s.msg a :=
    update_of_ne (by rintro rfl; exact hnew ha) ..
  have hcount := h.count
  refine ⟨⟨h.linked.push h.nodup hnew h0 h.tail, ?_, ?_, ?_, ?_, h.delivered⟩, ?_, ?_, ?_, ?_⟩
  · simp [State.append, hcount]
  · have hlength (a : Nat) (ha : a ∈ pages) :
        ((update s.msg page m a).bytes.length : Int) = (s.msg a).bytes.length := by rw [hmsg a ha]
    simp [State.append, h.bytes, List.map_congr_left hlength]
  · rw [List.length_append]
    simp only [List.length_singleton]
    omega
  · simp [State.append, List.map_congr_left hmsg, ← h.order]
  · simp [State.append]
  · rw [List.nodup_append]
    refine ⟨h.nodup, by simp, fun a ha b hb he => hnew ?_⟩
    rwa [← List.mem_singleton.1 hb, ← he]
  · intro a ha
    rcases List.mem_append.1 ha with ha | ha
    · exact List.mem_cons_of_mem _ (h.used a ha)
    · exact List.mem_cons.2 (.inl (List.mem_singleton.1 ha))
  · intro a m ha ha0
    obtain ⟨hu, hn⟩ := h.hand a m ha ha0
    refine ⟨List.mem_cons_of_mem _ hu, ?_⟩
    simp only [List.mem_append, List.mem_singleton, hn, false_or]
    exact fun he => hpage (he ▸ hu)

theorem Inv.dmsgrcv (h : Inv s pages) (hhand : s.hand = none) (len : Int) :
    ∃ l, Inv (s.dmsgrcv len) l := by
  have hback : ∃ l, Inv (s.returns none []) l := ⟨pages, h.returns nofun (by rw [hhand]; rfl)⟩
  unfold State.dmsgrcv
  split
  · exact hback
  split
  · split
    · exact hback
    · exact ⟨pages, h⟩
  next hcount =>
  split
  · exact hback
  · have horder := h.order
    have hbytes := h.bytes
    have hbound := h.bound
    have htail := h.tail
    rw [h.count] at hcount
    cases pages with
    | nil => simp at hcount
    | cons a l =>
      obtain ⟨he, -, hl⟩ := h.linked
      rw [he]
      obtain ⟨ha, hnodup⟩ := List.nodup_cons.1 h.nodup
      refine ⟨l, ⟨hl, ?_, ?_, Nat.le_of_succ_le hbound, ?_, h.delivered⟩, ?_, hnodup,
        fun b hb => h.used b (List.mem_cons_of_mem _ hb), ?_⟩
      · simp [h.count]
      · simp [hbytes]
      · simpa [hhand] using horder
      · cases l with
        | nil => exact if_pos hl
        | cons b l => exact (if_neg (hl.1 ▸ hl.2.1)).trans htail
      · rintro b m ⟨⟩ -
        exact ⟨h.used a List.mem_cons_self, ha⟩

theorem of_copyout (hf : fire s (.copyout ok) = some s') : ∃ m, s.hand = some (0, m) ∧
    s' = s.returns (if m.bytes ≠ [] ∧ ok = false then none else some m) [m] := by
  simp only [fire] at hf
  split at hf
  · next m hhand => exact ⟨m, hhand, (Option.some_inj.1 hf).symm⟩
  · cases hf

theorem Inv.fire (h : Inv s pages) (hf : fire s e = some s') : ∃ l, Inv s' l := by
  cases e with
  | send sender data page =>
    obtain ⟨⟨-, hpage⟩, rfl⟩ := of_guarded hf
    split
    · next hroom => exact ⟨_, h.append hpage hroom.2 hroom.1⟩
    · exact ⟨pages, h⟩
  | rcv len =>
    obtain ⟨hhand, rfl⟩ := of_guarded hf
    exact h.dmsgrcv hhand len
  | kfree =>
    obtain ⟨⟨a, m⟩, hhand, rfl⟩ := Option.map_eq_some_iff.1 hf
    refine ⟨pages,
      { h with order := by simpa [hhand] using h.order, used := fun b hb => ?_, hand := ?_ }⟩
    · have hne : b ≠ a := by
        rintro rfl
        exact (h.hand b m hhand (h.linked.ne_zero b hb)).2 hb
      exact (List.mem_erase_of_ne hne).2 (h.used b hb)
    · rintro b m ⟨⟩ h0
      exact (h0 rfl).elim
  | copyout ok =>
    obtain ⟨m, hhand, rfl⟩ := of_copyout hf
    refine ⟨pages, h.returns (fun m' hm => ?_) (by rw [hhand]; rfl)⟩
    split at hm <;> cases hm
    rfl
  | kill =>
    cases hf
    exact ⟨pages, { h with }⟩

theorem dmsgrcv_calls (s : State) (len : Int) :
    (s.dmsgrcv len).calls = s.calls ∨ (s.dmsgrcv len).calls = s.calls ++ [⟨none, []⟩] := by
  unfold State.dmsgrcv
  split_ifs <;> simp [State.returns]

theorem intact_snoc {c : Call} (hcalls : s'.calls = s.calls ++ [c]) :
    s'.Intact ↔ s.Intact ∧ (c.result = none → c.removed = []) := by
  simp [State.Intact, hcalls, or_imp, forall_and]

theorem intact_iff (hf : fire s e = some s') : s'.Intact ↔ s.Intact ∧ Copied s e := by
  cases e with
  | send sender data page =>
    obtain ⟨-, rfl⟩ := of_guarded hf
    split <;> exact (and_iff_left trivial).symm
  | rcv len =>
    obtain ⟨-, rfl⟩ := of_guarded hf
    obtain he | he := dmsgrcv_calls s len
    · rw [State.Intact, he]
      exact (and_iff_left trivial).symm
    · rw [intact_snoc he]
      exact and_congr_right fun _ => iff_of_true (fun _ => rfl) trivial
  | kfree =>
    obtain ⟨_, -, rfl⟩ := Option.map_eq_some_iff.1 hf
    exact (and_iff_left trivial).symm
  | copyout ok =>
    obtain ⟨m, hhand, rfl⟩ := of_copyout hf
    rw [intact_snoc rfl]
    cases ok <;> simp [Copied, hhand]
  | kill =>
    cases hf
    exact (and_iff_left trivial).symm

def boot : State := ⟨fun _ => 0, fun _ => ⟨0, []⟩, 0, 0, 0, 0, false, [], none, [], []⟩

theorem boot_inv : Inv boot [] :=
  ⟨⟨rfl, rfl, rfl, by decide, rfl, nofun⟩, rfl, List.nodup_nil, nofun, nofun⟩

/-- The queue is first in, first out. A `dmsgrcv` that returns -1 has taken nothing exactly if no
copy fails. -/
theorem dmsg_fifo_iff (es : List Event) : Always fire State.Fifo boot es ∧
    (Always fire State.Intact boot es ↔ Along fire Copied boot es) := by
  constructor
  · refine (Along.of_forall (P := fun _ _ => True) (fun _ _ => trivial) boot es).always
      (I := fun s => ∃ l, Inv s l) ?_ ?_ ⟨[], boot_inv⟩
    · rintro s ⟨l, h⟩
      exact ⟨l, h.toHolds⟩
    · rintro s e s' ⟨l, h⟩ - hf
      exact h.fire hf
  · exact always_iff_along (I := State.Intact) (fun _ h => h)
      (fun _ _ _ h hc hf => (intact_iff hf).2 ⟨h, hc⟩)
      (fun _ _ _ _ hc hf h => hc ((intact_iff hf).1 h).2) nofun

/-- The copy to the user fails: the call returns -1, and the message is lost. -/
theorem dmsg_lost :
    ∃ s, runEvents fire boot [.send 1 [7] 4096, .rcv 1, .kfree, .copyout false] = some s ∧
    s.count = 0 ∧ ¬ s.Intact := by
  refine ⟨_, rfl, rfl, fun h => ?_⟩
  have hcall := h ⟨none, [⟨1, [7]⟩]⟩ List.mem_cons_self rfl
  cases hcall

end Dmq

end OopsOS
