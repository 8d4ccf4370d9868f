import OopsOS.Ancestry
import OopsOS.Traces
import Mathlib.Data.Fintype.Defs

namespace OopsOS.RenameRaces
set_option autoImplicit true
open Function

abbrev Inum := Nat

abbrev ROOTINO : Inum := 1

inductive Elem (ν : Type) where
  | dot
  | dotdot
  | name (n : ν)
  deriving DecidableEq

/-- A path with a last component, and the directory where it starts: the root or the current one. -/
structure Path (ν : Type) where
  start : Inum
  dirs : List (Elem ν)
  last : Elem ν
  deriving DecidableEq

structure Call (ν : Type) where
  olddp : Inum
  oldname : ν
  newdp : Inum
  newname : ν
  deriving DecidableEq

/-- The next lock that a process in `sys_rename` acquires, or those that it still has to release. -/
inductive Pc (ν : Type) where
  | idle
  | oldParent (old new : Path ν) (ip : Inum) (elems : List (Elem ν))
  | newParent (old new : Path ν) (olddp ip : Inum) (elems : List (Elem ν))
  | ipCheck (c : Call ν) (ip : Inum) (elems : List (Elem ν))
  | descendant (c : Call ν) (inum cur : Inum)
  | lockFirst (c : Call ν)
  | lockSecond (c : Call ν)
  | lockIp (c : Call ν)
  | lockIp2 (c : Call ν) (ip : Inum)
  | out (held : List Inum)
  deriving DecidableEq

/-- The directories. A removed one is freed when nobody has a reference to it. -/
structure Dirs (ν : Type) where
  dir : Inum → Bool
  removed : Inum → Bool
  entries : Inum → ν → Option Inum
  dotdot : Inum → Inum

structure State (ν : Type) extends Dirs ν where
  lock : Inum → Option Nat
  pc : Nat → Pc ν

/-- `room` says that `dirlink` finds or allocates a place for the entry. -/
inductive Event (ν : Type) where
  | rename (p : Nat) (old new : Path ν)
  | step (p : Nat) (room : Bool)

variable {ν : Type} {t : Dirs ν} {s s' : State ν} {e : Event ν}
  {es : List (Event ν)} {p q : Nat} {c : Call ν} {x : Pc ν} {ip d : Inum} {r : Option Inum}

section
variable [DecidableEq ν] [Fintype ν]

def State.goto (s : State ν) (p : Nat) (x : Pc ν) : State ν := { s with pc := update s.pc p x }

def State.ilock (s : State ν) (p : Nat) (d : Inum) : State ν :=
  { s with lock := update s.lock d (some p) }

def Dirs.dirlookup (t : Dirs ν) (d : Inum) : Elem ν → Option Inum
  | .dot => some d
  | .dotdot => some (t.dotdot d)
  | .name n => t.entries d n

def Dirs.namex (t : Dirs ν) (ip : Inum) (elems : List (Elem ν)) (found : Inum → Pc ν)
    (more : Inum → List (Elem ν) → Pc ν) : Pc ν :=
  if t.dir ip then
    match elems with
    | [] => found ip
    | e :: es =>
      match t.dirlookup ip e with
      | none => .idle
      | some next => more next es
  else .idle

def afterParents (old new : Path ν) (olddp newdp : Inum) : Pc ν :=
  match old.last, new.last with
  | .name oldname, .name newname =>
    if olddp = newdp then .lockFirst ⟨olddp, oldname, newdp, newname⟩
    else .ipCheck ⟨olddp, oldname, newdp, newname⟩ old.start (old.dirs ++ [old.last])
  | _, _ => .idle

def Dirs.isdirempty (t : Dirs ν) (d : Inum) : Bool := decide (∀ n, t.entries d n = none)

def Dirs.permits (t : Dirs ν) (c : Call ν) (ip : Inum) (room : Bool) : Bool :=
  match t.entries c.newdp c.newname with
  | none => c.olddp = c.newdp ∨ room
  | some ip2 => if t.dir ip then t.dir ip2 ∧ t.isdirempty ip2 else ¬ t.dir ip2

/-- The writes: the new entry, the old one, `..` and the links of a directory that is replaced. -/
def Dirs.move (t : Dirs ν) (c : Call ν) (ip : Inum) (ip2 : Option Inum) : Dirs ν :=
  { t with
    entries := fun d n =>
      if d = c.olddp ∧ n = c.oldname then none
      else if d = c.newdp ∧ n = c.newname then some ip else t.entries d n
    removed := fun d => t.removed d || (t.dir ip && decide (ip2 = some d))
    dotdot := if t.dir ip ∧ c.olddp ≠ c.newdp then update t.dotdot ip c.newdp else t.dotdot }

def Call.parents (c : Call ν) : List Inum :=
  if c.olddp = c.newdp then [c.olddp] else [c.olddp, c.newdp]

def State.step (s : State ν) (p : Nat) (room : Bool) : Option (State ν) :=
  match s.pc p with
  | .idle => none
  | .oldParent old new ip elems =>
    if s.lock ip = none then
      some (s.goto p (s.namex ip elems (fun olddp => .newParent old new olddp new.start new.dirs)
        (.oldParent old new)))
    else none
  | .newParent old new olddp ip elems =>
    if s.lock ip = none then
      some (s.goto p (s.namex ip elems (afterParents old new olddp) (.newParent old new olddp)))
    else none
  | .ipCheck c ip elems =>
    if s.lock ip = none then
      match elems with
      | [] => some (s.goto p (if s.dir ip then .descendant c ip c.newdp else .lockFirst c))
      | _ :: _ => some (s.goto p (s.namex ip elems (fun _ => .idle) (.ipCheck c)))
    else none
  | .descendant c inum cur =>
    if s.lock cur = none then
      some (s.goto p (if cur = inum then .idle
        else if s.dotdot cur = cur then .lockFirst c else .descendant c inum (s.dotdot cur)))
    else none
  | .lockFirst c =>
    if s.lock (min c.olddp c.newdp) = none then
      some ((s.ilock p (min c.olddp c.newdp)).goto p
        (if c.olddp = c.newdp then .lockIp c else .lockSecond c))
    else none
  | .lockSecond c =>
    if s.lock (max c.olddp c.newdp) = none then
      some ((s.ilock p (max c.olddp c.newdp)).goto p (.lockIp c))
    else none
  | .lockIp c =>
    match s.entries c.olddp c.oldname with
    | none => some (s.goto p (.out c.parents))
    | some ip => if s.lock ip = none then some ((s.ilock p ip).goto p (.lockIp2 c ip)) else none
  | .lockIp2 c ip =>
    match s.entries c.newdp c.newname with
    | none =>
      let t := s.goto p (.out (ip :: c.parents))
      some (if s.permits c ip room then { t with toDirs := s.move c ip none } else t)
    | some ip2 =>
      if s.lock ip2 = none then
        let t := (s.ilock p ip2).goto p (.out (ip2 :: ip :: c.parents))
        some (if s.permits c ip room then { t with toDirs := s.move c ip (some ip2) } else t)
      else none
  | .out [] => some (s.goto p .idle)
  | .out (d :: held) => some ({ s with lock := update s.lock d none }.goto p (.out held))

def fire (s : State ν) : Event ν → Option (State ν)
  | .rename p old new =>
    match s.pc p with
    | .idle => if old ≠ new then some (s.goto p (.oldParent old new old.start old.dirs)) else none
    | _ => none
  | .step p room => s.step p room

def Dirs.Live (t : Dirs ν) (d : Inum) : Prop := t.dir d = true ∧ t.removed d = false

instance (t : Dirs ν) (d : Inum) : Decidable (t.Live d) := inferInstanceAs (Decidable (_ ∧ _))

/-- Each directory leads to the root by `..`, over directories that have a link. -/
def Dirs.Sound (t : Dirs ν) : Prop :=
  ∀ d, t.Live d → Rooted t.dotdot ROOTINO d ∧ (d ≠ ROOTINO → t.Live (t.dotdot d))

/-- When a directory is moved, its new parent has a link and is not below it. -/
def Clear (s : State ν) : Event ν → Prop
  | .rename .. => True
  | .step p room => ∀ c ip, s.pc p = .lockIp2 c ip → s.permits c ip room = true → s.dir ip = true →
    c.olddp ≠ c.newdp → s.Live c.newdp ∧ Avoids s.dotdot ROOTINO ip c.newdp

structure Tree (t : Dirs ν) : Prop where
  sound : t.Sound
  proper : ∀ d n i, t.entries d n = some i → i ≠ ROOTINO
  linked : ∀ d, t.dir d = true → t.removed d = false → d ≠ ROOTINO →
    ∃ n, t.entries (t.dotdot d) n = some d
  parent : ∀ d n i, t.entries d n = some i → t.dir i = true → t.dotdot i = d ∧ t.removed i = false
  single : ∀ d n m i, t.entries d n = some i → t.entries d m = some i → t.dir i = true → n = m

def Pc.Holds (x : Pc ν) (d : Inum) : Prop :=
  match x with
  | .lockSecond c => d = min c.olddp c.newdp
  | .lockIp c => d = c.olddp ∨ d = c.newdp
  | .lockIp2 c ip => d = c.olddp ∨ d = c.newdp ∨ d = ip
  | .out held => d ∈ held
  | _ => False

structure Locks (s : State ν) : Prop where
  held : ∀ p d, (s.pc p).Holds d → s.lock d = some p
  found : ∀ p c ip, s.pc p = .lockIp2 c ip →
    s.entries c.olddp c.oldname = some ip ∧ ip ∉ c.parents
  nodup : ∀ p l, s.pc p = .out l → l.Nodup

def Inv (s : State ν) : Prop := Tree s.toDirs ∧ Locks s

end

theorem Call.mem_parents (c : Call ν) : d ∈ c.parents ↔ d = c.olddp ∨ d = c.newdp := by
  unfold Call.parents
  split <;> grind

theorem Call.nodup_parents (c : Call ν) : c.parents.Nodup := by
  unfold Call.parents
  split <;> grind

theorem namex_idle
    {P : Pc ν → Prop} (hidle : P .idle) (hfound : ∀ i, P (found i)) (hmore : ∀ i l, P (more i l)) :
    P (t.namex ip elems found more) := by
  unfold Dirs.namex
  split
  · split
    · exact hfound ip
    · split
      · exact hidle
      · exact hmore _ _
  · exact hidle

def Pc.Bare : Pc ν → Prop
  | .lockSecond _ | .lockIp _ | .lockIp2 _ _ | .out _ => False
  | _ => True

theorem bare_afterParents (old new : Path ν) (i j : Inum) : (afterParents old new i j).Bare := by
  unfold afterParents
  split
  · split <;> trivial
  · trivial

section
variable (h : Locks s)
include h

theorem Locks.goto (hx : ∀ d, x.Holds d → (s.pc p).Holds d)
    (hfound : ∀ c ip, x = .lockIp2 c ip → s.entries c.olddp c.oldname = some ip ∧ ip ∉ c.parents)
    (hnodup : ∀ l, x = .out l → l.Nodup) : Locks (s.goto p x) := by
  obtain ⟨hheld, hfound', hnodup'⟩ := h
  constructor <;> simp only [State.goto, update_apply] <;> grind

theorem Locks.ilock (hfree : s.lock d = none) (hx : ∀ d', x.Holds d' → d' = d ∨ (s.pc p).Holds d')
    (hfound : ∀ c ip, x = .lockIp2 c ip → s.entries c.olddp c.oldname = some ip ∧ ip ∉ c.parents)
    (hnodup : ∀ l, x = .out l → l.Nodup) : Locks ((s.ilock p d).goto p x) := by
  obtain ⟨hheld, hfound', hnodup'⟩ := h
  constructor <;> simp only [State.goto, State.ilock, update_apply] <;> grind

theorem Locks.release {held : List Inum} (hpc : s.pc p = .out (d :: held)) :
    Locks ({ s with lock := update s.lock d none }.goto p (.out held)) := by
  obtain ⟨hheld, hfound, hnodup⟩ := h
  have hd := hheld p
  have hnd := hnodup p _ hpc
  simp only [hpc, Pc.Holds] at hd
  constructor <;> simp only [State.goto, update_apply] <;> grind [Pc.Holds]

theorem Locks.bare (hx : x.Bare) : Locks (s.goto p x) := by
  cases x <;> first | exact hx.elim | exact h.goto (fun _ hd => hd.elim) nofun nofun

theorem Locks.move [DecidableEq ν] (hother : ∀ q c' i, s.pc q = .lockIp2 c' i →
    c'.olddp ≠ c.olddp ∧ c'.olddp ≠ c.newdp) :
    Locks { s with toDirs := s.move c ip r } := by
  obtain ⟨hheld, hfound, hnodup⟩ := h
  constructor <;> simp only [Dirs.move] <;> grind

variable [DecidableEq ν] [Fintype ν]

theorem lockIp2_cases (hpc : s.pc p = .lockIp2 c ip) (hf : s.step p room = some s') :
    Locks s' ∧ s.entries c.newdp c.newname ≠ some ip ∧ s'.toDirs =
      if s.permits c ip room then s.move c ip (s.entries c.newdp c.newname) else s.toDirs := by
  have hheld := h.held p
  obtain ⟨-, hip⟩ := h.found p c ip hpc
  have hnd := c.nodup_parents
  have hother : ∀ q c' i, q ≠ p → s.pc q = .lockIp2 c' i → c'.olddp ≠ c.olddp ∧
    c'.olddp ≠ c.newdp := by
    intro q c' i hq hqpc
    have hheld' := h.held q c'.olddp
    simp only [hpc, hqpc, Pc.Holds, true_or, forall_const] at hheld hheld'
    grind
  simp only [hpc, Pc.Holds] at hheld
  simp only [State.step, hpc] at hf
  split at hf
  · next hnone =>
    cases hf
    have hout : Locks (s.goto p (.out (ip :: c.parents))) := by
      refine h.goto ?_ nofun ?_
      · simp only [hpc, Pc.Holds, List.mem_cons, Call.mem_parents]
        grind
      · grind
    refine ⟨?_, by simp [hnone], ?_⟩
    · split
      · exact hout.move (by simp only [State.goto, update_apply]; grind)
      · exact hout
    · rw [hnone]
      split <;> rfl
  · next ip2 hsome =>
    obtain ⟨hfree, rfl⟩ := of_guarded hf
    have hne : ip2 ≠ ip := by grind
    have hout : Locks ((s.ilock p ip2).goto p (.out (ip2 :: ip :: c.parents))) := by
      refine h.ilock hfree ?_ nofun ?_
      · simp only [hpc, Pc.Holds, List.mem_cons, Call.mem_parents]
        grind
      · grind [Call.mem_parents]
    refine ⟨?_, by simp [hsome, hne], ?_⟩
    · split
      · exact hout.move (by simp only [State.goto, State.ilock, update_apply]; grind)
      · exact hout
    · rw [hsome]
      split <;> rfl

theorem step_quiet {room : Bool} (hpc : ∀ c ip, s.pc p ≠ .lockIp2 c ip)
    (hf : s.step p room = some s') : Locks s' ∧ s'.toDirs = s.toDirs := by
  unfold State.step at hf
  split at hf
  · cases hf
  · next hp =>
    obtain ⟨-, rfl⟩ := of_guarded hf
    exact ⟨h.bare (namex_idle trivial (fun _ => trivial) fun _ _ => trivial), rfl⟩
  · next hp =>
    obtain ⟨-, rfl⟩ := of_guarded hf
    exact ⟨h.bare (namex_idle trivial (fun _ => bare_afterParents ..) fun _ _ => trivial),
      rfl⟩
  · next hp =>
    split at hf
    · split at hf
      · cases hf
        refine ⟨h.bare ?_, rfl⟩
        split <;> trivial
      · cases hf
        exact ⟨h.bare (namex_idle trivial (fun _ => trivial) fun _ _ => trivial),
          rfl⟩
    · cases hf
  · next hp =>
    obtain ⟨-, rfl⟩ := of_guarded hf
    refine ⟨h.bare ?_, rfl⟩
    split
    · trivial
    · split <;> trivial
  · next c hp =>
    obtain ⟨hfree, rfl⟩ := of_guarded hf
    refine ⟨h.ilock hfree ?_ (by grind) (by grind), rfl⟩
    grind [Pc.Holds]
  · next c hp =>
    obtain ⟨hfree, rfl⟩ := of_guarded hf
    refine ⟨h.ilock hfree ?_ nofun nofun, rfl⟩
    simp only [hp, Pc.Holds]
    grind
  · next c hp =>
    split at hf
    · cases hf
      refine ⟨h.goto ?_ nofun ?_, rfl⟩
      · simp only [hp, Pc.Holds, Call.mem_parents, imp_self, implies_true]
      · rintro l ⟨⟩
        exact c.nodup_parents
    · next ip hip =>
      obtain ⟨hfree, rfl⟩ := of_guarded hf
      refine ⟨h.ilock hfree ?_ ?_ nofun, rfl⟩
      · simp only [hp, Pc.Holds]
        grind
      · rintro _ _ ⟨⟩
        have hheld := h.held p
        simp only [hp, Pc.Holds] at hheld
        exact ⟨hip, by grind [Call.mem_parents]⟩
  · next c ip hp => exact (hpc c ip hp).elim
  · next hp =>
    cases hf
    exact ⟨h.bare trivial, rfl⟩
  · next hp =>
    cases hf
    exact ⟨h.release hp, rfl⟩

end

theorem Dirs.permits_some [Fintype ν] (h : t.permits c ip room = true)
    (hr : t.entries c.newdp c.newname = some ip2) :
    t.dir ip2 = t.dir ip ∧ (t.dir ip = true → ∀ n, t.entries ip2 n = none) := by
  simp only [Dirs.permits, hr, Dirs.isdirempty] at h
  grind

theorem Dirs.move_dotdot [DecidableEq ν] (t : Dirs ν) (c : Call ν) (ip : Inum) (r : Option Inum)
    (d : Inum) :
    (t.move c ip r).dotdot d =
      if d = ip ∧ t.dir ip = true ∧ c.olddp ≠ c.newdp then c.newdp else t.dotdot d := by
  simp only [Dirs.move]
  split <;> grind [update_apply]

structure Quiet (s : State ν) : Prop where
  idle : ∀ p, s.pc p = .idle
  tree : Tree s.toDirs

theorem Quiet.inv (h : Quiet s) : Inv s := by
  have hidle := h.idle
  refine ⟨h.tree, ?_⟩
  constructor <;> simp only [hidle] <;> simp [Pc.Holds]

variable [DecidableEq ν] [Fintype ν]

theorem Tree.move (h : Tree t) (hold : t.entries c.olddp c.oldname = some ip)
    (hne : t.entries c.newdp c.newname ≠ some ip) (hper : t.permits c ip room = true)
    (hclear : t.dir ip = true → c.olddp ≠ c.newdp →
      t.Live c.newdp ∧ Avoids t.dotdot ROOTINO ip c.newdp) :
    Tree (t.move c ip (t.entries c.newdp c.newname)) := by
  have hsome := fun i (hi : t.entries c.newdp c.newname = some i) => Dirs.permits_some hper hi
  obtain ⟨hsound, hproper, hlinked, hparent, hsingle⟩ := h
  have hup := t.move_dotdot c ip (t.entries c.newdp c.newname)
  have hip := hparent _ _ _ hold
  constructor
  · intro d hd
    have hlive : t.Live d := ⟨hd.1, (Bool.or_eq_false_iff.1 hd.2).1⟩
    obtain ⟨hrooted, hnext⟩ := hsound d hlive
    refine ⟨?_, fun hroot => ?_⟩
    · simp only [Dirs.move]
      split
      · next hmoved => exact hrooted.update (hclear hmoved.1 hmoved.2).2
      · exact hrooted
    · have hentry := hlinked d hlive.1 hlive.2 hroot
      have hlive' := hnext hroot
      simp only [Dirs.Live, hup] at *
      simp only [Dirs.move]
      grind
  · simp only [Dirs.move]
    grind
  · intro d hdir hrem hroot
    have hentry := hlinked d hdir (Bool.or_eq_false_iff.1 hrem).1 hroot
    simp only [hup]
    simp only [Dirs.move] at hdir hrem ⊢
    by_cases hd : d = ip
    · exact ⟨c.newname, by grind⟩
    · obtain ⟨n, hn⟩ := hentry
      exact ⟨n, by grind⟩
  · intro d n i hi hdir
    simp only [hup]
    simp only [Dirs.move] at hi hdir ⊢
    grind
  · simp only [Dirs.move]
    grind

theorem Inv.fire (h : Inv s) (hclear : Clear s e) (hf : fire s e = some s') : Inv s' := by
  obtain ⟨htree, hlocks⟩ := h
  cases e with
  | rename p old new =>
    simp only [RenameRaces.fire] at hf
    split at hf
    · obtain ⟨-, rfl⟩ := of_guarded hf
      exact ⟨htree, hlocks.bare trivial⟩
    · cases hf
  | step p room =>
    by_cases hpc : ∃ c ip, s.pc p = .lockIp2 c ip
    · obtain ⟨c, ip, hpc⟩ := hpc
      obtain ⟨hlocks', hne, hdirs⟩ := lockIp2_cases hlocks hpc hf
      refine ⟨?_, hlocks'⟩
      rw [hdirs]
      split
      · next hper => exact htree.move (hlocks.found p c ip hpc).1 hne hper (hclear c ip hpc hper)
      · exact htree
    · obtain ⟨hlocks', hdirs⟩ := step_quiet hlocks (fun c ip heq => hpc ⟨c, ip, heq⟩) hf
      exact ⟨hdirs ▸ htree, hlocks'⟩

theorem Inv.not_sound (h : Inv s) (hclear : ¬ Clear s e) (hf : RenameRaces.fire s e = some s') :
    ¬ s'.Sound := by
  obtain ⟨htree, hlocks⟩ := h
  cases e with
  | rename p old new => exact absurd trivial hclear
  | step p room =>
    simp only [Clear, not_forall] at hclear
    obtain ⟨c, ip, hpc, hper, hdir, hparents, hbad⟩ := hclear
    obtain ⟨-, hne, hdirs⟩ := lockIp2_cases hlocks hpc hf
    rw [if_pos hper] at hdirs
    have hold := (hlocks.found p c ip hpc).1
    have hup := s.move_dotdot c ip (s.entries c.newdp c.newname) ip
    rw [if_pos ⟨rfl, hdir, hparents⟩] at hup
    intro hsound
    rw [hdirs] at hsound
    have hlive : (s.move c ip (s.entries c.newdp c.newname)).Live ip := by
      have hremoved := (htree.parent _ _ _ hold hdir).2
      simp [Dirs.Live, Dirs.move, hdir, hremoved, hne]
    obtain ⟨hrooted, hnext⟩ := hsound ip hlive
    have hroot := htree.proper _ _ _ hold
    have hnew := hnext hroot
    rw [hup] at hnew
    refine hbad ⟨⟨hnew.1, (Bool.or_eq_false_iff.1 hnew.2).1⟩, ?_⟩
    simp only [Dirs.move, if_pos (And.intro hdir hparents)] at hrooted
    exact (hrooted.avoids_or hroot.symm).elim (fun hself => absurd rfl hself.ne) id

/-- Every directory leads to the root by `..` in all states exactly if each move of one finds its
new parent linked and not below it. -/
theorem renames_rooted_iff (h : Quiet s) (es : List (Event ν)) :
    Always fire (fun s : State ν => s.Sound) s es ↔ Along fire Clear s es :=
  always_iff_along (I := Inv) (fun _ h => h.1.sound) (fun _ _ _ h hc hf => h.fire hc hf)
    (fun _ _ _ h hc hf => h.not_sound hc hf) h.inv

def twoDirs : State Bool where
  dir d := d = 1 ∨ d = 2 ∨ d = 3
  removed _ := false
  entries d n := if d = 1 then some (if n then 3 else 2) else none
  dotdot _ := 1
  lock _ := none
  pc _ := .idle

theorem twoDirs_quiet : Quiet twoDirs := by
  refine ⟨fun _ => rfl, ⟨fun d _ => ⟨.step .root, fun _ => ⟨rfl, rfl⟩⟩, ?_, ?_, ?_, ?_⟩⟩
  all_goals simp only [twoDirs]
  · grind
  · intro d hdir _ hroot
    exact ⟨d = 3, by grind⟩
  · grind
  · grind

def path (dirs : List (Elem Bool)) (n : Bool) : Path Bool := ⟨ROOTINO, dirs, .name n⟩

/-- Two directories are moved into each other; both calls pass the check before one writes. -/
def swap : List (Event Bool) :=
  .rename 0 (path [] false) (path [.name true] false) ::
    .rename 1 (path [] true) (path [.name false] true) ::
      (List.replicate 7 (.step 0 true) ++ List.replicate 7 (.step 1 true) ++
        List.replicate 8 (.step 0 true) ++ List.replicate 8 (.step 1 true))

theorem renames_rooted_swap : Quiet twoDirs ∧
    (Always fire (fun s : State Bool => s.Sound) twoDirs swap ↔ Along fire Clear twoDirs swap) :=
  ⟨twoDirs_quiet, renames_rooted_iff twoDirs_quiet swap⟩

/-- Both calls have returned, and each of the two directories is the parent of the other. -/
theorem renames_detach : Quiet twoDirs ∧ ∃ s, runEvents fire twoDirs swap = some s ∧
    s.pc 0 = .idle ∧ s.pc 1 = .idle ∧ s.Live 2 ∧ s.Live 3 ∧ s.dotdot 2 = 3 ∧ s.dotdot 3 = 2 ∧
    ∀ n, s.entries 1 n = none := by
  exact ⟨twoDirs_quiet, exists_of_any (by decide +kernel)⟩

end OopsOS.RenameRaces
