import OopsOS.Bytes
import OopsOS.KeyedSlots
import OopsOS.Traces

namespace OopsOS.Xattrs
set_option autoImplicit true
open Function KeyedSlots

abbrev XATTR_NAME_MAX : Nat := 64
abbrev XATTR_VALUE_MAX : Int := 256
abbrev XATTR_MAX_ATTRS : Nat := 8
abbrev XATTR_TABLE_SIZE : Nat := 64

abbrev Name := List UInt8

abbrev File := UInt32 × UInt32

structure XattrEntry where
  name : Name
  value : Bytes
  valueLen : Int
  used : Bool

structure XattrInode where
  dev : UInt32
  inum : UInt32
  attrs : Fin XATTR_MAX_ATTRS → XattrEntry
  used : Bool

abbrev XattrTable := Fin XATTR_TABLE_SIZE → XattrInode

def strncpy (name : Name) (n : Nat) : Name := name.take n

def strncmp (p q : Name) (n : Nat) : Bool := p.take n == q.take n

def xattrinit (t : XattrTable) : XattrTable := fun i => { t i with used := false }

/-- `xattr_find_or_create`, which looks for the inode and a free slot in one loop. -/
def xattrFindOrCreate (t : XattrTable) (f : File) (create : Bool) :
    Option (Fin XATTR_TABLE_SIZE) × XattrTable :=
  match firstSlot fun i => (t i).used && (t i).dev == f.1 && (t i).inum == f.2 with
  | some i => (some i, t)
  | none =>
    match create, firstSlot fun i => !(t i).used with
    | true, some i => (some i, update t i
        { dev := f.1, inum := f.2, used := true
          attrs := fun j => { (t i).attrs j with used := false } })
    | _, _ => (none, t)

def XattrInode.find (xi : XattrInode) (name : Name) : Option (Fin XATTR_MAX_ATTRS) :=
  firstSlot fun a => (xi.attrs a).used && strncmp (xi.attrs a).name name XATTR_NAME_MAX

def XattrInode.put (xi : XattrInode) (a : Fin XATTR_MAX_ATTRS) (xe : XattrEntry) : XattrInode :=
  { xi with attrs := update xi.attrs a xe }

def xattrSet (t : XattrTable) (f : File) (name : Name) (value : Bytes) (size : Int) :
    Int × XattrTable :=
  if name.length = 0 ∨ name.length ≥ XATTR_NAME_MAX then (-1, t)
  else if size < 0 ∨ size > XATTR_VALUE_MAX then (-1, t)
  else
    match xattrFindOrCreate t f true with
    | (none, t) => (-1, t)
    | (some i, t) =>
      match (t i).find name with
      | some a =>
        let xe := (t i).attrs a
        (0, update t i ((t i).put a
          { xe with value := copyIn xe.value 0 size.toNat value, valueLen := size }))
      | none =>
        match firstSlot fun a => !((t i).attrs a).used with
        | some a =>
          let xe := (t i).attrs a
          (0, update t i ((t i).put a
            { name := strncpy name XATTR_NAME_MAX
              value := copyIn xe.value 0 size.toNat value
              valueLen := size
              used := true }))
        | none => (-1, t)

def xattrGet (t : XattrTable) (f : File) (name : Name) (value : Bytes) (size : Int) : Int × Bytes :=
  match xattrFindOrCreate t f false with
  | (none, _) => (-1, value)
  | (some i, t) =>
    match (t i).find name with
    | some a =>
      let xe := (t i).attrs a
      if size = 0 then (xe.valueLen, value)
      else if size < xe.valueLen then (-1, value)
      else (xe.valueLen, copyIn value 0 xe.valueLen.toNat xe.value)
    | none => (-1, value)

def xattrClear (t : XattrTable) (f : File) : XattrTable :=
  match xattrFindOrCreate t f false with
  | (none, t) => t
  | (some i, t) => update t i { t i with used := false }

def XattrInode.names (xi : XattrInode) : List Name :=
  ((List.finRange XATTR_MAX_ATTRS).filter fun a => (xi.attrs a).used).map fun a => (xi.attrs a).name

def terminated (name : Name) : List UInt8 := name ++ [0]

def copyNames (list : Bytes) (offset : Nat) : List Name → Bytes
  | [] => list
  | name :: names =>
    let len := name.length + 1
    copyNames (copyIn list offset len fun k => (terminated name).getD k 0) (offset + len) names

def xattrList (t : XattrTable) (f : File) (list : Bytes) (size : Int) : Int × Bytes :=
  match xattrFindOrCreate t f false with
  | (none, _) => (0, list)
  | (some i, t) =>
    let total : Int := ((t i).names.map fun name => (name.length + 1 : Int)).sum
    if size = 0 then (total, list)
    else if size < total then (-1, list)
    else (total, copyNames list 0 (t i).names)

def xattrRemove (t : XattrTable) (f : File) (name : Name) : Int × XattrTable :=
  match xattrFindOrCreate t f false with
  | (none, t) => (-1, t)
  | (some i, t) =>
    match (t i).find name with
    | some a =>
      let xi := (t i).put a { (t i).attrs a with used := false }
      let anyUsed := (firstSlot fun j => (xi.attrs j).used).isSome
      (0, update t i { xi with used := anyUsed })
    | none => (-1, t)

inductive XattrOp where
  | set (f : File) (name : Name) (value : Bytes) (size : Int)
  | get (f : File) (name : Name) (value : Bytes) (size : Int)
  | list (f : File) (list : Bytes) (size : Int)
  | remove (f : File) (name : Name)
  | clear (f : File)

def fire (t : XattrTable) : XattrOp → Option XattrTable
  | .set f name value size => some (xattrSet t f name value size).2
  | .get .. => some t
  | .list .. => some t
  | .remove f name => some (xattrRemove t f name).2
  | .clear f => some (xattrClear t f)

abbrev AttrMap := File → Name → Option (List UInt8)

def AttrMap.files (m : AttrMap) : Set File := {f | m f ≠ fun _ => none}

def AttrMap.names (m : AttrMap) (f : File) : Set Name := {name | m f name ≠ none}

/-- A new attribute would be one too many of its file, or its file one too many. -/
def AttrMap.Full (m : AttrMap) (f : File) (name : Name) : Prop :=
  m f name = none ∧
    (XATTR_MAX_ATTRS ≤ (m.names f).ncard ∨ f ∉ m.files ∧ XATTR_TABLE_SIZE ≤ m.files.ncard)

def AttrMap.Refuses (m : AttrMap) (f : File) (name : Name) (size : Int) : Prop :=
  name.length = 0 ∨ XATTR_NAME_MAX ≤ name.length ∨ size < 0 ∨ XATTR_VALUE_MAX < size ∨ m.Full f name

def AttrMap.put (m : AttrMap) (f : File) (name : Name) (v : Option (List UInt8)) : AttrMap :=
  update m f (update (m f) name v)

def readBytes (b : Bytes) (n : Nat) : List UInt8 := (List.range n).map b

def bytesOf (l : List UInt8) : Bytes := fun k => l.getD k 0

def XattrEntry.content (xe : XattrEntry) : List UInt8 := readBytes xe.value xe.valueLen.toNat

def XattrInode.key (xi : XattrInode) : File := (xi.dev, xi.inum)

def XattrInode.map (xi : XattrInode) : Name → Option (List UInt8) :=
  toMap XattrEntry.used XattrEntry.name XattrEntry.content xi.attrs

def inodes (t : XattrTable) : File → Option (Name → Option (List UInt8)) :=
  toMap XattrInode.used XattrInode.key XattrInode.map t

def attrMap (t : XattrTable) : AttrMap := fun f => (inodes t f).getD fun _ => none

def Correct (t : XattrTable) : XattrOp → Prop
  | .set f name value size =>
    let (r, t') := xattrSet t f name value size
    ((attrMap t).Refuses f name size ∧ r = -1 ∧ attrMap t' = attrMap t) ∨
      (¬ (attrMap t).Refuses f name size ∧ r = 0 ∧
        attrMap t' = (attrMap t).put f name (some (readBytes value size.toNat)))
  | .get f name value size =>
    xattrGet t f name value size =
      match attrMap t f name with
      | none => (-1, value)
      | some v =>
        if size = 0 then (↑v.length, value)
        else if size < v.length then (-1, value)
        else (↑v.length, copyIn value 0 v.length (bytesOf v))
  | .list f list size =>
    ∃ names : List Name, names.Nodup ∧ (∀ name, name ∈ names ↔ name ∈ (attrMap t).names f) ∧
      let l := names.flatMap terminated
      xattrList t f list size =
        if size = 0 ∨ names = [] then (↑l.length, list)
        else if size < l.length then (-1, list)
        else (↑l.length, copyIn list 0 l.length (bytesOf l))
  | .remove f name =>
    let (r, t') := xattrRemove t f name
    match attrMap t f name with
    | none => r = -1 ∧ attrMap t' = attrMap t
    | some _ => r = 0 ∧ attrMap t' = (attrMap t).put f name none
  | .clear f => attrMap (xattrClear t f) = update (attrMap t) f fun _ => none

/-- Slots in use have distinct names, which fit, and values of a length. -/
structure XattrInode.Ok (xi : XattrInode) : Prop where
  distinct : Distinct XattrEntry.used XattrEntry.name xi.attrs
  short : ∀ a, (xi.attrs a).used = true → (xi.attrs a).name.length < XATTR_NAME_MAX
  length : ∀ a, (xi.attrs a).used = true → 0 ≤ (xi.attrs a).valueLen

structure Inv (t : XattrTable) : Prop where
  distinct : Distinct XattrInode.used XattrInode.key t
  ok : ∀ i, (t i).used = true → (t i).Ok
  nonempty : ∀ i, (t i).used = true → ∃ a, ((t i).attrs a).used = true

variable {t : XattrTable} {f : File} {name : Name} {xi : XattrInode} {xe : XattrEntry}
  {i : Fin XATTR_TABLE_SIZE} {a : Fin XATTR_MAX_ATTRS}

theorem readBytes_copyIn (b src : Bytes) (n : Nat) :
    readBytes (copyIn b 0 n src) n = readBytes src n := by
  apply List.map_congr_left
  intro k hk
  have hk := List.mem_range.1 hk
  simp only [copyIn, Nat.zero_le, Nat.zero_add, hk, and_self, ↓reduceIte, Nat.sub_zero]

theorem copyIn_bytesOf (b src : Bytes) (n : Nat) :
    copyIn b 0 n (bytesOf (readBytes src n)) = copyIn b 0 n src := by
  funext k
  simp only [copyIn, Nat.zero_le, Nat.zero_add, true_and, Nat.sub_zero]
  split
  · next hk => simp [bytesOf, readBytes, hk]
  · rfl

theorem copyNames_eq (list : Bytes) (offset : Nat) (names : List Name) :
    copyNames list offset names =
      copyIn list offset (names.flatMap terminated).length
        (bytesOf (names.flatMap terminated)) := by
  induction names generalizing list offset with
  | nil =>
    funext k
    simp [copyNames, copyIn]
  | cons name names ih =>
    have hlen : (terminated name).length = name.length + 1 := by simp [terminated]
    simp only [copyNames, ih, List.flatMap_cons, List.length_append, hlen]
    funext k
    simp only [copyIn, bytesOf]
    by_cases hk : k < offset + (name.length + 1)
    · rw [if_neg (by omega)]
      by_cases ho : offset ≤ k
      · rw [if_pos ⟨ho, hk⟩, if_pos ⟨ho, by omega⟩,
          List.getD_append _ _ _ _ (by rw [hlen]; omega)]
      · rw [if_neg (by omega), if_neg (by omega)]
    · have hback : ¬ (offset ≤ k ∧ k < offset + (name.length + 1)) := by omega
      rw [if_neg hback]
      by_cases hend : k < offset + (name.length + 1) + (names.flatMap terminated).length
      · rw [if_pos ⟨by omega, hend⟩, if_pos ⟨by omega, by omega⟩,
          List.getD_append_right _ _ _ _ (by rw [hlen]; omega), hlen]
        congr 1
        omega
      · rw [if_neg (by omega), if_neg (by omega)]

theorem findOrCreate_false (t : XattrTable) (f : File) :
    xattrFindOrCreate t f false = (findKey XattrInode.used XattrInode.key t f, t) := by
  have hp : (fun i => (t i).used && (t i).dev == f.1 && (t i).inum == f.2) =
      fun i => (t i).used && decide ((t i).key = f) := by
    funext i
    rw [Bool.eq_iff_iff]
    simp [XattrInode.key, Prod.ext_iff, and_assoc]
  simp only [xattrFindOrCreate, findKey, hp]
  split
  · next h => rw [h]
  · next h => rw [h]

/-- Names in the table are short, so the comparison of 64 bytes compares the names. -/
theorem XattrInode.Ok.find (h : xi.Ok) (name : Name) :
    xi.find name = findKey XattrEntry.used XattrEntry.name xi.attrs name := by
  unfold XattrInode.find findKey
  congr 1
  funext a
  rw [Bool.eq_iff_iff]
  simp only [strncmp, Bool.and_eq_true, beq_iff_eq, decide_eq_true_eq]
  apply and_congr_right
  intro hu
  have hshort := h.short a hu
  rw [List.take_of_length_le (Nat.le_of_lt hshort)]
  constructor
  · intro e
    rw [e, List.length_take] at hshort
    rw [e, List.take_of_length_le (by omega)]
  · intro e
    rw [← e, List.take_of_length_le (Nat.le_of_lt hshort)]

theorem XattrInode.Ok.put_slot (h : xi.Ok)
    (hd : Distinct XattrEntry.used XattrEntry.name (xi.put a xe).attrs)
    (hshort : xe.used = true → xe.name.length < XATTR_NAME_MAX)
    (hlen : xe.used = true → 0 ≤ xe.valueLen) :
    (xi.put a xe).Ok where
  distinct := hd
  short := (forall_update_iff xi.attrs fun _ y => y.used = true → y.name.length < XATTR_NAME_MAX).2
    ⟨hshort, fun j _ => h.short j⟩
  length := (forall_update_iff xi.attrs fun _ y => y.used = true → 0 ≤ y.valueLen).2
    ⟨hlen, fun j _ => h.length j⟩

theorem XattrInode.Ok.put (h : xi.Ok) (hu : xe.used = true) (hn : xe.name = name)
    (hshort : name.length < XATTR_NAME_MAX) (hlen : 0 ≤ xe.valueLen)
    (ha : ∀ j, (xi.attrs j).used = true → (j = a ↔ (xi.attrs j).name = name)) :
    (xi.put a xe).Ok ∧ (xi.put a xe).map = update xi.map name (some xe.content) := by
  obtain ⟨hd, hmap⟩ := h.distinct.put XattrEntry.content hu hn ha
  exact ⟨h.put_slot hd (fun _ => hn ▸ hshort) fun _ => hlen, hmap⟩

theorem XattrInode.Ok.drop (h : xi.Ok) (xe : XattrEntry) (hx : xe.used = false)
    (hu : (xi.attrs a).used = true) (hn : (xi.attrs a).name = name) :
    (xi.put a xe).Ok ∧ (xi.put a xe).map = update xi.map name none := by
  obtain ⟨hd, hmap⟩ := h.distinct.drop XattrEntry.content hx hu hn
  have hnot : ¬ xe.used = true := by simp [hx]
  exact ⟨h.put_slot hd (absurd · hnot) (absurd · hnot), hmap⟩

theorem XattrInode.map_none (h : ∀ a, (xi.attrs a).used = false) : xi.map = fun _ => none := by
  funext name
  apply toMap_none.2
  intro a ha
  rw [h a] at ha
  cases ha

theorem XattrInode.map_used (h : (xi.attrs a).used = true) : xi.map ≠ fun _ => none := fun e =>
  toMap_none.1 (congrFun e (xi.attrs a).name) a h rfl

theorem attrMap_none (h : findKey XattrInode.used XattrInode.key t f = none) :
    attrMap t f = fun _ => none := by
  simp only [attrMap, inodes, toMap, h, Option.map_none, Option.getD_none]

theorem attrMap_some (h : findKey XattrInode.used XattrInode.key t f = some i) :
    attrMap t f = (t i).map := by
  simp only [attrMap, inodes, toMap, h, Option.map_some, Option.getD_some]

theorem attrMap_update
    (h : inodes t' = update (inodes t) f v) :
    attrMap t' = update (attrMap t) f (v.getD fun _ => none) := by
  funext g
  by_cases hg : g = f
  · subst hg
    simp only [attrMap, h, update_self]
  · simp only [attrMap, h, update_of_ne hg]

theorem Inv.files (h : Inv t) : (attrMap t).files = {f | inodes t f ≠ none} := by
  ext f
  simp only [AttrMap.files, Set.mem_ofPred_eq]
  cases hf : findKey XattrInode.used XattrInode.key t f with
  | none =>
    refine iff_of_false (not_not.2 (attrMap_none hf)) (not_not.2 ?_)
    simp only [inodes, toMap, hf, Option.map_none]
  | some i =>
    obtain ⟨a, ha⟩ := h.nonempty i (findKey_used hf).1
    rw [attrMap_some hf]
    refine iff_of_true (XattrInode.map_used ha) ?_
    simp only [inodes, toMap, hf, Option.map_some, ne_eq, reduceCtorEq, not_false_eq_true]

/-- The slot `i` is that of the file, or free for it, and `xi` is what it holds. -/
structure SlotFor (t : XattrTable) (f : File) (i : Fin XATTR_TABLE_SIZE) (xi : XattrInode) :
    Prop where
  only : ∀ j, (t j).used = true → (j = i ↔ (t j).key = f)
  used : xi.used = true
  key : xi.key = f
  ok : xi.Ok
  map : attrMap t f = xi.map

theorem SlotFor.of_findKey (h : Inv t) (hf : findKey XattrInode.used XattrInode.key t f = some i) :
    SlotFor t f i (t i) := by
  obtain ⟨hu, hk⟩ := findKey_used hf
  refine ⟨fun j hj => ⟨fun e => e ▸ hk, fun e => ?_⟩, hu, hk, h.ok i hu, attrMap_some hf⟩
  exact h.distinct j i hj hu (e.trans hk.symm)

theorem findOrCreate_true (h : Inv t) (f : File) :
    (∃ i xi, xattrFindOrCreate t f true = (some i, update t i xi) ∧ SlotFor t f i xi) ∨
      (xattrFindOrCreate t f true = (none, t) ∧ (∀ i, (t i).used = true) ∧
        findKey XattrInode.used XattrInode.key t f = none) := by
  have hfalse := findOrCreate_false t f
  simp only [xattrFindOrCreate] at hfalse ⊢
  cases hf : findKey XattrInode.used XattrInode.key t f with
  | some i =>
    rw [hf] at hfalse
    split at hfalse
    · next j hj =>
      obtain ⟨hji, -⟩ := Prod.mk.inj hfalse
      refine .inl ⟨i, t i, ?_, .of_findKey h hf⟩
      rw [hji, update_eq_self]
    · cases hfalse
  | none =>
    rw [hf] at hfalse
    split at hfalse
    · cases hfalse
    · cases hfree : firstSlot fun i => !(t i).used with
      | none => exact .inr ⟨rfl, fun i => by simpa using firstSlot_none.1 hfree i, rfl⟩
      | some i =>
        have hi : (t i).used = false := by simpa using firstSlot_some hfree
        have hnone := findKey_none.1 hf
        refine .inl
          ⟨i, _, rfl, fun j hj => iff_of_false ?_ (hnone j hj), rfl, rfl, ⟨?_, ?_, ?_⟩, ?_⟩
        · rintro rfl
          rw [hi] at hj
          cases hj
        · intro a b ha
          cases ha
        · intro a ha
          cases ha
        · intro a ha
          cases ha
        · rw [attrMap_none hf, XattrInode.map_none fun a => rfl]

theorem SlotFor.put (hs : SlotFor t f i xi) (h : Inv t) (xi' : XattrInode) (hu : xi'.used = true)
    (hk : xi'.key = f) : Distinct XattrInode.used XattrInode.key (update t i xi') ∧
      attrMap (update t i xi') = update (attrMap t) f xi'.map := by
  obtain ⟨hd, hmap⟩ := h.distinct.put XattrInode.map hu hk hs.only
  exact ⟨hd, attrMap_update hmap⟩

theorem Inv.update (h : Inv t)
    (hd : Distinct XattrInode.used XattrInode.key (update t i xi')) (hok : xi'.used = true → xi'.Ok)
    (hsome : xi'.used = true → ∃ a, (xi'.attrs a).used = true) : Inv (update t i xi') where
  distinct := hd
  ok := (forall_update_iff t fun _ y => y.used = true → y.Ok).2 ⟨hok, fun j _ => h.ok j⟩
  nonempty := (forall_update_iff t fun _ y => y.used = true → ∃ a, (y.attrs a).used = true).2
    ⟨hsome, fun j _ => h.nonempty j⟩

theorem Inv.free (h : Inv t)
    (hd : Distinct XattrInode.used XattrInode.key (Function.update t i xi'))
    (hu : xi'.used = false) :
    Inv (Function.update t i xi') := by
  have hnot : ¬ xi'.used = true := by simp [hu]
  exact h.update hd (absurd · hnot) (absurd · hnot)

theorem SlotFor.full_iff (hs : SlotFor t f i xi) (h : Inv t)
    (hname : findKey XattrEntry.used XattrEntry.name xi.attrs name = none) :
    (attrMap t).Full f name ↔ ∀ a, (xi.attrs a).used = true := by
  have hnames : XATTR_MAX_ATTRS ≤ ((attrMap t).names f).ncard ↔ ∀ a, (xi.attrs a).used = true := by
    rw [AttrMap.names, hs.map]
    exact hs.ok.distinct.full XattrEntry.content
  have hnone : attrMap t f name = none := by
    rw [hs.map]
    simp only [XattrInode.map, toMap, hname, Option.map_none]
  rw [AttrMap.Full, hnames]
  refine ⟨fun hfull => hfull.2.resolve_right ?_, fun hall => ⟨hnone, .inl hall⟩⟩
  -- A file without attributes has found a free slot.
  rintro ⟨hnot, hle⟩
  rw [h.files] at hle hnot
  have hi := (h.distinct.full XattrInode.map).1 hle i
  have hkey := (hs.only i hi).1 rfl
  apply hnot
  rw [Set.mem_ofPred_eq, inodes, toMap, h.distinct.findKey.2 ⟨hi, hkey⟩]
  simp only [Option.map_some, ne_eq, reduceCtorEq, not_false_eq_true]

theorem SlotFor.set (hs : SlotFor t f i xi) (h : Inv t) (a : Fin XATTR_MAX_ATTRS) (xe : XattrEntry)
    (hu : xe.used = true) (hn : xe.name = name) (hshort : name.length < XATTR_NAME_MAX)
    (hlen : 0 ≤ xe.valueLen)
    (ha : ∀ j, (xi.attrs j).used = true → (j = a ↔ (xi.attrs j).name = name)) :
    Inv (update t i (xi.put a xe)) ∧
      attrMap (update t i (xi.put a xe)) = (attrMap t).put f name (some xe.content) := by
  obtain ⟨hok, hmap⟩ := hs.ok.put hu hn hshort hlen ha
  obtain ⟨hd, hput⟩ := hs.put h (xi.put a xe) hs.used hs.key
  refine ⟨h.update hd (fun _ => hok) fun _ => ⟨a, ?_⟩, ?_⟩
  · simp only [XattrInode.put, update_self, hu]
  · rw [hput, hmap, AttrMap.put, hs.map]

theorem xattrSet_spec (h : Inv t) (f : File) (name : Name) (value : Bytes) (size : Int) :
    Inv (xattrSet t f name value size).2 ∧ Correct t (.set f name value size) := by
  simp only [Correct, xattrSet, AttrMap.Refuses]
  split
  · next hbad => exact ⟨h, .inl ⟨by tauto, rfl, rfl⟩⟩
  · next hgood =>
    split
    · next hbad => exact ⟨h, .inl ⟨by tauto, rfl, rfl⟩⟩
    · next hsize =>
      have hrefuses : (name.length = 0 ∨ XATTR_NAME_MAX ≤ name.length ∨ size < 0 ∨
          XATTR_VALUE_MAX < size ∨ (attrMap t).Full f name) ↔ (attrMap t).Full f name := by
        tauto
      rw [hrefuses]
      obtain ⟨i, xi, hfind, hs⟩ | ⟨hfind, hall, hnone⟩ := findOrCreate_true h f
      · simp only [hfind, update_self, hs.ok.find, update_idem]
        cases ha : findKey XattrEntry.used XattrEntry.name xi.attrs name with
        | some a =>
          obtain ⟨hu, hn⟩ := findKey_used ha
          obtain ⟨hinv, hmap⟩ := hs.set h a { xi.attrs a with
            value := copyIn (xi.attrs a).value 0 size.toNat value, valueLen := size } hu hn
            (by omega) (by simp only; omega) fun j hj => ⟨fun e => e ▸ hn, fun e =>
              hs.ok.distinct j a hj hu (e.trans hn.symm)⟩
          refine ⟨hinv, .inr ⟨fun hfull => ?_, rfl, ?_⟩⟩
          · have hnot := hfull.1
            rw [hs.map, XattrInode.map, toMap, ha] at hnot
            cases hnot
          · rw [hmap, XattrEntry.content, readBytes_copyIn]
        | none =>
          have hnot := findKey_none.1 ha
          rw [hs.full_iff h ha]
          cases hfree : firstSlot fun a => !(xi.attrs a).used with
          | some a =>
            have hau : (xi.attrs a).used = false := by simpa using firstSlot_some hfree
            obtain ⟨hinv, hmap⟩ := hs.set h a
              { name := strncpy name XATTR_NAME_MAX
                value := copyIn (xi.attrs a).value 0 size.toNat value
                valueLen := size
                used := true } rfl (List.take_of_length_le (by omega)) (by omega)
              (by simp only; omega) fun j hj => iff_of_false (fun e => by
                rw [e, hau] at hj
                cases hj) (hnot j hj)
            refine ⟨hinv, .inr ⟨fun hall => ?_, rfl, ?_⟩⟩
            · rw [hall a] at hau
              cases hau
            · rw [hmap, XattrEntry.content, readBytes_copyIn]
          | none =>
            have hall (a : Fin XATTR_MAX_ATTRS) : (xi.attrs a).used = true := by
              simpa using firstSlot_none.1 hfree a
            obtain ⟨hd, hput⟩ := hs.put h xi hs.used hs.key
            refine ⟨h.update hd (fun _ => hs.ok) fun _ => ⟨0, hall 0⟩, .inl ⟨hall, rfl, ?_⟩⟩
            rw [hput, ← hs.map, update_eq_self]
      · simp only [hfind]
        refine ⟨h, .inl ⟨⟨?_, .inr ⟨?_, ?_⟩⟩, trivial, trivial⟩⟩
        · rw [attrMap_none hnone]
        · exact not_not.2 (attrMap_none hnone)
        · rw [h.files]
          exact (h.distinct.full XattrInode.map).2 hall

theorem xattrGet_spec (h : Inv t) (f : File) (name : Name) (value : Bytes) (size : Int) :
    Correct t (.get f name value size) := by
  simp only [Correct, xattrGet, findOrCreate_false]
  cases hf : findKey XattrInode.used XattrInode.key t f with
  | none => simp only [attrMap_none hf]
  | some i =>
    have hok := h.ok i (findKey_used hf).1
    simp only [attrMap_some hf, hok.find, XattrInode.map, toMap]
    cases ha : findKey XattrEntry.used XattrEntry.name (t i).attrs name with
    | none => rfl
    | some a =>
      have hlen := hok.length a (findKey_used ha).1
      have hn : ((t i).attrs a).content.length = ((t i).attrs a).valueLen.toNat := by
        rw [XattrEntry.content, readBytes, List.length_map, List.length_range]
      have hl : (((t i).attrs a).content.length : Int) = ((t i).attrs a).valueLen := by omega
      simp only [Option.map_some, hl]
      rw [hn, XattrEntry.content, copyIn_bytesOf]

theorem XattrInode.Ok.names (h : xi.Ok) : xi.names.Nodup ∧ ∀ name, name ∈ xi.names ↔
    xi.map name ≠ none := by
  constructor
  · apply List.Nodup.map_on
    · intro a ha b hb e
      exact h.distinct a b (List.mem_filter.1 ha).2 (List.mem_filter.1 hb).2 e
    · exact (List.nodup_finRange _).filter _
  · intro name
    rw [XattrInode.map, ne_eq, toMap_none]
    simp [XattrInode.names]

theorem xattrList_spec (h : Inv t) (f : File) (list : Bytes) (size : Int) :
    Correct t (.list f list size) := by
  simp only [Correct, xattrList, findOrCreate_false, AttrMap.names, Set.mem_ofPred_eq]
  cases hf : findKey XattrInode.used XattrInode.key t f with
  | none => exact ⟨[], List.nodup_nil, by simp [attrMap_none hf], by simp⟩
  | some i =>
    obtain ⟨hu, -⟩ := findKey_used hf
    obtain ⟨hnodup, hmem⟩ := (h.ok i hu).names
    refine ⟨(t i).names, hnodup, fun name => by rw [hmem, attrMap_some hf], ?_⟩
    have hne : (t i).names ≠ [] := by
      obtain ⟨a, ha⟩ := h.nonempty i hu
      intro e
      have hin : ((t i).attrs a).name ∈ (t i).names :=
        List.mem_map.2 ⟨a, List.mem_filter.2 ⟨List.mem_finRange a, ha⟩, rfl⟩
      rw [e] at hin
      cases hin
    have htotal : ((t i).names.map fun name => (name.length + 1 : Int)).sum =
        ((t i).names.flatMap terminated).length := by
      induction (t i).names with
      | nil => rfl
      | cons name names ih =>
        rw [List.map_cons, List.sum_cons, ih, List.flatMap_cons, List.length_append, terminated,
          List.length_append]
        push_cast
        rfl
    simp only [htotal, hne, or_false, copyNames_eq]

theorem xattrRemove_spec (h : Inv t) (f : File) (name : Name) :
    Inv (xattrRemove t f name).2 ∧ Correct t (.remove f name) := by
  simp only [Correct, xattrRemove, findOrCreate_false]
  cases hf : findKey XattrInode.used XattrInode.key t f with
  | none => exact ⟨h, by simp only [attrMap_none hf, and_self]⟩
  | some i =>
    obtain ⟨hu, hk⟩ := findKey_used hf
    have hok := h.ok i hu
    have hmapf := attrMap_some hf
    simp only [hok.find, hmapf]
    cases ha : findKey XattrEntry.used XattrEntry.name (t i).attrs name with
    | none => exact ⟨h, by simp only [XattrInode.map, toMap, ha, Option.map_none, and_self]⟩
    | some a =>
      obtain ⟨hau, han⟩ := findKey_used ha
      have hsome : (t i).map name = some ((t i).attrs a).content := by
        rw [XattrInode.map, toMap, ha]
        rfl
      obtain ⟨hok', hmap⟩ := hok.drop { (t i).attrs a with used := false } rfl hau han
      simp only [hsome]
      cases hany : firstSlot fun j =>
          (((t i).put a { (t i).attrs a with used := false }).attrs j).used with
      | some b =>
        obtain ⟨hd, hput⟩ := (SlotFor.of_findKey h hf).put h
          ((t i).put a { (t i).attrs a with used := false }) hu hk
        have hsame : { (t i).put a { (t i).attrs a with used := false } with
            used := (some b).isSome } = (t i).put a { (t i).attrs a with used := false } := by
          rw [XattrInode.put, hu]
          rfl
        rw [hsame]
        refine ⟨h.update hd (fun _ => hok') fun _ => ⟨b, firstSlot_some hany⟩, trivial, ?_⟩
        rw [hput, hmap, AttrMap.put, hmapf]
      | none =>
        obtain ⟨hd, hdrop⟩ := h.distinct.drop XattrInode.map (x :=
          { (t i).put a { (t i).attrs a with used := false } with
            used := (none : Option (Fin XATTR_MAX_ATTRS)).isSome }) rfl hu hk
        refine ⟨h.free hd rfl, trivial, ?_⟩
        rw [attrMap_update hdrop, AttrMap.put, hmapf, ← hmap,
          XattrInode.map_none (firstSlot_none.1 hany)]
        rfl

theorem xattrClear_spec (h : Inv t) (f : File) :
    Inv (xattrClear t f) ∧ Correct t (.clear f) := by
  simp only [Correct, xattrClear, findOrCreate_false]
  cases hf : findKey XattrInode.used XattrInode.key t f with
  | none => exact ⟨h, by rw [← attrMap_none hf, update_eq_self]⟩
  | some i =>
    obtain ⟨hu, hk⟩ := findKey_used hf
    obtain ⟨hd, hdrop⟩ := h.distinct.drop XattrInode.map
      (x := { t i with used := false }) rfl hu hk
    exact ⟨h.free hd rfl, attrMap_update hdrop⟩

theorem xattrinit_inv (t : XattrTable) : Inv (xattrinit t) :=
  ⟨fun _ _ => nofun, fun _ => nofun, fun _ => nofun⟩

theorem Inv.fire (h : Inv t) (op : XattrOp) (ht : fire t op = some t') : Inv t' ∧ Correct t op := by
  cases op with
  | set f name value size =>
    cases ht
    exact xattrSet_spec h f name value size
  | get f name value size =>
    cases ht
    exact ⟨h, xattrGet_spec h f name value size⟩
  | list f list size =>
    cases ht
    exact ⟨h, xattrList_spec h f list size⟩
  | remove f name =>
    cases ht
    exact xattrRemove_spec h f name
  | clear f =>
    cases ht
    exact xattrClear_spec h f

/-- Calls do what they should with the map of the attributes, of at most 64 files and 8 names of
each. -/
theorem xattrs_refine_map (t : XattrTable) (ops : List XattrOp) :
    attrMap (xattrinit t) = (fun _ _ => none) ∧ Along fire Correct (xattrinit t) ops := by
  refine ⟨funext fun f => attrMap_none (findKey_none.2 fun _ => nofun), ?_⟩
  exact (Along.of_forall (P := fun _ _ => True) (fun _ _ => trivial) (xattrinit t) ops).steps
    (I := Inv) (fun _ op _ h _ ht => (h.fire op ht).2) (fun _ op _ h _ ht => (h.fire op ht).1)
    (xattrinit_inv t)

end OopsOS.Xattrs
