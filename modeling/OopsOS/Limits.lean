import Mathlib.Algebra.GroupWithZero.Nat

namespace OopsOS

abbrev NPROC : Nat := 64
abbrev NCPU : Nat := 8
abbrev NINODE : Nat := 50
abbrev NBUF : Nat := 30
abbrev NVMA : Nat := 16
abbrev PGSIZE : Nat := 4096
abbrev DMSG_MAX : Nat := 128
abbrev DMSG_QUEUE_MAX : Nat := 16

abbrev ProcSlot := Fin NPROC

instance neZeroNPROC : NeZero 64 := ⟨by decide⟩

instance neZeroNFILE : NeZero 100 := ⟨by decide⟩

end OopsOS
