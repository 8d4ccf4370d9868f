import OopsOS.MmapRegions

namespace OopsOS.Mmap
set_option autoImplicit true

variable {s s' : MapState} {e : Event} {z : Nat} {n : Int}

def TRAPFRAME : Nat := MAXVA - 2 * PGSIZE

end OopsOS.Mmap
