import Atros.BootPages
import Atros.Output
import Atros.Paging
import Atros.PhysicalPages

namespace Atros
set_option autoImplicit true

/-- The memory management state of the kernel. `mem` is the virtual memory in which the slabs
lie; the descriptors of physical pages and the page tables are kept apart from it. -/
structure Kernel where
  bootPpn : BootPages
  bootVpn : BootPages
  paging : Paging
  phys : Phys
  /-- The array `ppages_dscrs`. -/
  ppagesDscrs : Nat
  mem : Mem
  -- virtual_pages.c
  freeVregions : Option Nat
  usedVregions : Option Nat
  vpagesCacheVregion : Option Nat
  -- slab.c
  cachesClist : Option Nat
  cacheObjsCache : Option Nat
  cacheSlab : Option Nat
  cacheVregion : Option Nat

def onBootPpn (x : Prog Panic BootPages α) : Prog Panic Kernel α :=
  onPart Kernel.bootPpn (fun k b => { k with bootPpn := b }) x

def onBootVpn (x : Prog Panic BootPages α) : Prog Panic Kernel α :=
  onPart Kernel.bootVpn (fun k b => { k with bootVpn := b }) x

def onPaging (x : Prog Panic Paging α) : Prog Panic Kernel α :=
  onPart Kernel.paging (fun k p => { k with paging := p }) x

def onPhys (x : Prog Panic Phys α) : Prog Panic Kernel α :=
  onPart Kernel.phys (fun k s => { k with phys := s }) x

theorem onBootPpn_ok {x : Prog Panic BootPages α} (h : x k.bootPpn = .ok (a, b)) :
    onBootPpn x k = .ok (a, { k with bootPpn := b }) := onPart_ok h

theorem onBootVpn_ok {x : Prog Panic BootPages α} (h : x k.bootVpn = .ok (a, b)) :
    onBootVpn x k = .ok (a, { k with bootVpn := b }) := onPart_ok h

theorem onPaging_ok {x : Prog Panic Paging α} (h : x k.paging = .ok (a, p)) :
    onPaging x k = .ok (a, { k with paging := p }) := onPart_ok h

theorem onPhys_ok {x : Prog Panic Phys α} (h : x k.phys = .ok (a, s)) :
    onPhys x k = .ok (a, { k with phys := s }) := onPart_ok h

/-- The flags of every mapping the memory management makes. -/
def kernelPageFlags : Nat := pagePresent ||| pageReadWrite ||| pageSupervisor ||| pageGlobal

end Atros
