import Mathlib.Algebra.Group.Nat.Defs
import Mathlib.Tactic.Common

namespace Atros

/-- Where a call of the kernel can stop without returning. Apart from the first two, each
constructor is one `KASSERT` or one `panic` of the source. -/
inductive Panic
  /-- A dereference of `NULL`; page 0 is never mapped. -/
  | nullDereference
  /-- The call does not come back: a loop or a recursion runs on. -/
  | endless
  -- physical_pages.c
  | ppnBelowFirst
  | ppnAboveLast
  | bootPhysicalPages
  | blockOrderTooLarge
  | ppageBlockAllocFailed
  | blockNotHead
  | blockOrderDiffers
  | blockOrderOutOfRange
  | blockCountNotOne
  | blockStillMapped
  | blockStillInSlab
  | tooManyPpages
  | slabPagesAboveLast
  | slabPagesDiffer
  -- paging.c
  | mapNullPage
  | pageTableNotPresent
  | page4MBNotHandled
  | pageFault
  -- list.h
  | deleteElWithoutPrev
  -- virtual_pages.c
  | bootVirtualPages
  | vregionCmpNull
  | vregionCmpNested
  | splitTooSmall
  | splitWithoutVregion
  | usedVregionsUnordered
  | usedVregionsOverlap
  | bootVregionReserve
  | bootVregionFailed
  | vregionReserve
  | noFreeVregion
  -- slab.c
  | slabAtNull
  | slabListLength
  | slabPopNull
  | slabWithoutVregion
  | freeObjNull
  | slabNotFree
  | slabReserve
  | bootSlabReserve
  | createSlabFailed
  | allocFromCacheFailed
  | retrieveFailed
  | objsCacheFreeNotImplemented
  | refillVregionReserve
  | refillVregionPages
  | refillSlabReserve
  | refillSlabPages
  | refillNoVregion
  | refillNoSlab
  | objSizeZero
  | pagesPerSlabZero
  | objLargerThanSlab
  deriving DecidableEq, Repr

end Atros
