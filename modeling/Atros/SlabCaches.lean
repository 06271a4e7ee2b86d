import Atros.PhysicalPages
import Atros.VirtualPages

namespace Atros
set_option autoImplicit true

def minFreeObjsCacheSlab : Nat := 2
def minFreeObjsCacheVregion : Nat := 2

def vpagesPerSlabCacheObjsCache : Nat := 1
def vpagesPerSlabCacheSlab : Nat := 1
def vpagesPerSlabCacheVregion : Nat := 1

/-! ### The physical pages of a slab -/

def setSlabLoop (slab : Nat) : Nat → Nat → Prog Panic Phys Unit
  | 0, _ => pure ()
  | rounds + 1, ppn => do
    let ppage ← ppnToPpage ppn
    (slabOf ppage).write slab
    setSlabLoop slab rounds (add32 ppn 1)

def ppagesSetSlab (ppn nbrPages slab : Nat) : Prog Panic Kernel Unit := do
  let lastPpn := (← get).phys.lastPpn
  check (ppn ≤ lastPpn) .slabPagesAboveLast
  check (sub32 (add32 ppn nbrPages) 1 ≤ lastPpn) .slabPagesAboveLast
  let vregion ← deref (← (slabVregionOf slab).read) .slabPagesDiffer
  check ((← (nbrPagesOf vregion).read) = nbrPages) .slabPagesDiffer
  onPhys (setSlabLoop slab nbrPages ppn)

/-- Physical pages for a region. -/
def mapVregion (vregion nbrPages : Nat) : Prog Panic Kernel Nat := do
  let slabPpages ← onPhys (ppagesAlloc nbrPages)
  let vpn ← vregionFirstVpn vregion
  onPaging (mapPages slabPpages vpn nbrPages kernelPageFlags)
  return slabPpages

/-! ### Refilling the caches of slabs and of regions

The two functions call each other, at most `depth` calls deep. -/

def cacheOf (cache : Kernel → Option Nat) : Prog Panic Kernel Nat := do
  follow (cache (← get))

mutual

/-- `_create_slab_for_cache_Vregion`. -/
def createSlabForCacheVregion : Nat → Prog Panic Kernel Unit
  | 0 => throw .endless
  | depth + 1 => do
    let cacheVregion ← cacheOf Kernel.cacheVregion
    check ((← (freeObjsCountOf cacheVregion).read) ≥ minFreeObjsCacheVregion - 1)
      .refillVregionReserve
    check ((← (pagesPerSlabOf cacheVregion).read) = vpagesPerSlabCacheVregion)
      .refillVregionPages
    let cacheSlab ← cacheOf Kernel.cacheSlab
    let aVregion ← vregionAlloc_ vpagesPerSlabCacheVregion
    let aSlab ← retrieveFreeObjFromObjsCache cacheSlab
    let aVregion ← deref aVregion .refillNoVregion
    let aSlab ← deref aSlab .refillNoSlab
    let _ ← mapVregion aVregion vpagesPerSlabCacheVregion
    let _ ← initializeSlab aSlab aVregion (← (actualObjSizeOf cacheVregion).read) 0
    objsCacheAddSlab cacheVregion aSlab .statusFree
    if (← (freeObjsCountOf cacheSlab).read) = minFreeObjsCacheSlab - 1 then
      createSlabForCacheSlab depth

/-- `_create_slab_for_cache_Slab`. -/
def createSlabForCacheSlab : Nat → Prog Panic Kernel Unit
  | 0 => throw .endless
  | depth + 1 => do
    let cacheSlab ← cacheOf Kernel.cacheSlab
    check ((← (freeObjsCountOf cacheSlab).read) ≥ minFreeObjsCacheSlab - 1) .refillSlabReserve
    check ((← (pagesPerSlabOf cacheSlab).read) = vpagesPerSlabCacheSlab) .refillSlabPages
    -- the source asks for `VPAGES_PER_SLAB_CACHE_VREGION` pages here too
    let aVregion ← vregionAlloc_ vpagesPerSlabCacheVregion
    let aSlab ← retrieveFreeObjFromObjsCache cacheSlab
    let aVregion ← deref aVregion .refillNoVregion
    let aSlab ← deref aSlab .refillNoSlab
    let _ ← mapVregion aVregion vpagesPerSlabCacheSlab
    let _ ← initializeSlab aSlab aVregion (← (actualObjSizeOf cacheSlab).read) 0
    objsCacheAddSlab cacheSlab aSlab .statusFree
    let cacheVregion ← cacheOf Kernel.cacheVregion
    if (← (freeObjsCountOf cacheVregion).read) = minFreeObjsCacheVregion - 1 then
      createSlabForCacheVregion depth

end

def vregionAlloc (depth nbrPages : Nat) : Prog Panic Kernel (Option Nat) := do
  let cacheVregion ← cacheOf Kernel.vpagesCacheVregion
  check ((← (freeObjsCountOf cacheVregion).read) ≥ minFreeObjsCacheVregion) .vregionReserve
  if (← (freeObjsCountOf cacheVregion).read) = minFreeObjsCacheVregion then
    createSlabForCacheVregion depth
  vregionAlloc_ nbrPages

/-! ### Allocation of objects -/

/-- `objs_cache_free`, which is not implemented. -/
def objsCacheFree (_cache _obj : Nat) : Prog Panic Kernel Unit :=
  throw .objsCacheFreeNotImplemented

mutual

def createSlab : Nat → Nat → Nat → Prog Panic Kernel (Option Nat)
  | 0, _, _ => throw .endless
  | depth + 1, nbrPages, actualObjSize => do
    let cacheSlab ← cacheOf Kernel.cacheSlab
    let newSlab ← objsCacheAlloc depth cacheSlab
    match (← vregionAlloc depth nbrPages) with
    | some slabVregion =>
      let slabPpages ← mapVregion slabVregion nbrPages
      let _ ← initializeSlab newSlab slabVregion actualObjSize 0
      ppagesSetSlab slabPpages nbrPages newSlab
      return some newSlab
    | none =>
      objsCacheFree cacheSlab newSlab
      return none

def objsCacheAlloc : Nat → Nat → Prog Panic Kernel Nat
  | 0, _ => throw .endless
  | depth + 1, cache => do
    let cacheSlab ← cacheOf Kernel.cacheSlab
    check ((← (freeObjsCountOf cacheSlab).read) ≥ minFreeObjsCacheSlab) .slabReserve
    if (← (freeObjsCountOf cacheSlab).read) = minFreeObjsCacheSlab then
      createSlabForCacheSlab depth
    let cacheVregion ← cacheOf Kernel.cacheVregion
    if (← (freeObjsCountOf cacheVregion).read) = minFreeObjsCacheVregion then
      createSlabForCacheVregion depth
    if (← (freeObjsCountOf cache).read) = 0 then
      let pagesPerSlab ← (pagesPerSlabOf cache).read
      let newSlab ← deref (← createSlab depth pagesPerSlab (← (actualObjSizeOf cache).read))
        .createSlabFailed
      objsCacheAddSlab cache newSlab .statusFree
    deref (← retrieveFreeObjFromObjsCache cache) .allocFromCacheFailed

end

/-! ### Caches -/

/-- `strncpy`: the bytes of the string `src`, then zeros, `num` bytes in all. -/
def strncpy (dest : Nat) : List UInt8 → Nat → Mem → Mem
  | _, 0, m => m
  | [], num + 1, m => strncpy (dest + 1) [] num (Function.update m dest 0)
  | c :: src, num + 1, m =>
    strncpy (dest + 1) (if c = 0 then [] else src) num (Function.update m dest c)

def setName (cache : Nat) (name : Option (List UInt8)) (m : Mem) : Mem :=
  match name with
  | some name =>
    Function.update (strncpy cache name cacheNameMaxLength m) (cache + cacheNameMaxLength) 0
  | none => Function.update m cache 0

def objsCacheInit (cache : Nat) (name : Option (List UInt8)) (objSize pagesPerSlab : Nat) :
    Prog Panic Kernel Unit := do
  check (objSize > 0) .objSizeZero
  check (pagesPerSlab > 0) .pagesPerSlabZero
  check (objSize ≤ mul32 pagesPerSlab vpageSize) .objLargerThanSlab
  modify fun k => { k with mem := setName cache name k.mem }
  (objSizeOf cache).write objSize
  (actualObjSizeOf cache).write (max objSize sizeofPointer)
  (pagesPerSlabOf cache).write pagesPerSlab
  (slabSizeOf cache).write (mul32 pagesPerSlab vpageSize)
  (objsPerSlabOf cache).write
    (mul32 pagesPerSlab vpageSize / (← (actualObjSizeOf cache).read))
  (wastedMemoryPerSlabOf cache).write (sub32 (← (slabSizeOf cache).read)
    (mul32 (← (objsPerSlabOf cache).read) (← (actualObjSizeOf cache).read)))
  (freeObjsCountOf cache).write 0
  (usedObjsCountOf cache).write 0
  (slabsCountOf cache).write 0
  (slabsCountOfStatus .statusFree cache).write 0
  (slabsCountOfStatus .statusPartial cache).write 0
  (slabsCountOfStatus .statusFull cache).write 0
  (slabsOfStatus .statusFree cache).write none
  (slabsOfStatus .statusPartial cache).write none
  (slabsOfStatus .statusFull cache).write none
  (cachePrevOf cache).write none
  (cacheNextOf cache).write none
  clistPushTail cachesClistVar cachePrevOf cacheNextOf cache

def objsCacheCreate (depth : Nat) (name : Option (List UInt8)) (objSize pagesPerSlab : Nat) :
    Prog Panic Kernel (Option Nat) := do
  if max objSize sizeofPointer ≤ mul32 pagesPerSlab vpageSize then
    let newCache ← objsCacheAlloc depth (← cacheOf Kernel.cacheObjsCache)
    objsCacheInit newCache name objSize pagesPerSlab
    return some newCache
  else
    return none

attribute [irreducible] ppagesSetSlab objsCacheInit

end Atros
