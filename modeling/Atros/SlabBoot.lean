import Atros.SlabCaches

namespace Atros
set_option autoImplicit true

/-- The check of the order of the used regions in `virtual_page_boot_init`. -/
def usedVregionsLoop : Nat → Option Nat → Prog Panic Kernel Unit
  | 0, _ => throw .endless
  | rounds + 1, current =>
    match current with
    | none => pure ()
    | some current => do
      let next ← (vregionNextOf current).read
      match next with
      | some region => do
        check (¬(← vregionFirstVpn current) > (← vregionFirstVpn region)) .usedVregionsUnordered
        check (¬(← vregionLastVpn current) ≥ (← vregionFirstVpn region)) .usedVregionsOverlap
      | none => pure ()
      usedVregionsLoop rounds next

def virtualPageBootInit (depth cache firstUsedVregion : Nat) : Prog Panic Kernel Unit := do
  check ((← (freeObjsCountOf cache).read) > minFreeObjsCacheVregion) .bootVregionReserve
  modify fun k => { k with vpagesCacheVregion := some cache }
  usedVregionsVar.write (some firstUsedVregion)
  usedVregionsLoop listRounds (some firstUsedVregion)
  let freeRegion ← objsCacheAlloc depth cache
  freeVregionsVar.write (some freeRegion)
  let k ← get
  vregionInit freeRegion k.bootVpn.firstFree
    (add32 (sub32 k.bootVpn.lastFree k.bootVpn.firstFree) 1)

/-- The names of the first caches. -/
def nameObjsCache : List UInt8 := [79, 98, 106, 115, 95, 99, 97, 99, 104, 101]
def nameSlab : List UInt8 := [83, 108, 97, 98]
def nameVregion : List UInt8 := [86, 114, 101, 103, 105, 111, 110]

def objsCacheBootInit (depth : Nat) : Prog Panic Kernel Unit := do
  let objsCacheSlabVpn ← onBootVpn (bootVirtualPagesAlloc vpagesPerSlabCacheObjsCache)
  let slabSlabVpn ← onBootVpn (bootVirtualPagesAlloc vpagesPerSlabCacheSlab)
  let vregionSlabVpn ← onBootVpn (bootVirtualPagesAlloc vpagesPerSlabCacheVregion)
  let ppagesForObjsCacheSlab ← onPhys (ppagesAlloc vpagesPerSlabCacheObjsCache)
  let ppagesForSlabSlab ← onPhys (ppagesAlloc vpagesPerSlabCacheSlab)
  let ppagesForVregionSlab ← onPhys (ppagesAlloc vpagesPerSlabCacheVregion)
  onPaging (mapPages ppagesForObjsCacheSlab objsCacheSlabVpn vpagesPerSlabCacheObjsCache
    kernelPageFlags)
  onPaging (mapPages ppagesForSlabSlab slabSlabVpn vpagesPerSlabCacheSlab kernelPageFlags)
  onPaging (mapPages ppagesForVregionSlab vregionSlabVpn vpagesPerSlabCacheVregion
    kernelPageFlags)
  let anObjsCache := vpnToVaddr objsCacheSlabVpn
  let aSlab := vpnToVaddr slabSlabVpn
  let aVregion := vpnToVaddr vregionSlabVpn
  vregionInit aVregion objsCacheSlabVpn vpagesPerSlabCacheObjsCache
  vregionInit (aVregion + sizeofVregion) slabSlabVpn vpagesPerSlabCacheSlab
  vregionInit (aVregion + 2 * sizeofVregion) vregionSlabVpn vpagesPerSlabCacheVregion
  (vregionNextOf aVregion).write (some (aVregion + sizeofVregion))
  (vregionNextOf (aVregion + sizeofVregion)).write (some (aVregion + 2 * sizeofVregion))
  (vregionNextOf (aVregion + 2 * sizeofVregion)).write none
  let _ ← initializeSlab aSlab aVregion (max sizeofObjsCache sizeofPointer) 3
  let _ ← initializeSlab (aSlab + sizeofSlab) (aVregion + sizeofVregion)
    (max sizeofSlab sizeofPointer) 3
  let _ ← initializeSlab (aSlab + 2 * sizeofSlab) (aVregion + 2 * sizeofVregion)
    (max sizeofVregion sizeofPointer) 3
  ppagesSetSlab ppagesForObjsCacheSlab vpagesPerSlabCacheObjsCache aSlab
  ppagesSetSlab ppagesForSlabSlab vpagesPerSlabCacheSlab (aSlab + sizeofSlab)
  ppagesSetSlab ppagesForVregionSlab vpagesPerSlabCacheVregion (aSlab + 2 * sizeofSlab)
  objsCacheInit anObjsCache (some nameObjsCache) sizeofObjsCache vpagesPerSlabCacheObjsCache
  objsCacheInit (anObjsCache + sizeofObjsCache) (some nameSlab) sizeofSlab vpagesPerSlabCacheSlab
  objsCacheInit (anObjsCache + 2 * sizeofObjsCache) (some nameVregion) sizeofVregion
    vpagesPerSlabCacheVregion
  modify fun k => { k with
    cacheObjsCache := some anObjsCache
    cacheSlab := some (anObjsCache + sizeofObjsCache)
    cacheVregion := some (anObjsCache + 2 * sizeofObjsCache) }
  objsCacheAddSlab anObjsCache aSlab .statusPartial
  objsCacheAddSlab (anObjsCache + sizeofObjsCache) (aSlab + sizeofSlab) .statusPartial
  objsCacheAddSlab (anObjsCache + 2 * sizeofObjsCache) (aSlab + 2 * sizeofSlab) .statusPartial
  check ((← (freeObjsCountOf (anObjsCache + sizeofObjsCache)).read) > minFreeObjsCacheSlab)
    .bootSlabReserve
  virtualPageBootInit depth (anObjsCache + 2 * sizeofObjsCache) aVregion

end Atros
