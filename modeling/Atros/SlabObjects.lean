import Atros.Paging
import Atros.Structs

namespace Atros
set_option autoImplicit true

/-! The functions of slab.c that work on one slab or on one cache, and those of
virtual_pages.c that read a region. -/

def vpageShift : Nat := 12
def vpageSize : Nat := 1 <<< vpageShift

def vregionFirstVpn (vregion : Nat) : Prog Panic Kernel Nat := (firstVpnOf vregion).read

def vregionLastVpn (vregion : Nat) : Prog Panic Kernel Nat := do
  return sub32 (add32 (← (firstVpnOf vregion).read) (← (nbrPagesOf vregion).read)) 1

def vregionSize (vregion : Nat) : Prog Panic Kernel Nat := do
  return mul32 (← (nbrPagesOf vregion).read) vpageSize

def vregionInit (region firstVpn nbrPages : Nat) : Prog Panic Kernel Unit := do
  (firstVpnOf region).write firstVpn
  (nbrPagesOf region).write nbrPages

/-! ### One slab -/

def isVaddrInSlab (slab vaddr : Nat) : Prog Panic Kernel Bool := do
  let vregion ← deref (← (slabVregionOf slab).read) .slabWithoutVregion
  return (← vregionFirstVpn vregion) ≤ vaddrToVpn vaddr ∧
    vaddrToVpn vaddr ≤ (← vregionLastVpn vregion)

def isSlabFull (slab : Nat) : Prog Panic Kernel Bool := do
  return (← (slabFreeObjsCountOf slab).read) = 0

/-- The loop of `initialize_slab`, which reads the number of objects again in each round. -/
def initializeLoop (slab actualObjSize : Nat) : Nat → Nat → Nat → Prog Panic Kernel Nat
  | 0, _, _ => throw .endless
  | rounds + 1, i, currentObj => do
    if i < (← (slabFreeObjsCountOf slab).read) then
      let nextObj := add32 currentObj actualObjSize
      (objectNextOf currentObj).write (toPtr nextObj)
      initializeLoop slab actualObjSize rounds (i + 1) nextObj
    else
      return currentObj

def initializeSlab (slab slabVregion actualObjSize nbrObjAlreadyUsed : Nat) :
    Prog Panic Kernel (Option Nat) := do
  check (vpnToVaddr (← vregionFirstVpn slabVregion) ≠ 0) .slabAtNull
  (slabFreeObjsCountOf slab).write
    (sub32 ((← vregionSize slabVregion) / actualObjSize) nbrObjAlreadyUsed)
  (slabVregionOf slab).write (some slabVregion)
  (freeObjsListOf slab).write none
  (slabPrevOf slab).write none
  (slabNextOf slab).write none
  if (← vregionSize slabVregion) ≥ actualObjSize then
    let slabVregionVaddr := vpnToVaddr (← vregionFirstVpn slabVregion)
    let firstObj := add32 slabVregionVaddr (mul32 nbrObjAlreadyUsed actualObjSize)
    (freeObjsListOf slab).write (toPtr firstObj)
    let lastObj ← initializeLoop slab actualObjSize listRounds 1 firstObj
    (objectNextOf lastObj).write none
    let length ← listLength (freeObjsListOf slab) objectNextOf listRounds
    check ((← (slabFreeObjsCountOf slab).read) = length) .slabListLength
    return some slab
  else
    return none

def allocObjFromSlab (slab : Nat) : Prog Panic Kernel (Option Nat) := do
  if (← (slabFreeObjsCountOf slab).read) > 0 then
    let allocatedObj ← listPopHead (freeObjsListOf slab) objectNextOf
    check (allocatedObj ≠ none) .slabPopNull
    (slabFreeObjsCountOf slab).write (sub32 (← (slabFreeObjsCountOf slab).read) 1)
    return allocatedObj
  else
    return none

def freeObjFromSlab (slab obj : Nat) : Prog Panic Kernel Bool := do
  check (obj ≠ 0) .freeObjNull
  if (← isVaddrInSlab slab obj) then
    (slabFreeObjsCountOf slab).write (add32 (← (slabFreeObjsCountOf slab).read) 1)
    listPushHead (freeObjsListOf slab) objectNextOf obj
    return true
  else
    return false

/-! ### One cache -/

def Place.increase (x : Place Kernel Nat) (n : Nat) : Prog Panic Kernel Unit := do
  x.write (add32 (← x.read) n)

def Place.decrease (x : Place Kernel Nat) (n : Nat) : Prog Panic Kernel Unit := do
  x.write (sub32 (← x.read) n)

def objsCacheAddSlab (cache slab : Nat) (slabStatus : SlabStatus) : Prog Panic Kernel Unit := do
  check (slabStatus ≠ .statusFree ∨
    (← (objsPerSlabOf cache).read) = (← (slabFreeObjsCountOf slab).read)) .slabNotFree
  match slabStatus with
  | .statusFree => (freeObjsCountOf cache).increase (← (objsPerSlabOf cache).read)
  | .statusPartial =>
    (freeObjsCountOf cache).increase (← (slabFreeObjsCountOf slab).read)
    (usedObjsCountOf cache).increase
      (sub32 (← (objsPerSlabOf cache).read) (← (slabFreeObjsCountOf slab).read))
  | .statusFull => (usedObjsCountOf cache).increase (← (objsPerSlabOf cache).read)
  (slabsCountOfStatus slabStatus cache).increase 1
  dlistPushHead (slabsOfStatus slabStatus cache) slabPrevOf slabNextOf slab
  (slabsCountOf cache).increase 1

/-- The first slab of one list goes to another list. -/
def moveSlab (cache slab : Nat) (source target : SlabStatus) : Prog Panic Kernel Unit := do
  dlistDeleteHead (slabsOfStatus source cache) slabPrevOf slabNextOf slab
  dlistPushHead (slabsOfStatus target cache) slabPrevOf slabNextOf slab
  (slabsCountOfStatus source cache).decrease 1
  (slabsCountOfStatus target cache).increase 1

/-- `_retrieve_free_obj_from_objs_cache`. -/
def retrieveFreeObjFromObjsCache (cache : Nat) : Prog Panic Kernel (Option Nat) := do
  match (← (slabsOfStatus .statusPartial cache).read) with
  | some slab =>
    let allocatedObj ← deref (← allocObjFromSlab slab) .retrieveFailed
    (freeObjsCountOf cache).decrease 1
    (usedObjsCountOf cache).increase 1
    if (← isSlabFull slab) then
      moveSlab cache slab .statusPartial .statusFull
    return some allocatedObj
  | none =>
    match (← (slabsOfStatus .statusFree cache).read) with
    | some slab =>
      let allocatedObj ← deref (← allocObjFromSlab slab) .retrieveFailed
      (freeObjsCountOf cache).decrease 1
      (usedObjsCountOf cache).increase 1
      if ¬(← isSlabFull slab) then
        moveSlab cache slab .statusFree .statusPartial
      else
        moveSlab cache slab .statusFree .statusFull
      return some allocatedObj
    | none => return none

attribute [irreducible] initializeSlab objsCacheAddSlab vregionInit

end Atros
