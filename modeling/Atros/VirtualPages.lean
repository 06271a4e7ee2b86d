import Atros.SlabObjects

namespace Atros
set_option autoImplicit true

/-- `vregion_cmp`, positive when the second region is the higher one. -/
def vregionCmp (vregion1 : Nat) (vregion2 : Option Nat) : Prog Panic Kernel Int := do
  let vregion2 ← deref vregion2 .vregionCmpNull
  let first1 ← vregionFirstVpn vregion1
  let last1 ← vregionLastVpn vregion1
  let first2 ← vregionFirstVpn vregion2
  let last2 ← vregionLastVpn vregion2
  check (first1 ≤ first2 ∧ last1 ≤ last2 ∨ first2 ≤ first1 ∧ last2 ≤ last1) .vregionCmpNested
  return if first2 = first1 then 0 else if first2 > first1 then 1 else -1

def vregionSplit (vregionToSplit nbrPages : Nat) : Prog Panic Kernel Nat := do
  check ((← (nbrPagesOf vregionToSplit).read) > nbrPages) .splitTooSmall
  let cache ← follow (← get).vpagesCacheVregion
  let vregionUpperPart ← deref (← retrieveFreeObjFromObjsCache cache) .splitWithoutVregion
  (firstVpnOf vregionUpperPart).write (add32 (← vregionFirstVpn vregionToSplit) nbrPages)
  (nbrPagesOf vregionUpperPart).write (sub32 (← (nbrPagesOf vregionToSplit).read) nbrPages)
  (nbrPagesOf vregionToSplit).write nbrPages
  return vregionUpperPart

/-- The search of `_vregion_alloc`, with its `prev` and `current`. -/
def firstFitLoop (nbrPages : Nat) :
    Nat → Option Nat → Option Nat → Prog Panic Kernel (Option Nat × Option Nat)
  | 0, _, _ => throw .endless
  | rounds + 1, prev, current =>
    match current with
    | none => return (prev, none)
    | some region => do
      if (← (nbrPagesOf region).read) ≥ nbrPages then
        return (prev, some region)
      else
        firstFitLoop nbrPages rounds (some region) (← (vregionNextOf region).read)

/-- `_vregion_alloc`. -/
def vregionAlloc_ (nbrPages : Nat) : Prog Panic Kernel (Option Nat) := do
  let first ← freeVregionsVar.read
  check (first ≠ none) .noFreeVregion
  let (prev, found) ← firstFitLoop nbrPages listRounds none first
  match found with
  | some current =>
    listDeleteEl freeVregionsVar vregionNextOf prev current
    if (← (nbrPagesOf current).read) > nbrPages then
      let upperPart ← vregionSplit current nbrPages
      listInsertAfter freeVregionsVar vregionNextOf prev upperPart
    listInsertOrdered usedVregionsVar vregionNextOf listRounds current vregionCmp
    return some current
  | none => return none

end Atros
