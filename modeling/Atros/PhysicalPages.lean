import Atros.Word
import Atros.ClistRing

namespace Atros
set_option autoImplicit true

def maxPpageBlockOrder : Nat := 10

def ppageShift : Nat := 12
def ppageSize : Nat := 1 <<< ppageShift

/-- `struct Physical_page_dscr`, 24 bytes. Pointers to descriptors are indices into the array
`ppages_dscrs`. -/
structure Ppage where
  blockHead : Bool
  blockOrder : Nat
  count : Nat
  slab : Nat
  mapping : Nat
  prev : Option Nat
  next : Option Nat
  deriving DecidableEq, Repr

def sizeofPpage : Nat := 24

/-- The state of the physical pages allocator. -/
structure Phys where
  firstPpn : Nat
  lastPpn : Nat
  dscrs : Nat → Ppage
  freeClists : Nat → Option Nat
  usedClists : Nat → Option Nat

/-- `PPAGE_STATUS_FREE` and `PPAGE_STATUS_USED`. -/
inductive PpageStatus
  | free
  | used
  deriving DecidableEq, Repr

def PpageStatus.count : PpageStatus → Nat
  | free => 0
  | used => 1

/-! ### Fields and variables -/

def Phys.setDscr (s : Phys) (i : Nat) (d : Ppage) : Phys :=
  { s with dscrs := Function.update s.dscrs i d }

def prevOf (i : Nat) : Place Phys (Option Nat) where
  get s := (s.dscrs i).prev
  set v s := s.setDscr i { s.dscrs i with prev := v }

def nextOf (i : Nat) : Place Phys (Option Nat) where
  get s := (s.dscrs i).next
  set v s := s.setDscr i { s.dscrs i with next := v }

def blockHeadOf (i : Nat) : Place Phys Bool where
  get s := (s.dscrs i).blockHead
  set v s := s.setDscr i { s.dscrs i with blockHead := v }

def blockOrderOf (i : Nat) : Place Phys Nat where
  get s := (s.dscrs i).blockOrder
  set v s := s.setDscr i { s.dscrs i with blockOrder := v }

def countOf (i : Nat) : Place Phys Nat where
  get s := (s.dscrs i).count
  set v s := s.setDscr i { s.dscrs i with count := v }

def slabOf (i : Nat) : Place Phys Nat where
  get s := (s.dscrs i).slab
  set v s := s.setDscr i { s.dscrs i with slab := v }

def mappingOf (i : Nat) : Place Phys Nat where
  get s := (s.dscrs i).mapping
  set v s := s.setDscr i { s.dscrs i with mapping := v }

def freePpagesBlocksClist (order : Nat) : Place Phys (Option Nat) where
  get s := s.freeClists order
  set v s := { s with freeClists := Function.update s.freeClists order v }

def usedPpagesBlocksClist (order : Nat) : Place Phys (Option Nat) where
  get s := s.usedClists order
  set v s := { s with usedClists := Function.update s.usedClists order v }

def PpageStatus.clist : PpageStatus → Nat → Place Phys (Option Nat)
  | free => freePpagesBlocksClist
  | used => usedPpagesBlocksClist

/-! ### The functions -/

def isBuddyBlock (ppnBlock order : Nat) : Bool := ppnBlock % (1 <<< order) = 0

def ppageSetFree (ppage : Nat) : Prog Panic Phys Unit := (countOf ppage).write 0
def ppageSetUsed (ppage : Nat) : Prog Panic Phys Unit := (countOf ppage).write 1

def PpageStatus.set : PpageStatus → Nat → Prog Panic Phys Unit
  | free => ppageSetFree
  | used => ppageSetUsed

/-- `ppage_to_ppn`: a descriptor pointer is the index of its page. -/
def ppageToPpn (ppage : Nat) : Nat := ppage

def ppnToPpage (ppn : Nat) : Prog Panic Phys Nat := do
  let s ← get
  check (s.firstPpn ≤ ppn) .ppnBelowFirst
  check (s.lastPpn ≥ ppn) .ppnAboveLast
  return ppn

def ppageIsFree (ppage : Nat) : Prog Panic Phys Bool := do
  return (← (countOf ppage).read) = 0

/-- The inner loop of `_range_ppages_set_status`, from `order` down. -/
def biggestOrder (ppn lastPpage : Nat) : Nat → Option Nat
  | 0 =>
    if isBuddyBlock ppn 0 ∧ sub32 (add32 ppn (1 <<< 0)) 1 ≤ lastPpage then some 0 else none
  | order + 1 =>
    if isBuddyBlock ppn (order + 1) ∧ sub32 (add32 ppn (1 <<< (order + 1))) 1 ≤ lastPpage then
      some (order + 1)
    else biggestOrder ppn lastPpage order

/-- The descriptors of the pages of a block after its head. -/
def setBlockTail (status : PpageStatus) (order : Nat) : Nat → Nat → Prog Panic Phys Unit
  | 0, _ => pure ()
  | rounds + 1, i => do
    status.set i
    (blockHeadOf i).write false
    (blockOrderOf i).write order
    (slabOf i).write 0
    (mappingOf i).write 0
    (prevOf i).write none
    (nextOf i).write none
    setBlockTail status order rounds (i + 1)

def setBlock (status : PpageStatus) (ppn order : Nat) : Prog Panic Phys Unit := do
  status.set ppn
  (blockHeadOf ppn).write true
  (blockOrderOf ppn).write order
  (slabOf ppn).write 0
  (mappingOf ppn).write 0
  clistPushTail (status.clist order) prevOf nextOf ppn
  setBlockTail status order ((1 <<< order) - 1) (ppn + 1)

def rangeLoop (status : PpageStatus) (lastPpage : Nat) : Nat → Nat → Prog Panic Phys Unit
  | 0, _ => throw .endless
  | rounds + 1, ppn => do
    if ppn ≤ lastPpage then
      let order ← deref (biggestOrder ppn lastPpage (maxPpageBlockOrder - 1)) .endless
      setBlock status ppn order
      rangeLoop status lastPpage rounds (add32 ppn (1 <<< order))

/-- Each round of the loop but the last passes at least one page. -/
def rangePpagesSetStatus (firstPpage lastPpage : Nat) (status : PpageStatus) :
    Prog Panic Phys Unit :=
  rangeLoop status lastPpage (lastPpage + 1 - firstPpage + 1) firstPpage

/-- `_ppage_block_alloc`, which calls itself for the next order until an order has a free
block or `KASSERT(order < MAX_PPAGE_BLOCK_ORDER)` fails; `rounds` is
`MAX_PPAGE_BLOCK_ORDER - order`. -/
def ppageBlockAllocFrom : Nat → Nat → Prog Panic Phys (Option Nat)
  | 0, _ => throw .blockOrderTooLarge
  | rounds + 1, order => do
    check (order < maxPpageBlockOrder) .blockOrderTooLarge
    if (← (freePpagesBlocksClist order).read) = none then
      match (← ppageBlockAllocFrom rounds (order + 1)) with
      | some biggerBlock =>
        let upperPart ← ppnToPpage (add32 (ppageToPpn biggerBlock) (1 <<< order))
        (blockHeadOf upperPart).write true
        (blockOrderOf upperPart).write order
        ppageSetFree upperPart
        clistPushTail (freePpagesBlocksClist order) prevOf nextOf upperPart
        -- `block_order` is an 8-bit field
        (blockOrderOf biggerBlock).write (((← (blockOrderOf biggerBlock).read) + 255) % 256)
        clistPushTail (usedPpagesBlocksClist order) prevOf nextOf biggerBlock
        return some biggerBlock
      | none => return none
    else
      let toReturn ← clistPopHead (freePpagesBlocksClist order) prevOf nextOf
      clistPushTail (usedPpagesBlocksClist order) prevOf nextOf toReturn
      ppageSetUsed toReturn
      return some toReturn

def ppageBlockAlloc_ (order : Nat) : Prog Panic Phys (Option Nat) :=
  ppageBlockAllocFrom (maxPpageBlockOrder - order) order

def ppageBlockAlloc (order : Nat) : Prog Panic Phys Nat := do
  let toReturn ← deref (← ppageBlockAlloc_ order) .ppageBlockAllocFailed
  return ppageToPpn toReturn

def ppageAlloc : Prog Panic Phys Nat := ppageBlockAlloc 0

/-- The loop of `ppages_alloc`, from `order` up. -/
def enoughOrder (nbrPpages : Nat) : Nat → Nat → Nat
  | 0, order => order
  | rounds + 1, order =>
    if nbrPpages ≤ 1 <<< order then order else enoughOrder nbrPpages rounds (order + 1)

def ppagesAlloc (nbrPpages : Nat) : Prog Panic Phys Nat := do
  check (¬nbrPpages ≥ 1 <<< maxPpageBlockOrder) .tooManyPpages
  ppageBlockAlloc (enoughOrder nbrPpages maxPpageBlockOrder 0)

def findBuddy (addr order : Nat) : Nat := addr &&& (1 <<< order)

/-- The test of the merging loop of `_ppage_block_free`. -/
def isFreeBuddy (buddy order : Nat) : Prog Panic Phys Bool := do
  return (← ppageIsFree buddy) ∧ (← (blockHeadOf buddy).read) = true ∧
    (← (blockOrderOf buddy).read) = order

/-- The merging loop; `rounds` is `MAX_PPAGE_BLOCK_ORDER - 1 - order`. -/
def mergeLoop : Nat → Nat → Nat → Prog Panic Phys (Nat × Nat)
  | 0, block, order => pure (block, order)
  | rounds + 1, block, order => do
    let buddyPpn := findBuddy (ppageToPpn block) (← (blockOrderOf block).read)
    let buddy ← ppnToPpage buddyPpn
    if (← isFreeBuddy buddy order) then
      clistDeleteEl (freePpagesBlocksClist order) prevOf nextOf buddy
      (blockHeadOf block).write false
      (blockHeadOf buddy).write false
      let mergedBlock ← ppnToPpage (ppageToPpn block &&& buddyPpn)
      (blockHeadOf mergedBlock).write true
      (blockOrderOf mergedBlock).write (order + 1)
      mergeLoop rounds mergedBlock (order + 1)
    else
      return (block, order)

def ppageBlockFree_ (block order : Nat) : Prog Panic Phys Unit := do
  check ((← (blockHeadOf block).read) = true) .blockNotHead
  check ((← (blockOrderOf block).read) = order) .blockOrderDiffers
  check ((← (blockOrderOf block).read) < maxPpageBlockOrder) .blockOrderOutOfRange
  check ((← (countOf block).read) = 1) .blockCountNotOne
  check ((← (mappingOf block).read) = 0) .blockStillMapped
  check ((← (slabOf block).read) = 0) .blockStillInSlab
  clistDeleteEl (usedPpagesBlocksClist order) prevOf nextOf block
  ppageSetFree block
  let (block, order) ← mergeLoop (maxPpageBlockOrder - 1 - order) block order
  clistPushTail (freePpagesBlocksClist order) prevOf nextOf block

def ppageBlockFree (ppn order : Nat) : Prog Panic Phys Unit := do
  ppageBlockFree_ (← ppnToPpage ppn) order

def ppageFree (ppn : Nat) : Prog Panic Phys Unit := do
  ppageBlockFree_ (← ppnToPpage ppn) 0

end Atros
