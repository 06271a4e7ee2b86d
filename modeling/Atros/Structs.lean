import Atros.Memory
import Atros.ListMacros
import Atros.Kernel

namespace Atros
set_option autoImplicit true

/-! The structures that the kernel keeps in its memory, as the words at their fields. -/

/-- The pointer stored in a word; 0 is `NULL`. -/
def toPtr (w : Nat) : Option Nat := if w = 0 then none else some w

def ofPtr : Option Nat → Nat
  | none => 0
  | some a => a

def wordAt (a : Nat) : Place Kernel Nat where
  get k := load32 k.mem a
  set v k := { k with mem := store32 a v k.mem }

def pointerAt (a : Nat) : Place Kernel (Option Nat) where
  get k := toPtr (load32 k.mem a)
  set v k := { k with mem := store32 a (ofPtr v) k.mem }

/-- `struct Virtual_region`, `struct Slab_object`, `struct Slab` and `struct Objs_cache`. -/
inductive Struct
  | vregion
  | object
  | slab
  | cache
  deriving DecidableEq, Repr

def sizeofVregion : Nat := 12
def sizeofPointer : Nat := 4
def sizeofSlab : Nat := 20
def sizeofObjsCache : Nat := 100

def Struct.size : Struct → Nat
  | vregion => sizeofVregion
  | object => sizeofPointer
  | slab => sizeofSlab
  | cache => sizeofObjsCache

/-- `SLAB_STATUS_FREE`, `SLAB_STATUS_PARTIAL` and `SLAB_STATUS_FULL`. -/
inductive SlabStatus
  | statusFree
  | statusPartial
  | statusFull
  deriving DecidableEq, Repr

/-- The integer fields. A cache counts its slabs by their status. -/
inductive WordField
  | firstVpn
  | nbrPages
  | slabFreeObjsCount
  | objSize
  | actualObjSize
  | pagesPerSlab
  | slabSize
  | objsPerSlab
  | wastedMemoryPerSlab
  | freeObjsCount
  | usedObjsCount
  | slabsCount
  | statusCount (status : SlabStatus)
  deriving DecidableEq, Repr

/-- The pointer fields. A cache has one list of slabs for each status. -/
inductive PointerField
  | vregionNext
  | objectNext
  | slabVregion
  | freeObjsList
  | slabPrev
  | slabNext
  | statusList (status : SlabStatus)
  | cachePrev
  | cacheNext
  deriving DecidableEq, Repr

def WordField.struct : WordField → Struct
  | firstVpn | nbrPages => .vregion
  | slabFreeObjsCount => .slab
  | _ => .cache

def PointerField.struct : PointerField → Struct
  | vregionNext => .vregion
  | objectNext => .object
  | slabVregion | freeObjsList | slabPrev | slabNext => .slab
  | _ => .cache

-- a cache starts with its name, and has two unused function pointers at 32 and 36
def WordField.offset : WordField → Nat
  | firstVpn => 0
  | nbrPages => 4
  | slabFreeObjsCount => 0
  | objSize => 24
  | actualObjSize => 28
  | pagesPerSlab => 40
  | slabSize => 44
  | objsPerSlab => 48
  | wastedMemoryPerSlab => 52
  | freeObjsCount => 56
  | usedObjsCount => 60
  | slabsCount => 64
  | statusCount .statusFree => 68
  | statusCount .statusPartial => 72
  | statusCount .statusFull => 76

def PointerField.offset : PointerField → Nat
  | vregionNext => 8
  | objectNext => 0
  | slabVregion => 4
  | freeObjsList => 8
  | slabPrev => 12
  | slabNext => 16
  | statusList .statusFree => 80
  | statusList .statusPartial => 84
  | statusList .statusFull => 88
  | cachePrev => 92
  | cacheNext => 96

def WordField.of (f : WordField) (a : Nat) : Place Kernel Nat := wordAt (a + f.offset)

def PointerField.of (f : PointerField) (a : Nat) : Place Kernel (Option Nat) :=
  pointerAt (a + f.offset)

def firstVpnOf : Nat → Place Kernel Nat := WordField.firstVpn.of
def nbrPagesOf : Nat → Place Kernel Nat := WordField.nbrPages.of
def vregionNextOf : Nat → Place Kernel (Option Nat) := PointerField.vregionNext.of

def objectNextOf : Nat → Place Kernel (Option Nat) := PointerField.objectNext.of

def slabFreeObjsCountOf : Nat → Place Kernel Nat := WordField.slabFreeObjsCount.of
def slabVregionOf : Nat → Place Kernel (Option Nat) := PointerField.slabVregion.of
def freeObjsListOf : Nat → Place Kernel (Option Nat) := PointerField.freeObjsList.of
def slabPrevOf : Nat → Place Kernel (Option Nat) := PointerField.slabPrev.of
def slabNextOf : Nat → Place Kernel (Option Nat) := PointerField.slabNext.of

def objSizeOf : Nat → Place Kernel Nat := WordField.objSize.of
def actualObjSizeOf : Nat → Place Kernel Nat := WordField.actualObjSize.of
def pagesPerSlabOf : Nat → Place Kernel Nat := WordField.pagesPerSlab.of
def slabSizeOf : Nat → Place Kernel Nat := WordField.slabSize.of
def objsPerSlabOf : Nat → Place Kernel Nat := WordField.objsPerSlab.of
def wastedMemoryPerSlabOf : Nat → Place Kernel Nat := WordField.wastedMemoryPerSlab.of
def freeObjsCountOf : Nat → Place Kernel Nat := WordField.freeObjsCount.of
def usedObjsCountOf : Nat → Place Kernel Nat := WordField.usedObjsCount.of
def slabsCountOf : Nat → Place Kernel Nat := WordField.slabsCount.of
def slabsCountOfStatus (status : SlabStatus) : Nat → Place Kernel Nat :=
  (WordField.statusCount status).of
def slabsOfStatus (status : SlabStatus) : Nat → Place Kernel (Option Nat) :=
  (PointerField.statusList status).of
def cachePrevOf : Nat → Place Kernel (Option Nat) := PointerField.cachePrev.of
def cacheNextOf : Nat → Place Kernel (Option Nat) := PointerField.cacheNext.of

def cacheNameMaxLength : Nat := 20

/-! ### Static variables -/

def freeVregionsVar : Place Kernel (Option Nat) where
  get k := k.freeVregions
  set v k := { k with freeVregions := v }

def usedVregionsVar : Place Kernel (Option Nat) where
  get k := k.usedVregions
  set v k := { k with usedVregions := v }

def cachesClistVar : Place Kernel (Option Nat) where
  get k := k.cachesClist
  set v k := { k with cachesClist := v }

/-- A bound on the rounds of a walk along a list: there are no more nodes than addresses. -/
def listRounds : Nat := 2 ^ 32

end Atros
