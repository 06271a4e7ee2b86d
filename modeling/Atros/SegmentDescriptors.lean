import Mathlib.Data.Nat.Bitwise
import Mathlib.Logic.Function.Basic
import Mathlib.Tactic.Common

namespace Atros
set_option autoImplicit true

/-- `NBR_GDT_ENTRIES`. -/
def nbrGdtEntries : Nat := 16

/-- `struct Gdt_entry`. -/
@[ext] structure GdtEntry where
  segLimit_0_15 : BitVec 16
  baseAddr_0_15 : BitVec 16
  baseAddr_16_23 : BitVec 8
  flags1 : BitVec 8
  flags2 : BitVec 8
  baseAddr_24_31 : BitVec 8
  deriving DecidableEq, Repr

abbrev Gdt := Fin nbrGdtEntries → GdtEntry

def setGdtEntry (n base limit : BitVec 32) (flags1 flags2 : BitVec 8) (kgdt : Gdt) : Gdt :=
  if h : n.toNat < nbrGdtEntries then
    Function.update kgdt ⟨n.toNat, h⟩ {
      segLimit_0_15 := (limit &&& 0xFFFF#32).setWidth 16
      baseAddr_0_15 := (base &&& 0xFFFF#32).setWidth 16
      baseAddr_16_23 := ((base >>> 16) &&& 0xFF#32).setWidth 8
      flags1 := flags1
      flags2 := flags2 ||| ((limit >>> 16) &&& 0xFF#32).setWidth 8
      baseAddr_24_31 := ((base >>> 24) &&& 0xFF#32).setWidth 8 }
  else kgdt

/-! ### What the processor reads -/

/-- A segment: `access` is the type, S, DPL and P of its descriptor, `attributes` AVL, L, D/B
and G. -/
@[ext] structure Segment where
  base : Nat
  limit : Nat
  access : Nat
  attributes : Nat
  deriving DecidableEq, Repr

/-- The fields of an IA-32 segment descriptor, which is one little-endian number of 8 bytes. -/
def Segment.decode (w : Nat) : Segment where
  base := w / 2 ^ 16 % 2 ^ 24 + w / 2 ^ 56 % 2 ^ 8 * 2 ^ 24
  limit := w % 2 ^ 16 + w / 2 ^ 48 % 2 ^ 4 * 2 ^ 16
  access := w / 2 ^ 40 % 2 ^ 8
  attributes := w / 2 ^ 52 % 2 ^ 4

/-- The bytes of a packed entry. -/
def GdtEntry.word (e : GdtEntry) : Nat :=
  e.segLimit_0_15.toNat + e.baseAddr_0_15.toNat * 2 ^ 16 + e.baseAddr_16_23.toNat * 2 ^ 32 +
    e.flags1.toNat * 2 ^ 40 + e.flags2.toNat * 2 ^ 48 + e.baseAddr_24_31.toNat * 2 ^ 56

def GdtEntry.segment (e : GdtEntry) : Segment := .decode e.word

/-- Entry `n` gives back what was asked for, and the other entries are as before. -/
structure Gdt.Describes (kgdt : Gdt) (n base limit : BitVec 32) (flags1 flags2 : BitVec 8)
    (kgdt' : Gdt) : Prop where
  entry : ∀ h : n.toNat < nbrGdtEntries, (kgdt' ⟨n.toNat, h⟩).segment =
    ⟨base.toNat, limit.toNat % 2 ^ 20, flags1.toNat, flags2.toNat / 2 ^ 4⟩
  others : ∀ i : Fin nbrGdtEntries, i.val ≠ n.toNat → kgdt' i = kgdt i

theorem GdtEntry.segment_eq (e : GdtEntry) : e.segment =
    ⟨e.baseAddr_0_15.toNat + e.baseAddr_16_23.toNat * 2 ^ 16 + e.baseAddr_24_31.toNat * 2 ^ 24,
      e.segLimit_0_15.toNat + e.flags2.toNat % 2 ^ 4 * 2 ^ 16, e.flags1.toNat,
      e.flags2.toNat / 2 ^ 4⟩ := by
  have h₁ := e.segLimit_0_15.isLt
  have h₂ := e.baseAddr_0_15.isLt
  have h₃ := e.baseAddr_16_23.isLt
  have h₄ := e.flags1.isLt
  have h₅ := e.flags2.isLt
  have h₆ := e.baseAddr_24_31.isLt
  unfold segment Segment.decode word
  ext1 <;> simp only <;> omega

theorem mask_toNat (x : BitVec 32) (k : Nat) (hk : k ≤ 32) :
    ((x &&& BitVec.ofNat 32 (2 ^ k - 1)).setWidth k).toNat = x.toNat % 2 ^ k := by
  have hpow := Nat.pow_le_pow_right (n := 2) (by decide) hk
  have hpos := Nat.two_pow_pos k
  rw [BitVec.toNat_setWidth, BitVec.toNat_and, BitVec.toNat_ofNat,
    Nat.mod_eq_of_lt (a := 2 ^ k - 1) (by omega), Nat.and_two_pow_sub_one_eq_mod, Nat.mod_mod]

theorem shifted_mask_toNat (x : BitVec 32) (j k : Nat) (hk : k ≤ 32) :
    (((x >>> j) &&& BitVec.ofNat 32 (2 ^ k - 1)).setWidth k).toNat = x.toNat / 2 ^ j % 2 ^ k := by
  rw [mask_toNat _ k hk, BitVec.toNat_ushiftRight, Nat.shiftRight_eq_div_pow]

/-- The segment of the entry that has been set: the high bits of the limit are merged with the
flags. -/
theorem setGdtEntry_segment (h : n.toNat < nbrGdtEntries) (base limit : BitVec 32)
    (flags1 flags2 : BitVec 8) (kgdt : Gdt) :
    (setGdtEntry n base limit flags1 flags2 kgdt ⟨n.toNat, h⟩).segment =
      ⟨base.toNat,
        limit.toNat % 2 ^ 16 + ((flags2.toNat % 2 ^ 4) ||| (limit.toNat / 2 ^ 16 % 2 ^ 4)) * 2 ^ 16,
        flags1.toNat, (flags2.toNat / 2 ^ 4) ||| (limit.toNat / 2 ^ 20 % 2 ^ 4)⟩ := by
  have hbase := base.isLt
  rw [setGdtEntry, dif_pos h, Function.update_self, GdtEntry.segment_eq]
  have h₁ : ((limit &&& 0xFFFF#32).setWidth 16).toNat = limit.toNat % 2 ^ 16 :=
    mask_toNat limit 16 (by decide)
  have h₂ : ((base &&& 0xFFFF#32).setWidth 16).toNat = base.toNat % 2 ^ 16 :=
    mask_toNat base 16 (by decide)
  have h₃ : (((base >>> 16) &&& 0xFF#32).setWidth 8).toNat = base.toNat / 2 ^ 16 % 2 ^ 8 :=
    shifted_mask_toNat base 16 8 (by decide)
  have h₄ : (((base >>> 24) &&& 0xFF#32).setWidth 8).toNat = base.toNat / 2 ^ 24 % 2 ^ 8 :=
    shifted_mask_toNat base 24 8 (by decide)
  have h₅ : (((limit >>> 16) &&& 0xFF#32).setWidth 8).toNat = limit.toNat / 2 ^ 16 % 2 ^ 8 :=
    shifted_mask_toNat limit 16 8 (by decide)
  have hlow : limit.toNat / 2 ^ 16 % 2 ^ 8 % 2 ^ 4 = limit.toNat / 2 ^ 16 % 2 ^ 4 := by omega
  have hhigh : limit.toNat / 2 ^ 16 % 2 ^ 8 / 2 ^ 4 = limit.toNat / 2 ^ 20 % 2 ^ 4 := by omega
  simp only [h₁, h₂, h₃, h₄, BitVec.toNat_or, h₅, Nat.or_mod_two_pow, Nat.or_div_two_pow, hlow,
    hhigh]
  ext1 <;> simp only
  omega

theorem setGdtEntry_others (n base limit : BitVec 32) (flags1 flags2 : BitVec 8) (kgdt : Gdt)
    (hi : i.val ≠ n.toNat) : setGdtEntry n base limit flags1 flags2 kgdt i = kgdt i := by
  rw [setGdtEntry]
  split
  · exact Function.update_of_ne (fun h => hi (congrArg Fin.val h)) _ _
  · rfl

/-- The bits of `flags2` come back exactly when the limit adds none to them. -/
theorem setGdtEntry_describes_iff (n base limit : BitVec 32) (flags1 flags2 : BitVec 8)
    (kgdt : Gdt) (hflags : flags2.toNat % 2 ^ 4 = 0) :
    kgdt.Describes n base limit flags1 flags2 (setGdtEntry n base limit flags1 flags2 kgdt) ↔
      (n.toNat < nbrGdtEntries →
        (flags2.toNat / 2 ^ 4) ||| (limit.toNat / 2 ^ 20 % 2 ^ 4) = flags2.toNat / 2 ^ 4) := by
  constructor
  · intro h hn
    have hentry := h.entry hn
    rw [setGdtEntry_segment hn] at hentry
    exact congrArg Segment.attributes hentry
  · intro h
    refine ⟨fun hn => ?_, fun i hi => setGdtEntry_others n base limit flags1 flags2 kgdt hi⟩
    rw [setGdtEntry_segment hn, h hn, hflags, Nat.zero_or]
    ext1 <;> simp only
    omega

/-- The code segment of the kernel. -/
theorem setGdtEntry_describes_code :
    Gdt.Describes (fun _ => ⟨0, 0, 0, 0, 0, 0⟩) 1 0 0xFFFFF 0x9A 0xC0
      (setGdtEntry 1 0 0xFFFFF 0x9A 0xC0 fun _ => ⟨0, 0, 0, 0, 0, 0⟩) :=
  (setGdtEntry_describes_iff 1 0 0xFFFFF 0x9A 0xC0 _ (by decide)).mpr (by decide)

/-- With a limit above 20 bits, such as the one for the task state segment, a flag is added. -/
theorem setGdtEntry_adds_flag :
    ¬Gdt.Describes (fun _ => ⟨0, 0, 0, 0, 0, 0⟩) 5 0xC0108000 0xC018A068 0xE9 0
      (setGdtEntry 5 0xC0108000 0xC018A068 0xE9 0 fun _ => ⟨0, 0, 0, 0, 0, 0⟩) :=
  fun h => absurd (h.entry (by decide)) (by decide)

end Atros
