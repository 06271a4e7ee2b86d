import Mathlib.Data.List.Infix
import Atros.Word
import Atros.Program
import Atros.Panic
import Atros.Extent

namespace Atros
set_option autoImplicit true

/-- The pair `_boot_first_free_ppn`, `_boot_last_free_ppn` of physical_pages.c, and its twin
with `vpn` in virtual_pages.c. -/
structure BootPages where
  firstFree : Nat
  lastFree : Nat
  deriving DecidableEq, Repr

/-- `_boot_physical_pages_init` and `_boot_virtual_pages_init`. -/
def bootPagesInit (firstFreePage lastFreePage : Nat) : BootPages :=
  ⟨firstFreePage, lastFreePage⟩

/-- The guard `first_free + nbr - 1 <= last_free`, on 32-bit words. -/
def BootPages.Admits (b : BootPages) (nbr : Nat) : Prop :=
  sub32 (add32 b.firstFree nbr) 1 ≤ b.lastFree

instance (b : BootPages) (nbr : Nat) : Decidable (b.Admits nbr) :=
  inferInstanceAs (Decidable (_ ≤ _))

def BootPages.advance (b : BootPages) (nbr : Nat) : BootPages :=
  { b with firstFree := add32 b.firstFree nbr }

/-- The common body of the two boot allocators, which differ in their panic only. -/
def bootPagesAlloc (refusal : Panic) (nbr : Nat) : Prog Panic BootPages Nat := do
  let b ← get
  if b.Admits nbr then
    set (b.advance nbr)
    return b.firstFree
  else
    throw refusal

def bootPhysicalPagesAlloc (nbrPpages : Nat) : Prog Panic BootPages Nat :=
  bootPagesAlloc .bootPhysicalPages nbrPpages

def bootVirtualPagesAlloc (nbrVpages : Nat) : Prog Panic BootPages Nat :=
  bootPagesAlloc .bootVirtualPages nbrVpages

theorem bootPagesAlloc_admits {b : BootPages} (h : b.Admits nbr) :
    bootPagesAlloc e nbr b = .ok (b.firstFree, b.advance nbr) := by
  unfold bootPagesAlloc
  rw [bind_get, if_pos h]
  rfl

theorem bootPagesAlloc_refuses {b : BootPages} (h : ¬b.Admits nbr) :
    bootPagesAlloc e nbr b = .error e := by
  unfold bootPagesAlloc
  rw [bind_get, if_neg h]
  rfl

inductive BootAllocator
  | physical
  | virtual
  deriving DecidableEq, Repr

def BootAllocator.alloc : BootAllocator → Nat → Prog Panic BootPages Nat
  | physical => bootPhysicalPagesAlloc
  | virtual => bootVirtualPagesAlloc

/-- The extents granted to a sequence of requests and the allocator they leave. A request
that panics is granted nothing. -/
def bootRequests (w : BootAllocator) : List Nat → BootPages → List Extent × BootPages
  | [], b => ([], b)
  | n :: ns, b =>
    match w.alloc n b with
    | .ok (p, b') => (⟨p, n⟩ :: (bootRequests w ns b').1, (bootRequests w ns b').2)
    | .error _ => bootRequests w ns b

theorem alloc_admits (w : BootAllocator) {b : BootPages} (h : b.Admits n) :
    w.alloc n b = .ok (b.firstFree, b.advance n) := by
  cases w <;> exact bootPagesAlloc_admits h

theorem alloc_refuses (w : BootAllocator) {b : BootPages} (h : ¬b.Admits n) :
    ∃ e, w.alloc n b = .error e := by
  cases w <;> exact ⟨_, bootPagesAlloc_refuses h⟩

theorem bootRequests_append (w : BootAllocator) (ns ms : List Nat) (b : BootPages) :
    bootRequests w (ns ++ ms) b =
      ((bootRequests w ns b).1 ++ (bootRequests w ms (bootRequests w ns b).2).1,
        (bootRequests w ms (bootRequests w ns b).2).2) := by
  induction ns generalizing b with
  | nil => rfl
  | cons n ns ih =>
    simp only [List.cons_append, bootRequests]
    rcases w.alloc n b with e | ⟨p, b'⟩
    · exact ih b
    · simp only [ih b', List.cons_append]

theorem bootRequests_admitted (w : BootAllocator) {b : BootPages} (h : b.Admits n) :
    bootRequests w [n] b = ([⟨b.firstFree, n⟩], b.advance n) := by
  simp only [bootRequests, alloc_admits w h]

theorem bootRequests_refused (w : BootAllocator) {b : BootPages} (h : ¬b.Admits n) :
    bootRequests w [n] b = ([], b) := by
  obtain ⟨e, he⟩ := alloc_refuses w h
  simp only [bootRequests, he]

/-- What the boot allocators are for: the granted extents lie in the initial range, do not
meet, and the range left to the main allocator meets none of them. -/
structure BootSound (first last : Nat) (r : List Extent × BootPages) : Prop where
  inside : ∀ e ∈ r.1, ∀ x ∈ e, first ≤ x ∧ x ≤ last
  apart : r.1.Pairwise Extent.Apart
  left : ∀ e ∈ r.1, ∀ x ∈ e, ¬(r.2.firstFree ≤ x ∧ x ≤ r.2.lastFree)

/-- An admitted request moves the first free page without passing 2^32. -/
def BootPages.NoWrap (b : BootPages) (n : Nat) : Prop := b.Admits n → b.firstFree + n < 2 ^ 32

instance (b : BootPages) (n : Nat) : Decidable (b.NoWrap n) :=
  inferInstanceAs (Decidable (_ → _))

/-- What holds between requests as long as none wraps around. -/
structure BootBump (first last : Nat) (r : List Extent × BootPages) : Prop where
  lastFree : r.2.lastFree = last
  first_le : first ≤ r.2.firstFree
  le_last : r.2.firstFree ≤ last + 1
  word : r.2.firstFree < 2 ^ 32
  below : ∀ e ∈ r.1, ∀ x ∈ e, first ≤ x ∧ x < r.2.firstFree
  apart : r.1.Pairwise Extent.Apart

theorem BootBump.sound (h : BootBump first last r) : BootSound first last r where
  inside e he x hx := by
    have hb := h.below e he x hx
    have hl := h.le_last
    omega
  apart := h.apart
  left e he x hx := by
    have hb := h.below e he x hx
    omega

/-- One admitted request keeps the bump invariant. -/
theorem BootBump.request (h : BootBump first last (g, b)) (hn : b.NoWrap n)
    (ha : b.Admits n) : BootBump first last (g ++ [⟨b.firstFree, n⟩], b.advance n) := by
  have hw := hn ha
  obtain ⟨hlast, hfirst, hle, hword, hbelow, hapart⟩ := h
  simp only at hlast hfirst hle hword hbelow hapart
  have hnew : (b.advance n).firstFree = b.firstFree + n := add32_of_lt hw
  rw [BootPages.Admits, sub32, add32_of_lt hw] at ha
  refine ⟨hlast, ?_, ?_, ?_, ?_, ?_⟩
  · simp only [hnew]
    omega
  · simp only [hnew]
    omega
  · simp only [hnew]
    exact hw
  · intro e he x hx
    simp only [hnew]
    rcases List.mem_append.mp he with he | he
    · have hb := hbelow e he x hx
      omega
    · rw [List.mem_singleton.mp he, Extent.mem_mk] at hx
      omega
  · refine List.pairwise_append.mpr ⟨hapart, List.pairwise_singleton _ _, ?_⟩
    intro e he e' he' x hx hx'
    have hb := hbelow e he x hx
    rw [List.mem_singleton.mp he', Extent.mem_mk] at hx'
    omega

theorem bootRequests_bump (w : BootAllocator) (hf : first ≤ last) (hl : last < 2 ^ 32)
    (reqs : List Nat)
    (h : ∀ served n, served ++ [n] <+: reqs →
      (bootRequests w served (bootPagesInit first last)).2.NoWrap n) :
    BootBump first last (bootRequests w reqs (bootPagesInit first last)) := by
  induction reqs using List.reverseRecOn with
  | nil =>
    refine ⟨rfl, le_refl _, Nat.le_succ_of_le hf, Nat.lt_of_le_of_lt hf hl, ?_, .nil⟩
    intro e he
    cases he
  | append_singleton reqs n ih =>
    have hb := ih fun served m hm => h served m (hm.trans (List.prefix_append _ _))
    have hn := h reqs n (List.prefix_refl _)
    rw [bootRequests_append]
    by_cases ha : (bootRequests w reqs (bootPagesInit first last)).2.Admits n
    · rw [bootRequests_admitted w ha]
      exact hb.request hn ha
    · rw [bootRequests_refused w ha]
      simpa only [List.append_nil] using hb

theorem BootSound.noWrap {b : BootPages} (hb : b.firstFree < 2 ^ 32) (hlast : b.lastFree = last)
    (hl : last < 2 ^ 32) (ha : b.Admits n)
    (h : BootSound first last (g ++ [⟨b.firstFree, n⟩], b.advance n)) :
    b.firstFree + n < 2 ^ 32 := by
  by_contra hw
  have hmem : ⟨b.firstFree, n⟩ ∈ g ++ [(⟨b.firstFree, n⟩ : Extent)] := by simp
  rw [BootPages.Admits, sub32, add32] at ha
  rcases Nat.lt_or_eq_of_le (Nat.le_of_not_lt hw) with hgt | heq
  · have hin := h.inside _ hmem (2 ^ 32) (by rw [Extent.mem_mk]; omega)
    omega
  · -- the range is used up to the last 32-bit page and the pointer is back at 0
    have hleft := h.left _ hmem b.firstFree (by rw [Extent.mem_mk]; omega)
    simp only [BootPages.advance, add32, ← heq, Nat.mod_self] at hleft
    omega

/-- The boot allocators keep their ranges apart exactly as long as no admitted request wraps
around 2^32. -/
theorem bootRequests_sound_iff (w : BootAllocator) (first last : Nat) (reqs : List Nat)
    (hf : first ≤ last) (hl : last < 2 ^ 32) :
    (∀ served, served <+: reqs →
      BootSound first last (bootRequests w served (bootPagesInit first last))) ↔
    ∀ served n, served ++ [n] <+: reqs →
      (bootRequests w served (bootPagesInit first last)).2.NoWrap n := by
  constructor
  · intro h
    -- along the prefixes, each request that went well bounds the pointer for the next one
    have hall : ∀ served, served <+: reqs → ∀ p n, p ++ [n] <+: served →
        (bootRequests w p (bootPagesInit first last)).2.NoWrap n := by
      intro served
      induction served using List.reverseRecOn with
      | nil =>
        intro _ p n hp
        simp at hp
      | append_singleton served m ih =>
        intro hs p n hp
        have ih := ih ((List.prefix_append _ _).trans hs)
        rcases List.prefix_concat_iff.mp hp with heq | hp
        · obtain ⟨rfl, hm⟩ := List.append_inj' heq rfl
          cases hm
          intro ha
          have hb := bootRequests_bump w hf hl p ih
          have hsound := h _ hs
          rw [bootRequests_append, bootRequests_admitted w ha] at hsound
          exact hsound.noWrap hb.word hb.lastFree hl ha
        · exact ih p n hp
    exact hall reqs (List.prefix_refl _)
  · intro h served hp
    exact (bootRequests_bump w hf hl served fun p n hn => h p n (hn.trans hp)).sound

theorem bootRequests_sound_three_four :
    BootSound 10 20 (bootRequests .physical [3, 4] (bootPagesInit 10 20)) := by
  refine (bootRequests_sound_iff .physical 10 20 [3, 4] (by decide) (by decide)).mpr ?_ [3, 4]
    (List.prefix_refl _)
  intro served n hp
  rcases served with _ | ⟨m, _ | ⟨k, rest⟩⟩
  · obtain ⟨rfl, -⟩ := List.cons_prefix_cons.mp hp
    decide
  · obtain ⟨rfl, hp'⟩ := List.cons_prefix_cons.mp hp
    obtain ⟨rfl, -⟩ := List.cons_prefix_cons.mp hp'
    decide
  · have hlen := hp.length_le
    simp at hlen

/-- Ten pages asked from page 5 on come back after a request of 2^32 - 5 pages has moved the
pointer from 10 down to 5: the second range is below the initial one and meets the first. -/
theorem bootRequests_wrap_unsound :
    (bootRequests .physical [4294967291, 10] (bootPagesInit 10 20) =
        ([⟨10, 4294967291⟩, ⟨5, 10⟩], ⟨15, 20⟩) ∧
      ¬BootSound 10 20 (bootRequests .physical [4294967291, 10] (bootPagesInit 10 20))) ∧
    (bootRequests .virtual [4294967291, 10] (bootPagesInit 10 20) =
        ([⟨10, 4294967291⟩, ⟨5, 10⟩], ⟨15, 20⟩) ∧
      ¬BootSound 10 20 (bootRequests .virtual [4294967291, 10] (bootPagesInit 10 20))) := by
  have hunsound : ¬BootSound 10 20 ([⟨10, 4294967291⟩, ⟨5, 10⟩], ⟨15, 20⟩) := by
    intro h
    have hin := h.inside ⟨5, 10⟩ (by simp) 5 (by decide)
    omega
  have hp : bootRequests .physical [4294967291, 10] (bootPagesInit 10 20) =
      ([⟨10, 4294967291⟩, ⟨5, 10⟩], ⟨15, 20⟩) := by decide
  have hv : bootRequests .virtual [4294967291, 10] (bootPagesInit 10 20) =
      ([⟨10, 4294967291⟩, ⟨5, 10⟩], ⟨15, 20⟩) := by decide
  refine ⟨⟨hp, ?_⟩, hv, ?_⟩
  · rw [hp]
    exact hunsound
  · rw [hv]
    exact hunsound

theorem bootPhysicalPagesAlloc_eq (n : Nat) :
    bootPhysicalPagesAlloc n = bootPagesAlloc .bootPhysicalPages n := rfl

theorem bootVirtualPagesAlloc_eq (n : Nat) :
    bootVirtualPagesAlloc n = bootPagesAlloc .bootVirtualPages n := rfl

attribute [irreducible] bootPhysicalPagesAlloc bootVirtualPagesAlloc

end Atros
