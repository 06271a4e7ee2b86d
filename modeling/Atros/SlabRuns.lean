import Mathlib.Logic.Relation
import Atros.CacheRequests

namespace Atros
set_option autoImplicit true

/-! ### Runs of the slab allocator -/

/-- A request of a user of the slab allocator. -/
inductive SlabCall
  | objsCacheCreate (name : Option (List UInt8)) (objSize pages : Nat)
  | objsCacheAlloc (cache : Nat)
  | vregionAlloc (pages : Nat)

def SlabCall.run (depth : Nat) : SlabCall → Prog Panic Kernel (Option Nat)
  | objsCacheCreate name objSize pages => Atros.objsCacheCreate depth name objSize pages
  | objsCacheAlloc cache => some <$> Atros.objsCacheAlloc depth cache
  | vregionAlloc pages => Atros.vregionAlloc depth pages

/-- The cache whose object is returned. -/
def SlabCall.cacheIn (k : Kernel) : SlabCall → Option Nat
  | objsCacheCreate _ _ _ => k.cacheObjsCache
  | objsCacheAlloc cache => some cache
  | vregionAlloc _ => k.vpagesCacheVregion

/-- The kernel, the caches that have been created, and each object that has been returned together
with its cache. -/
structure Session where
  kernel : Kernel
  caches : List Nat
  given : List (Option Nat × Nat)

def SlabCall.Allowed (s : Session) : SlabCall → Prop
  | objsCacheCreate _ objSize pages => objSize < 2 ^ 32 ∧ pages < 2 ^ 32
  | objsCacheAlloc cache => cache ∈ s.caches
  | vregionAlloc _ => True

/-- The session after a call that returned `x`. -/
def Session.after (s : Session) (call : SlabCall) (x : Option Nat) (k' : Kernel) : Session where
  kernel := k'
  caches :=
    match call with
    | .objsCacheCreate _ _ _ => x.toList ++ s.caches
    | _ => s.caches
  given := x.toList.map (fun o => (call.cacheIn s.kernel, o)) ++ s.given

/-- A call that returns. -/
inductive SlabStep (depth : Nat) : Session → Session → Prop
  | call (hc : call.Allowed s) (hrun : call.run depth s.kernel = .ok (x, k')) :
      SlabStep depth s (s.after call x k')

abbrev SlabRun (depth : Nat) := Relation.ReflTransGen (SlabStep depth)

/-- The session that begins at a kernel. -/
def Session.start (k : Kernel) : Session := ⟨k, [], []⟩

variable {W W' W₁ : World} {t t' t₁ : View} {k k' : Kernel} {s s' : Session} {cs : List Nat}
  {E : Panic → Prop}

/-! ### What a call gives -/

/-- The caches that have been created are caches, and none of the three of boot. -/
def World.Created (W : World) (cs : List Nat) : Prop :=
  ∀ c ∈ cs, c ∈ W.caches ∧ ∀ k, c ≠ W.homeOf k

theorem World.Created.grows (h : W.Created cs) (hg : W.Grows t W' t') : W'.Created cs := by
  intro c hc
  obtain ⟨hmem, hne⟩ := h c hc
  refine ⟨hg.caches c hmem, fun k => ?_⟩
  rw [hg.own]
  exact hne k

/-- The object `o` of the cache `c` has been returned. -/
inductive World.Gave (W : World) (t : View) : Option Nat → Nat → Prop
  | cache (ho : o ∈ W.caches) (hne : ∀ k, o ≠ W.homeOf k) : Gave W t (some W.cacheObjsCache) o
  | object (hc : c ∈ W.caches) (hne : ∀ k, c ≠ W.homeOf k) (ho : W.Out t.heap c o) :
      Gave W t (some c) o
  | region (ho : o ∈ W.usedRegions) : Gave W t (some W.cacheVregion) o

theorem World.Gave.grows (h : W.Gave t c o) (hg : W.Grows t W' t') : W'.Gave t' c o := by
  cases h with
  | cache ho hne =>
    have hown : W'.cacheObjsCache = W.cacheObjsCache := hg.own .cache
    rw [← hown]
    exact .cache (hg.caches o ho) fun k => by rw [hg.own]; exact hne k
  | object hc hne ho =>
    exact .object (hg.caches _ hc) (fun k => by rw [hg.own]; exact hne k) (ho.grows hc hg)
  | region ho =>
    rw [← hg.cacheVregion]
    exact .region (hg.regions o ho).1

/-- An object that is in use, as a structure or by whoever it was returned to. -/
def Heap.InUse (H : Heap) (a : Nat) : Prop := H.slot a ≠ none ∧ H.struct a ≠ some .object

theorem World.Placed.inUse {k : Struct} (h : W.Placed H) (hk : k ≠ .object)
    (ha : H.struct a = some k) : H.InUse a := by
  obtain ⟨s, -, hslot⟩ := h.home a k hk ha
  refine ⟨by rw [hslot]; exact Option.some_ne_none _, ?_⟩
  rw [ha]
  exact fun heq => hk (Option.some.inj heq)

theorem World.Gave.inUse (h : W.Gave t c o) (hs : W.Sound t) : t.heap.InUse o := by
  cases h with
  | cache ho => exact hs.placed.inUse (k := .cache) (by decide) (hs.caches.cache o ho).lists.cache
  | object _ _ ho =>
    obtain ⟨s, -, hslot⟩ := ho.slot
    exact ⟨by rw [hslot]; exact Option.some_ne_none _, by rw [ho.untyped]; exact nofun⟩
  | region ho => exact hs.placed.inUse (k := .vregion) (by decide) (hs.regions.used.2 o ho)

theorem Allocated.not_inUse (h : Allocated W t c o W' t') : ¬t.heap.InUse o := by
  rintro ⟨hslot, hobj⟩
  obtain ⟨k, hk⟩ := Option.ne_none_iff_exists'.mp (h.fresh hslot)
  have htyped := h.grows.typed o k (fun heq => hobj (heq ▸ hk)) hk
  rw [h.out.untyped] at htyped
  exact nomatch htyped

theorem CacheAdded.recorded (h : CacheAdded W t o objSize pages t') (hrec : W.Recorded t) :
    (W.withCache o objSize pages).Recorded t' := by
  intro c hc s hs i hi
  obtain ⟨hc₀, hs₀⟩ := (h.all c s).mp ⟨hc, hs⟩
  rw [(h.same hc₀).pages] at hi
  rw [h.rest]
  exact hrec c hc₀ s hs₀ i hi

theorem CacheAdded.unset (h : CacheAdded W t o objSize pages t') (hu : W.Unset t) :
    (W.withCache o objSize pages).Unset t' := by
  obtain ⟨c, hc, s, hs, hpos, hzero⟩ := hu
  obtain ⟨hc', hs'⟩ := (h.all c s).mpr ⟨hc, hs⟩
  refine ⟨c, hc', s, hs', hpos, ?_⟩
  rw [h.rest]
  exact hzero

/-- The cache whose object a call returns. -/
def SlabCall.home (W : World) : SlabCall → Nat
  | objsCacheCreate _ _ _ => W.cacheObjsCache
  | objsCacheAlloc cache => cache
  | vregionAlloc _ => W.cacheVregion

theorem SlabCall.cacheIn_eq (call : SlabCall) (hk : Shows k t) (h : W.Sound t) :
    call.cacheIn k = some (call.home W) := by
  cases call with
  | objsCacheCreate => exact h.reads_cacheObjsCache k hk
  | objsCacheAlloc => rfl
  | vregionAlloc => exact h.reads_vpagesCacheVregion k hk

/-- The reserves that a call tests are above their minimum, so that it refills none. A request for
a region tests those of regions only, and one for a cache that is refused tests nothing. -/
def World.AmpleFor (W : World) : SlabCall → Prop
  | .objsCacheCreate _ objSize pages => max objSize sizeofPointer ≤ mul32 pages vpageSize → W.Ample
  | .objsCacheAlloc _ => W.Ample
  | .vregionAlloc _ => 3 ≤ W.freeObjs W.cacheVregion

/-- What a call that returned `x` has done to a system that keeps its reserves. -/
structure Called (W : World) (t : View) (call : SlabCall) (x : Option Nat) (W' : World)
  (t' : View) :
    Prop where
  ready : W'.Ready t'
  grows : W.Grows t W' t'
  recorded : W.AmpleFor call → W.Recorded t → W'.Recorded t'
  unset : ¬W.AmpleFor call → W'.Unset t'
  created : ∀ name objSize pages, call = .objsCacheCreate name objSize pages → ∀ o ∈ x,
    o ∈ W'.caches ∧ ∀ k, o ≠ W'.homeOf k
  gave : ∀ o ∈ x, W'.Gave t' (some (call.home W)) o ∧ ∀ c, ¬W.Gave t c o

theorem World.Ready.calledNone (h : W.Ready t) (hample : W.AmpleFor call) :
    Called W t call none W t :=
  ⟨h, .refl W t, fun _ hrec => hrec, absurd hample, fun _ _ _ _ _ ho => (nomatch ho),
    fun _ ho => nomatch ho⟩

theorem Allocated.called (h : W.Sound t) (ha : Allocated W t c o W' t') (hc : c ∈ W.caches)
    (hne : ∀ k, c ≠ W.homeOf k) : Called W t (.objsCacheAlloc c) (some o) W' t' := by
  refine ⟨ha.ready, ha.grows, ha.recorded, ha.unset, fun _ _ _ heq => (nomatch heq), ?_⟩
  rintro _ ⟨⟩
  refine ⟨.object (ha.grows.caches c hc) (fun k => ?_) ha.out, fun c' hgave => ?_⟩
  · rw [ha.grows.own]
    exact hne k
  · exact ha.not_inUse (hgave.inUse h)

theorem CacheAdded.called (h : W.Sound t) (ha : Allocated W t W.cacheObjsCache o W₁ t₁)
    (hadded : CacheAdded W₁ t₁ o objSize pages t') :
    Called W t (.objsCacheCreate name objSize pages) (some o)
      (W₁.withCache o objSize pages) t' := by
  have hmem : o ∈ (W₁.withCache o objSize pages).caches :=
    List.mem_append_right _ List.mem_cons_self
  have hne : ∀ k, o ≠ (W₁.withCache o objSize pages).homeOf k := fun k heq =>
    hadded.new (heq ▸ hadded.sound.caches.own.mem k)
  have hgrows := hadded.grows ha.grows ha.fresh
  have hfits := hadded.fits
  refine ⟨hadded.ready ha.ready, hgrows,
    fun hample hrec => hadded.recorded (ha.recorded (hample hfits) hrec),
    fun hample => hadded.unset (ha.unset fun hW => hample fun _ => hW), ?_, ?_⟩
  · rintro _ _ _ - _ ⟨⟩
    exact ⟨hmem, hne⟩
  · rintro _ ⟨⟩
    refine ⟨?_, fun c' hgave => ha.not_inUse (hgave.inUse h)⟩
    have hown : (W₁.withCache o objSize pages).cacheObjsCache = W.cacheObjsCache :=
      hgrows.own .cache
    rw [SlabCall.home, ← hown]
    exact .cache hmem hne

theorem RegionReserved.ready (hr : RegionReserved W t W₁ t₁) (h : W.Ready t) : W₁.Ready t₁ :=
  hr.case.ready h hr.slabs (Nat.le_of_succ_le hr.regions)

theorem RegionReserved.recorded (hr : RegionReserved W t W₁ t₁)
    (hample : 3 ≤ W.freeObjs W.cacheVregion) (hrec : W.Recorded t) : W₁.Recorded t₁ := by
  rcases hr.case with ⟨rfl, rfl, -⟩ | ⟨-, hno⟩
  · exact hrec
  · exact absurd hample hno

theorem RegionReserved.unset (hr : RegionReserved W t W₁ t₁)
    (hample : ¬3 ≤ W.freeObjs W.cacheVregion) : W₁.Unset t₁ := by
  rcases hr.case with ⟨-, -, hyes⟩ | ⟨hre, -⟩
  · exact absurd hyes hample
  · exact hre.unset

theorem RegionOut.called (h : W.Ready t) (hr : RegionReserved W t W₁ t₁)
    (ho : RegionOut W₁ t₁ n r W' t') : Called W t (.vregionAlloc n) (some r) W' t' := by
  have hready := hr.ready h
  have hgrows := hr.case.grows
  have hne := hready.sound.caches.own.apart.2.2
  have htyped := hready.sound.regions.free.2 r ho.free
  refine ⟨⟨ho.sound, ho.bottom hready.bottom, ?_, ?_⟩, hgrows.trans ho.grows, fun hample hrec => ?_,
    fun hample => (hr.unset hample).grows ho.grows, fun _ _ _ heq => (nomatch heq), ?_⟩
  · rw [ho.grows.cacheSlab, ho.others _ hready.sound.slab_mem hne]
    exact hready.slabs
  · have hcount := ho.taken.count_le
    have hregions := hr.regions
    rw [ho.grows.cacheVregion]
    rw [hgrows.cacheVregion] at hcount ⊢
    omega
  · exact (hr.recorded hample hrec).same ho.same fun x => by rw [ho.phys]
  · rintro _ ⟨⟩
    have hown : W'.cacheVregion = W.cacheVregion := ho.grows.cacheVregion.trans hgrows.cacheVregion
    refine ⟨?_, fun c hgave => ?_⟩
    · rw [SlabCall.home, ← hown]
      exact .region ho.used
    · cases hgave.grows hgrows with
      | cache hr' =>
        rw [(hready.sound.caches.cache r hr').lists.cache] at htyped
        exact nomatch htyped
      | object _ _ hr' =>
        rw [hr'.untyped] at htyped
        exact nomatch htyped
      | region hr' => exact hready.sound.regions.regions.not_used r ho.free hr'

/-- The pages of the slab that a call may make for its cache. -/
def SlabCall.pages (W : World) : SlabCall → Nat
  | objsCacheCreate _ _ _ => 1
  | objsCacheAlloc cache => W.pages cache
  | vregionAlloc _ => 0

theorem World.Ready.call {call : SlabCall} (h : W.Ready t) (hE : W.Pages E (call.pages W) 11)
    (hd : 5 ≤ depth) (hcs : W.Created s.caches) (hallowed : call.Allowed s)
    (hobj : ∀ name pages, call = .objsCacheCreate name 0 pages → E .objSizeZero) :
    Runs Shows E (fun x t' => ∃ W', Called W t call x W' t') (call.run depth) t := by
  cases call with
  | objsCacheCreate name objSize pages =>
    obtain ⟨hlt, hpages⟩ := hallowed
    have hpos : 0 < objSize ∨ E .objSizeZero := by
      rcases Nat.eq_zero_or_pos objSize with rfl | hpos
      · exact .inr (hobj name pages rfl)
      · exact .inl hpos
    refine (h.objsCacheCreate hE hd hpos hlt hpages name).imp ?_
    rintro x t' (⟨rfl, rfl, hrefused⟩ | ⟨o, W₁, t₁, rfl, ha, hadded⟩)
    · exact ⟨W, h.calledNone fun hfits => absurd hrefused (Nat.not_lt.mpr hfits)⟩
    · exact ⟨_, hadded.called h.sound ha⟩
  | objsCacheAlloc c =>
    obtain ⟨hc, hne⟩ := hcs c hallowed
    have hruns := h.objsCacheAlloc hE hd hc fun heq => absurd heq (hne .slab)
    rw [SlabCall.run, ← bind_pure_comp]
    refine .bind hruns ?_
    rintro o t' ⟨W', ha⟩
    exact .pure ⟨W', ha.called h.sound hc hne⟩
  | vregionAlloc n =>
    refine (h.vregionAlloc (hE.le (by decide)) (by omega)).imp ?_
    rintro x t' ⟨W₁, t₁, hr, ⟨rfl, rfl, -⟩ | ⟨r, W', rfl, ho⟩⟩
    · exact ⟨W₁, hr.ready h, hr.case.grows, hr.recorded, hr.unset,
        fun _ _ _ _ _ ho => (nomatch ho), fun _ ho => nomatch ho⟩
    · exact ⟨W', ho.called h hr⟩

/-- A session of a system that keeps its reserves. -/
structure Session.Kept (s : Session) (W : World) (t : View) : Prop where
  shows : Shows s.kernel t
  ready : W.Ready t
  created : W.Created s.caches
  gave : ∀ p ∈ s.given, W.Gave t p.1 p.2
  nodup : (s.given.map Prod.snd).Nodup

theorem Session.Kept.start (hk : Shows k t) (h : W.Ready t) : (Session.start k).Kept W t :=
  ⟨hk, h, fun _ hc => (nomatch hc), fun _ hp => (nomatch hp), .nil⟩

theorem Called.kept (h : Called W t call x W' t') (hs : s.Kept W t) (hk' : Shows k' t') :
    (s.after call x k').Kept W' t' := by
  have hcreated := hs.created.grows h.grows
  have hgave : ∀ p ∈ s.given, W'.Gave t' p.1 p.2 := fun p hp => (hs.gave p hp).grows h.grows
  have hin := call.cacheIn_eq hs.shows hs.ready.sound
  refine ⟨hk', h.ready, ?_, fun p hp => ?_, ?_⟩
  · cases call with
    | objsCacheCreate name objSize pages =>
      intro c hc
      rcases List.mem_append.mp hc with hc | hc
      · exact h.created name objSize pages rfl c (Option.mem_toList.mp hc)
      · exact hcreated c hc
    | objsCacheAlloc => exact hcreated
    | vregionAlloc => exact hcreated
  · rcases List.mem_append.mp hp with hp | hp
    · obtain ⟨o, ho, rfl⟩ := List.mem_map.mp hp
      rw [hin]
      exact (h.gave o (Option.mem_toList.mp ho)).1
    · exact hgave p hp
  · cases x with
    | none => exact hs.nodup
    | some o =>
      refine List.nodup_cons.mpr ⟨fun ho => ?_, hs.nodup⟩
      obtain ⟨p, hp, rfl⟩ := List.mem_map.mp ho
      exact (h.gave _ rfl).2 p.1 (hs.gave p hp)

theorem SlabCall.called {call : SlabCall} (hc : call.Allowed s) (hd : 5 ≤ depth)
    (hs : s.Kept W t) (hrun : call.run depth s.kernel = .ok (x, k')) :
    ∃ W' t', Shows k' t' ∧ Called W t call x W' t' := by
  have hruns := hs.ready.call (E := fun _ => True) (.inl fun _ _ => trivial) hd hs.created hc
    fun _ _ _ => trivial
  obtain ⟨t', hk', W', hcalled⟩ := (hruns s.kernel hs.shows).ok hrun
  exact ⟨W', t', hk', hcalled⟩

theorem SlabStep.called (hd : 5 ≤ depth) (h : SlabStep depth s s') (hs : s.Kept W t) :
    ∃ call x W' t', Called W t call x W' t' ∧ s'.Kept W' t' := by
  cases h with
  | @call call x k' hc hrun =>
    obtain ⟨W', t', hk', hcalled⟩ := SlabCall.called hc hd hs hrun
    exact ⟨call, x, W', t', hcalled, hcalled.kept hs hk'⟩

theorem SlabRun.kept (hd : 5 ≤ depth) (h : SlabRun depth s s') (hs : s.Kept W t) :
    ∃ W' t', s'.Kept W' t' ∧ W.Grows t W' t' := by
  induction h with
  | refl => exact ⟨W, t, hs, .refl W t⟩
  | tail _ hstep ih =>
    obtain ⟨W₁, t₁, hs₁, hg⟩ := ih
    obtain ⟨call, x, W', t', hcalled, hs'⟩ := hstep.called hd hs₁
    exact ⟨W', t', hs', hg.trans hcalled.grows⟩

end Atros
