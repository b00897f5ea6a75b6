import Axivc.Lib.Rely
import Axivc.Ring

/-!
# Axivc.Region

The shared region of `region.c`: its header and its two rings, the
publisher's reset and the subscriber's validation as programs over single
loads and stores, and what happens when the two run at the same time.

The publisher clears the magic word, reinitialises both rings, fills in the
header and stores the magic word last.  The subscriber loads the magic word
once, before everything else, and never again: what it has seen there may be
left over from an earlier session.  `validated_after_reset_iff` says exactly
when a successful validation implies a finished reset.
-/

namespace Axivc

open Prog Rely

/-! ## the region's memory -/

/-- The words of `struct axivc_region_header`. -/
inductive HeaderField where
  | magic
  | version
  | headerSize
  | regionSize
  | features
  | publisherToSubscriberOffset
  | subscriberToPublisherOffset
  | ringSize
  deriving DecidableEq

/-- The two rings of a region. -/
inductive RingName where
  | publisherToSubscriber
  | subscriberToPublisher
  deriving DecidableEq

/-- `struct axivc_region` -/
structure Region where
  publisherId : UInt64
  key : UInt64
  header : HeaderField → UInt32
  ring : RingName → Ring

/-- `AXIVC_REGION_MAGIC` -/
def regionMagic : UInt32 := 0x49564332

/-- `AXIVC_REGION_VERSION` -/
def regionVersion : UInt32 := 3

/-- `AXIVC_REGION_FEATURE_SPSC_OPAQUE_SLOTS` -/
def regionFeatureSpscOpaqueSlots : UInt32 := 1

/-- `sizeof(struct axivc_region_header)` -/
def regionHeaderSize : Nat := 32

/-- `sizeof(struct axivc_ring)` -/
def ringSize : Nat := 8448

/-- `sizeof(struct axivc_region)` -/
def regionSize : Nat := 17152

/-- `offsetof(struct axivc_region, ..)` of a ring. -/
def RingName.offset : RingName → Nat
  | .publisherToSubscriber => 256
  | .subscriberToPublisher => 8704

/-- `AXIVC_RING_DIRECTION_..` of a ring. -/
def RingName.direction : RingName → UInt32
  | .publisherToSubscriber => 1
  | .subscriberToPublisher => 2

/-- One access to the memory of a region. -/
inductive RegionAccess where
  | loadPublisherId
  | storePublisherId (v : UInt64)
  | loadKey
  | storeKey (v : UInt64)
  | loadHeader (field : HeaderField)
  | storeHeader (field : HeaderField) (v : UInt32)
  | ring (name : RingName) (a : RingAccess)

/-- The interface of the region's memory. -/
@[reducible] def regionMemory : Iface where
  Op := RegionAccess
  Res
    | .loadPublisherId | .loadKey => UInt64
    | .loadHeader _ => UInt32
    | .ring _ a => ringMemory.Res a
    | _ => Unit

/-- What an access does to the memory. -/
def regionAccess : (a : RegionAccess) → Region → regionMemory.Res a × Region
  | .loadPublisherId, r => (r.publisherId, r)
  | .storePublisherId v, r => ((), { r with publisherId := v })
  | .loadKey, r => (r.key, r)
  | .storeKey v, r => ((), { r with key := v })
  | .loadHeader field, r => (r.header field, r)
  | .storeHeader field v, r => ((), { r with header := Function.update r.header field v })
  | .ring name a, r =>
      ((access a (r.ring name)).1, { r with ring := Function.update r.ring name (access a (r.ring name)).2 })

/-- One access as a program. -/
abbrev regionMem (a : RegionAccess) : Prog regionMemory (regionMemory.Res a) := op (I := regionMemory) a

/-- A program on one of the rings. -/
def onRing (name : RingName) {α : Type} (p : Prog ringMemory α) : Prog regionMemory α :=
  p.subst fun a => regionMem (.ring name a)

/-! ## reset -/

/-- The first stores of `axivc_region_init_publisher`: clear publication, keep
the identity, reinitialise the rings. -/
def resetRegion (publisherId key : UInt64) : Prog regionMemory Unit := do
  -- A newly mapped region can contain bytes from an earlier session.  Clear
  -- publication first so a racing subscriber cannot accept stale layout
  -- metadata while the rings are being reinitialized.
  regionMem (.storeHeader .magic 0)
  regionMem (.storePublisherId publisherId)
  regionMem (.storeKey key)
  onRing .publisherToSubscriber (ringInitialize RingName.publisherToSubscriber.direction)
  onRing .subscriberToPublisher (ringInitialize RingName.subscriberToPublisher.direction)

/-- The header stores of `axivc_region_init_publisher` up to the last one. -/
def fillHeader : Prog regionMemory Unit := do
  regionMem (.storeHeader .headerSize (.ofNat regionHeaderSize))
  regionMem (.storeHeader .regionSize (.ofNat regionSize))
  regionMem (.storeHeader .features regionFeatureSpscOpaqueSlots)
  regionMem (.storeHeader .publisherToSubscriberOffset (.ofNat RingName.publisherToSubscriber.offset))
  regionMem (.storeHeader .subscriberToPublisherOffset (.ofNat RingName.subscriberToPublisher.offset))
  regionMem (.storeHeader .ringSize (.ofNat ringSize))
  regionMem (.storeHeader .version regionVersion)

/-- `axivc_region_init_publisher` -/
def regionInitPublisher (shmSize : Nat) (channelKey : UInt64) : Prog regionMemory (Except Errno Unit) :=
  if shmSize < regionSize then
    pure (.error .EINVAL)
  else do
    let publisherId : UInt64 ← regionMem .loadPublisherId
    let key : UInt64 ← regionMem .loadKey
    if key ≠ channelKey then
      pure (.error .EPROTO)
    else do
      resetRegion publisherId key
      fillHeader
      regionMem (.storeHeader .magic regionMagic)
      pure (.ok ())

/-! ## validation -/

/-- The words that validation compares. -/
inductive LayoutWord where
  | header (field : HeaderField)
  | direction (name : RingName)
  | capacity (name : RingName)
  | slotSize (name : RingName)

/-- `READ_ONCE` of a word. -/
def loadWord : LayoutWord → Prog regionMemory UInt32
  | .header field => regionMem (.loadHeader field)
  | .direction name => regionMem (.ring name .loadDirection)
  | .capacity name => regionMem (.ring name .loadCapacity)
  | .slotSize name => regionMem (.ring name .loadSlotSize)

/-- The comparisons of `axivc_region_validate` after the magic word, in their
order; each rejects with EPROTO. -/
def layoutChecks : List (LayoutWord × (UInt32 → Bool)) :=
  [(.header .version, (· = regionVersion)),
    (.header .headerSize, (· = .ofNat regionHeaderSize)),
    (.header .regionSize, (· ≥ .ofNat regionSize)),
    (.header .features, (· &&& regionFeatureSpscOpaqueSlots = regionFeatureSpscOpaqueSlots)),
    (.header .publisherToSubscriberOffset, (· = .ofNat RingName.publisherToSubscriber.offset)),
    (.header .subscriberToPublisherOffset, (· = .ofNat RingName.subscriberToPublisher.offset)),
    (.header .ringSize, (· = .ofNat ringSize)),
    (.direction .publisherToSubscriber, (· = RingName.publisherToSubscriber.direction)),
    (.capacity .publisherToSubscriber, (· = .ofNat ringCapacity)),
    (.slotSize .publisherToSubscriber, (· = .ofNat Axivc.slotSize)),
    (.direction .subscriberToPublisher, (· = RingName.subscriberToPublisher.direction)),
    (.capacity .subscriberToPublisher, (· = .ofNat ringCapacity)),
    (.slotSize .subscriberToPublisher, (· = .ofNat Axivc.slotSize))]

/-- Load and compare, one word after the other. -/
def checkLayout : List (LayoutWord × (UInt32 → Bool)) → Prog regionMemory (Except Errno Unit)
  | [] => pure (.ok ())
  | (word, accepts) :: checks => do
      let v ← loadWord word
      if accepts v then checkLayout checks else pure (.error .EPROTO)

/-- `axivc_region_validate` -/
def regionValidate (shmSize : Nat) (publisherId channelKey : UInt64) :
    Prog regionMemory (Except Errno Unit) :=
  if shmSize < regionSize then
    pure (.error .EINVAL)
  else do
    let id : UInt64 ← regionMem .loadPublisherId
    if id ≠ publisherId then
      pure (.error .EINVAL)
    else do
      let key : UInt64 ← regionMem .loadKey
      if key ≠ channelKey then
        pure (.error .EINVAL)
      else do
        let magic : UInt32 ← regionMem (.loadHeader .magic)
        if magic ≠ regionMagic then
          pure (.error .EAGAIN)
        else
          checkLayout layoutChecks

/-! ## one reset among validations -/

/-- The users of a region: the publisher that resets it, and any number of
subscribers that validate it. -/
inductive RegionUser where
  | publisher
  | subscriber (n : Nat)
  deriving DecidableEq

/-- The region, and whether the reset has begun. -/
structure RegionState where
  region : Region
  started : Bool

namespace RegionState

/-- An access: its answer, and the state after it. -/
def perform (a : RegionAccess) (s : RegionState) : regionMemory.Res a × RegionState :=
  ((regionAccess a s.region).1, { s with region := (regionAccess a s.region).2 })

end RegionState

/-- One call of `axivc_region_init_publisher` among any number of calls of
`axivc_region_validate`, at single accesses. -/
def regionMachine (shmSize : Nat) (publisherId key : UInt64) :
    Rely.Machine RegionUser regionMemory RegionState Unit (Except Errno Unit) where
  body user _ _ :=
    match user with
    | .publisher => regionInitPublisher shmSize key
    | .subscriber _ => regionValidate shmSize publisherId key
  exec _ a s r t := r = (s.perform a).1 ∧ t = (s.perform a).2
  start user _ s t :=
    match user with
    | .publisher => s.started = false ∧ t = { s with started := true }
    | .subscriber _ => t = s
  finish _ _ s t := t = s
  env _ _ := False

/-- The reset has begun and has no access left: every store of it has been
performed. -/
def ResetDone (c : Rely.Config RegionUser regionMemory RegionState (Except Errno Unit)) : Prop :=
  c.shared.started = true ∧ ∀ a k, c.thread .publisher ≠ some (.act a k)

/-! ## running alone -/

/-- The region a reset leaves, up to its last store. -/
def Region.prepared (r : Region) : Region where
  publisherId := r.publisherId
  key := r.key
  header
    | .magic => 0
    | .version => regionVersion
    | .headerSize => .ofNat regionHeaderSize
    | .regionSize => .ofNat regionSize
    | .features => regionFeatureSpscOpaqueSlots
    | .publisherToSubscriberOffset => .ofNat RingName.publisherToSubscriber.offset
    | .subscriberToPublisherOffset => .ofNat RingName.subscriberToPublisher.offset
    | .ringSize => .ofNat ringSize
  ring name := .initial name.direction

theorem run_onRing {α : Type} (name : RingName) {p : Prog ringMemory α} {r : Region} {a : α} {m : Ring}
    (h : p.run access (r.ring name) = some (a, m)) :
    (onRing name p).run regionAccess r = some (a, { r with ring := Function.update r.ring name m }) := by
  have hrun : p.run (fun o => regionAccess (.ring name o))
      { r with ring := Function.update r.ring name (r.ring name) } = _ :=
    run_lens (fun m => { r with ring := Function.update r.ring name m })
      (fun o m => by simp [regionAccess]) h
  rw [Function.update_eq_self] at hrun
  rw [onRing, run_subst (fun o s => rfl)]
  exact hrun

/-- The identity words are stored before the rings are reinitialised. -/
theorem run_storeIdentity (publisherId key : UInt64) (p : Prog regionMemory Unit) (r : Region) :
    (do
      regionMem (.storeHeader .magic 0)
      regionMem (.storePublisherId publisherId)
      regionMem (.storeKey key)
      p : Prog regionMemory Unit).run regionAccess r =
    p.run regionAccess ⟨publisherId, key, Function.update r.header .magic 0, r.ring⟩ := rfl

/-- Resetting the region empties both rings and clears the magic word. -/
theorem run_resetRegion (r : Region) :
    (resetRegion r.publisherId r.key).run regionAccess r =
      some ((), { r with
        header := Function.update r.header .magic 0
        ring := fun name => .initial name.direction }) := by
  rw [resetRegion, run_storeIdentity, run_bind, run_onRing _ (run_ringInitialize _ _), Option.bind_some,
    run_onRing _ (run_ringInitialize _ _)]
  congr 2
  simp only [Region.mk.injEq, true_and]
  funext name
  cases name <;> rfl

/-- Resetting and filling in the header overwrites whatever the region held. -/
theorem run_prepare (r : Region) :
    (resetRegion r.publisherId r.key >>= fun _ => fillHeader).run regionAccess r =
      some ((), r.prepared) := by
  rw [run_bind, run_resetRegion, Option.bind_some]
  change some ((), _) = _
  congr 2
  simp only [regionAccess, Region.prepared, Region.mk.injEq, true_and, and_true]
  funext field
  cases field <;> rfl

/-- The value of a compared word. -/
def Region.word (r : Region) : LayoutWord → UInt32
  | .header field => r.header field
  | .direction name => (r.ring name).direction
  | .capacity name => (r.ring name).capacity
  | .slotSize name => (r.ring name).slotSize

theorem run_loadWord (w : LayoutWord) (r : Region) :
    (loadWord w).run regionAccess r = some (r.word w, r) := by
  cases w with
  | header field => rfl
  | direction name | capacity name | slotSize name =>
      simp [loadWord, regionAccess, access, Region.word, Function.update_eq_self]

/-- The checks pass on a region whose words they accept. -/
theorem run_checkLayout {checks : List (LayoutWord × (UInt32 → Bool))} {r : Region}
    (h : ∀ c ∈ checks, c.2 (r.word c.1) = true) :
    (checkLayout checks).run regionAccess r = some (.ok (), r) := by
  induction checks with
  | nil => rfl
  | cons c checks ih =>
      obtain ⟨word, accepts⟩ := c
      rw [checkLayout, run_bind, run_loadWord, Option.bind_some]
      dsimp only
      rw [if_pos (h (word, accepts) (by simp))]
      exact ih fun c hc => h c (by simp [hc])

/-- A prepared region passes every check but that of the magic word. -/
theorem prepared_accepted (r : Region) : ∀ c ∈ layoutChecks, c.2 (r.prepared.word c.1) = true := by
  simp [layoutChecks, Region.word, Region.prepared, Ring.initial]

/-! ## a reset that finds no magic word -/

/-- The region is not published. -/
def RegionState.Unpublished (s : RegionState) : Prop := s.region.header .magic ≠ regionMagic

/-- Accesses that do not publish a region. -/
def Discreet (a : RegionAccess) : Prop :=
  ∀ r : Region, r.header .magic ≠ regionMagic → (regionAccess a r).2.header .magic ≠ regionMagic

theorem discreet_storeHeader (field : HeaderField) (v : UInt32)
    (h : field ≠ .magic ∨ v ≠ regionMagic) : Discreet (.storeHeader field v) := by
  intro r hr
  by_cases hf : field = .magic
  · subst hf
    simpa [regionAccess] using h
  · simpa [regionAccess, Function.update_of_ne (Ne.symm hf)] using hr

theorem onRing_discreet {α : Type} (name : RingName) (p : Prog ringMemory α) :
    (onRing name p).Each Discreet :=
  Each.subst (fun a _ => show (regionMem (.ring name a)).Each Discreet from
    ⟨fun _ hr => hr, fun _ => trivial⟩) p.each_true

theorem storeIdentity_discreet (publisherId key : UInt64) {p : Prog regionMemory Unit}
    (hp : p.Each Discreet) :
    (do
      regionMem (.storeHeader .magic 0)
      regionMem (.storePublisherId publisherId)
      regionMem (.storeKey key)
      p : Prog regionMemory Unit).Each Discreet :=
  ⟨discreet_storeHeader _ _ (.inr (by decide)), fun _ => ⟨fun _ hr => hr, fun _ => ⟨fun _ hr => hr, fun _ => hp⟩⟩⟩

theorem resetRegion_discreet (publisherId key : UInt64) : (resetRegion publisherId key).Each Discreet := by
  rw [resetRegion]
  exact storeIdentity_discreet publisherId key ((onRing_discreet _ _).bind fun _ => onRing_discreet _ _)

theorem fillHeader_discreet : fillHeader.Each Discreet :=
  ⟨discreet_storeHeader _ _ (.inl (by decide)), fun _ => ⟨discreet_storeHeader _ _ (.inl (by decide)), fun _ =>
    ⟨discreet_storeHeader _ _ (.inl (by decide)), fun _ => ⟨discreet_storeHeader _ _ (.inl (by decide)), fun _ =>
    ⟨discreet_storeHeader _ _ (.inl (by decide)), fun _ => ⟨discreet_storeHeader _ _ (.inl (by decide)), fun _ =>
    ⟨discreet_storeHeader _ _ (.inl (by decide)), fun _ => trivial⟩⟩⟩⟩⟩⟩⟩

section Outline

variable {shmSize : Nat} {publisherId key : UInt64}

/-- The publisher owns the region and publishes it with its last access;
subscribers only read, and rely on a published region staying published. -/
def regionOutline (shmSize : Nat) (publisherId key : UInt64) :
    Machine.Outline (regionMachine shmSize publisherId key) where
  inv s := s.region.header .magic = regionMagic → s.started = true
  pre
    | .publisher, _, s => s.Unpublished
    | .subscriber _, _, _ => True
  rely
    | .publisher, s, t => t = s
    | .subscriber _, s, t => s.region.header .magic = regionMagic → t.region.header .magic = regionMagic
  guar
    | .publisher, s, t => s.region.header .magic = regionMagic → t.region.header .magic = regionMagic
    | .subscriber _, s, t => t = s
  post
    | .subscriber _, .ok (), s => s.region.header .magic = regionMagic
    | _, _, _ => True
  idle _ _ := True
  rely_refl i s := by cases i <;> simp
  rely_trans i {s t u} h h' := by
    cases i with
    | publisher => exact h'.trans h
    | subscriber n => exact fun hs => h' (h hs)
  guar_rely {i j s t} hij _ h := by
    cases i with
    | publisher =>
        cases j with
        | publisher => exact absurd rfl hij
        | subscriber n => exact h
    | subscriber m =>
        cases j with
        | publisher => exact h
        | subscriber n =>
            rw [show t = s from h]
            exact id
  env_rely _ h := h.elim
  idle_stable _ _ _ := trivial
  finish_ok {i a s t} hi _ hf := by
    rw [show t = s from hf]
    refine ⟨hi, ?_, trivial⟩
    cases i with
    | publisher => exact id
    | subscriber n => rfl

/-- One access of the publisher before the last one. -/
theorem safe_discreet_act {α : Type} {post : α → RegionState → Prop} {a : RegionAccess}
    {k : regionMemory.Res a → Prog regionMemory α} (ha : Discreet a) {s : RegionState}
    (hs : s.Unpublished ∧ s.started = true)
    (hk : ∀ r t, t.Unpublished ∧ t.started = true →
      ((regionOutline shmSize publisherId key).view .publisher).Safe post (k r) t) :
    ((regionOutline shmSize publisherId key).view .publisher).Safe post (.act a k) s := by
  rintro t ht hi
  obtain rfl : t = s := ht
  refine ⟨hs.1, ?_⟩
  rintro r u ⟨rfl, rfl⟩
  have hu : (t.perform a).2.Unpublished := ha t.region hs.1
  exact ⟨fun h => absurd h hu, fun h => absurd h hs.1, hk _ _ ⟨hu, hs.2⟩⟩

/-- The publisher's accesses before the last one. -/
theorem safe_discreet {α : Type} {p : Prog regionMemory α} (hp : p.Each Discreet) {s : RegionState}
    (hs : s.Unpublished ∧ s.started = true) :
    ((regionOutline shmSize publisherId key).view .publisher).Safe
      (fun _ t => t.Unpublished ∧ t.started = true) p s := by
  induction p generalizing s with
  | ret a =>
      rintro t ht -
      rw [show t = s from ht]
      exact hs
  | act a k ih => exact safe_discreet_act hp.1 hs fun r t ht => ih r (hp.2 r) ht
  | spin => exact fun _ _ _ => trivial

/-- A reset of an unpublished region is safe: it publishes with its last
access. -/
theorem safe_regionInitPublisher {s : RegionState} (hs : s.Unpublished ∧ s.started = true) :
    ((regionOutline shmSize publisherId key).view .publisher).Safe
      ((regionOutline shmSize publisherId key).post .publisher) (regionInitPublisher shmSize key) s := by
  rw [regionInitPublisher]
  split
  · exact fun _ _ _ => trivial
  · refine safe_discreet_act (show Discreet .loadPublisherId from fun _ hr => hr) hs fun id t ht => ?_
    refine safe_discreet_act (show Discreet .loadKey from fun _ hr => hr) ht fun stored u hu => ?_
    change View.Safe _ _ (ite (stored ≠ key) _ _) u
    split
    · exact fun _ _ _ => trivial
    · refine View.Safe.bind ((safe_discreet (resetRegion_discreet _ _) hu).mono fun _ v _ hv => ?_)
      refine View.Safe.bind ((safe_discreet fillHeader_discreet hv).mono fun _ w _ hw => ?_)
      rintro x hx hi
      obtain rfl : x = w := hx
      refine ⟨hw.1, ?_⟩
      rintro r y ⟨rfl, rfl⟩
      exact ⟨fun _ => hw.2, fun h => absurd h hw.1, fun _ _ _ => trivial⟩

/-- A load of a subscriber, entered with an assertion that publication keeps. -/
theorem safe_load (n : Nat) {post : Except Errno Unit → RegionState → Prop} {s : RegionState}
    {a : RegionAccess} {k : regionMemory.Res a → Prog regionMemory (Except Errno Unit)}
    (ha : ∀ r, (regionAccess a r).2 = r) (P : RegionState → Prop) (hs : P s)
    (hP : ∀ s t, P s → (s.region.header .magic = regionMagic → t.region.header .magic = regionMagic) → P t)
    (hk : ∀ t, P t → ((regionOutline shmSize publisherId key).view (.subscriber n)).Safe post
      (k (regionAccess a t.region).1) t) :
    ((regionOutline shmSize publisherId key).view (.subscriber n)).Safe post (.act a k) s := by
  refine View.safe_act P hs (fun t u ht hr _ => hP t u ht hr) fun t ht hi => ⟨trivial, ?_⟩
  rintro r u ⟨rfl, rfl⟩
  have hsame : (t.perform a).2 = t := by rw [RegionState.perform, ha]
  rw [hsame]
  exact ⟨hi, rfl, hk t ht⟩

/-- A subscriber that has seen the magic word has seen it for good. -/
theorem safe_checkLayout (n : Nat) (checks : List (LayoutWord × (UInt32 → Bool))) {s : RegionState}
    (hs : s.region.header .magic = regionMagic) :
    ((regionOutline shmSize publisherId key).view (.subscriber n)).Safe
      ((regionOutline shmSize publisherId key).post (.subscriber n)) (checkLayout checks) s := by
  induction checks generalizing s with
  | nil => exact fun t ht _ => ht hs
  | cons c checks ih =>
      obtain ⟨word, accepts⟩ := c
      have hk (v : UInt32) (t : RegionState) (ht : t.region.header .magic = regionMagic) :
          ((regionOutline shmSize publisherId key).view (.subscriber n)).Safe
            ((regionOutline shmSize publisherId key).post (.subscriber n))
            (if accepts v then checkLayout checks else pure (.error .EPROTO)) t := by
        split
        · exact ih ht
        · exact fun _ _ _ => trivial
      have hring (name : RingName) (a : RingAccess) (ha : ∀ m, (access a m).2 = m) (r : Region) :
          (regionAccess (.ring name a) r).2 = r := by
        simp [regionAccess, ha, Function.update_eq_self]
      cases word with
      | header field => exact safe_load n (fun _ => rfl) _ hs (fun _ _ h hr => hr h) fun t ht => hk _ t ht
      | direction name =>
          exact safe_load n (hring name _ fun _ => rfl) _ hs (fun _ _ h hr => hr h) fun t ht => hk _ t ht
      | capacity name =>
          exact safe_load n (hring name _ fun _ => rfl) _ hs (fun _ _ h hr => hr h) fun t ht => hk _ t ht
      | slotSize name =>
          exact safe_load n (hring name _ fun _ => rfl) _ hs (fun _ _ h hr => hr h) fun t ht => hk _ t ht

/-- A validation is safe: it succeeds only on a published region. -/
theorem safe_regionValidate (n : Nat) {s : RegionState} :
    ((regionOutline shmSize publisherId key).view (.subscriber n)).Safe
      ((regionOutline shmSize publisherId key).post (.subscriber n))
      (regionValidate shmSize publisherId key) s := by
  rw [regionValidate]
  split
  · exact fun _ _ _ => trivial
  · refine safe_load n (fun _ => rfl) (fun _ => True) trivial (fun _ _ _ _ => trivial) fun t _ => ?_
    change View.Safe _ _ (ite (t.region.publisherId ≠ publisherId) _ _) t
    split
    · exact fun _ _ _ => trivial
    · refine safe_load n (fun _ => rfl) (fun _ => True) trivial (fun _ _ _ _ => trivial) fun t _ => ?_
      change View.Safe _ _ (ite (t.region.key ≠ key) _ _) t
      split
      · exact fun _ _ _ => trivial
      · refine safe_load n (fun _ => rfl) (fun _ => True) trivial (fun _ _ _ _ => trivial) fun t _ => ?_
        change View.Safe _ _ (ite (t.region.header .magic ≠ regionMagic) _ _) t
        split
        · exact fun _ _ _ => trivial
        · next hmagic => exact safe_checkLayout n _ (Decidable.of_not_not hmagic)

theorem region_starts : (regionOutline shmSize publisherId key).Starts := by
  intro user call s t hi _ hst
  cases user with
  | publisher =>
      obtain ⟨hnot, rfl⟩ := hst
      have hs : s.Unpublished := fun h => by rw [hi h] at hnot; cases hnot
      exact ⟨fun _ => rfl, id, safe_regionInitPublisher ⟨hs, rfl⟩⟩
  | subscriber n =>
      obtain rfl : t = s := hst
      exact ⟨hi, rfl, safe_regionValidate n⟩

end Outline

/-- **A validation succeeds only after a reset of an unpublished region.** -/
theorem resetDone_of_unpublished {shmSize : Nat} {publisherId key : UInt64} {r : Region}
    (hr : r.header .magic ≠ regionMagic) {c : Config RegionUser regionMemory RegionState (Except Errno Unit)}
    (hc : (regionMachine shmSize publisherId key).Reachable ⟨r, false⟩ c) {n : Nat}
    (hret : c.thread (.subscriber n) = some (.ret (.ok ()))) : ResetDone c := by
  have hgood := (regionOutline shmSize publisherId key).good region_starts (fun h => absurd h hr)
    (fun _ => trivial) hc
  have hmagic : c.shared.region.header .magic = regionMagic := hgood.post hret
  exact ⟨hgood.1 hmagic, fun a k h => hgood.pre h hmagic⟩

/-! ## a reset that finds a magic word -/

theorem run_perform {α : Type} {p : Prog regionMemory α} {r r' : Region} {a : α} (started : Bool)
    (h : p.run regionAccess r = some (a, r')) :
    p.run RegionState.perform ⟨r, started⟩ = some (a, ⟨r', started⟩) :=
  run_lens (fun r => (⟨r, started⟩ : RegionState)) (fun _ _ => rfl) h

theorem exec_perform {shmSize : Nat} {publisherId key : UInt64} (user : RegionUser) (a : RegionAccess)
    (s : RegionState) :
    (regionMachine shmSize publisherId key).exec user a s (s.perform a).1 (s.perform a).2 := ⟨rfl, rfl⟩

/-- A validation has passed the magic word after its first three loads. -/
theorem advance_regionValidate {shmSize : Nat} (hsize : regionSize ≤ shmSize) {r : Region} (started : Bool)
    (hr : r.header .magic = regionMagic) :
    (regionValidate shmSize r.publisherId r.key).advance RegionState.perform 3 ⟨r, started⟩ =
      (checkLayout layoutChecks, ⟨r, started⟩) := by
  simp [regionValidate, Nat.not_lt.mpr hsize, advance, RegionState.perform, regionAccess, hr]

/-- What is left of a reset after its two loads. -/
theorem advance_regionInitPublisher {shmSize : Nat} (hsize : regionSize ≤ shmSize) (r : Region)
    (started : Bool) :
    (regionInitPublisher shmSize r.key).advance RegionState.perform 2 ⟨r, started⟩ =
      (resetRegion r.publisherId r.key >>= fun _ => fillHeader >>= fun _ =>
        .act (.storeHeader .magic regionMagic) fun _ => .ret (.ok ()), ⟨r, started⟩) := by
  simp [regionInitPublisher, Nat.not_lt.mpr hsize, advance, RegionState.perform, regionAccess]

/-- A subscriber that loads a stale magic word before the reset clears it, and
everything else after the reset has filled it in, accepts the region while the
reset is still running. -/
theorem validated_during_reset {shmSize : Nat} (hsize : regionSize ≤ shmSize) {r : Region}
    (hr : r.header .magic = regionMagic) :
    ∃ c, (regionMachine shmSize r.publisherId r.key).Reachable ⟨r, false⟩ c ∧
      c.thread (.subscriber 0) = some (.ret (.ok ())) ∧ ¬ ResetDone c := by
  have hquiet : (regionMachine shmSize r.publisherId r.key).Reachable ⟨r, false⟩ ⟨⟨r, false⟩, fun _ => none⟩ :=
    Relation.ReflTransGen.refl
  have hloaded := (hquiet.start (.subscriber 0) () rfl rfl).advance (exec_perform _) 3
  rw [show Machine.body (regionMachine shmSize r.publisherId r.key) (.subscriber 0) () ⟨r, false⟩ =
    regionValidate shmSize r.publisherId r.key from rfl, advance_regionValidate hsize false hr] at hloaded
  have hbegun := (hloaded.start .publisher () rfl ⟨rfl, rfl⟩).advance (exec_perform _) 2
  rw [show Machine.body (regionMachine shmSize r.publisherId r.key) .publisher () ⟨r, true⟩ =
    regionInitPublisher shmSize r.key from rfl, advance_regionInitPublisher hsize, ← Prog.bind_assoc] at hbegun
  have hprepared := hbegun.run_bind (exec_perform _) (run_perform true (run_prepare r))
  rw [Function.update_comm (by decide)] at hprepared
  have hchecked := hprepared.run (exec_perform _) (run_perform true (run_checkLayout (prepared_accepted r)))
  refine ⟨_, hchecked, by simp, fun hdone =>
    hdone.2 (.storeHeader .magic regionMagic) (fun _ => .ret (.ok ())) ?_⟩
  simp [Function.update_of_ne]

/-- **A validation implies a finished reset exactly when the region was not
published before.** -/
theorem validated_after_reset_iff (shmSize : Nat) (hsize : regionSize ≤ shmSize) (key : UInt64) (r : Region)
    (hkey : r.key = key) :
    (∀ c, (regionMachine shmSize r.publisherId key).Reachable ⟨r, false⟩ c → ∀ n,
      c.thread (.subscriber n) = some (.ret (.ok ())) → ResetDone c) ↔ r.header .magic ≠ regionMagic := by
  subst hkey
  constructor
  · intro h hr
    obtain ⟨c, hc, hret, hnot⟩ := validated_during_reset hsize hr
    exact hnot (h c hc 0 hret)
  · intro hr c hc n hret
    exact resetDone_of_unpublished hr hc hret

/-- A region of an earlier session: a complete header, and rings with traffic
in them. -/
def staleRegion : Region where
  publisherId := 1
  key := 7
  header
    | .magic => regionMagic
    | .version => regionVersion
    | .headerSize => .ofNat regionHeaderSize
    | .regionSize => .ofNat regionSize
    | .features => regionFeatureSpscOpaqueSlots
    | .publisherToSubscriberOffset => .ofNat RingName.publisherToSubscriber.offset
    | .subscriberToPublisherOffset => .ofNat RingName.subscriberToPublisher.offset
    | .ringSize => .ofNat ringSize
  ring name := { Ring.initial name.direction with head := 3, tail := 5 }

/-- A region as the host hands it over for the first time. -/
def freshRegion : Region where
  publisherId := 1
  key := 7
  header _ := 0
  ring name := { Ring.initial name.direction with capacity := 0 }

/-- Both kinds of region at once. -/
theorem validated_after_reset_iff_fresh_stale :
    (∀ c, (regionMachine regionSize 1 7).Reachable ⟨freshRegion, false⟩ c → ∀ n,
      c.thread (.subscriber n) = some (.ret (.ok ())) → ResetDone c) ∧
    ¬ (∀ c, (regionMachine regionSize 1 7).Reachable ⟨staleRegion, false⟩ c → ∀ n,
      c.thread (.subscriber n) = some (.ret (.ok ())) → ResetDone c) :=
  ⟨(validated_after_reset_iff regionSize (Nat.le_refl _) 7 freshRegion rfl).mpr (by decide),
    fun h => (validated_after_reset_iff regionSize (Nat.le_refl _) 7 staleRegion rfl).mp h rfl⟩

/-- A subscriber accepts the region of the earlier session before the reset
has stored anything: the traffic it finds is still to be wiped. -/
theorem stale_region_validated :
    ∃ c, (regionMachine regionSize 1 7).Reachable ⟨staleRegion, false⟩ c ∧
      c.thread (.subscriber 0) = some (.ret (.ok ())) ∧ ¬ ResetDone c ∧
      (c.shared.region.ring .publisherToSubscriber).tail = 5 := by
  have hquiet : (regionMachine regionSize 1 7).Reachable ⟨staleRegion, false⟩ ⟨⟨staleRegion, false⟩, fun _ => none⟩ :=
    Relation.ReflTransGen.refl
  have hstarted := hquiet.start (.subscriber 0) () rfl rfl
  have haccepted : ∀ c ∈ layoutChecks, c.2 (staleRegion.word c.1) = true := by
    simp [layoutChecks, Region.word, staleRegion, Ring.initial]
  have hrun : (regionValidate regionSize 1 7).run regionAccess staleRegion = some (.ok (), staleRegion) :=
    run_checkLayout haccepted
  have hchecked := hstarted.run (exec_perform _) (run_perform false hrun)
  refine ⟨_, hchecked, by simp, fun hdone => ?_, rfl⟩
  cases hdone.1

end Axivc
