import Axivc.Region

/-!
# Axivc.RegionInit

A subscriber that polls while the publisher initialises the region.

`axivc_region_init_publisher` either refuses, and then has stored nothing, or
clears the magic word, rewrites every word that validation compares, and
stores the magic word last.  So from the first store on the magic word is
there only when everything behind it is: a validation that begins after that
store finds either no magic word, and is told to try again, or a region it
accepts.  Ring traffic moves cursors and slots and touches none of the words
compared, so a validation that begins after the initialiser has returned
succeeds.
-/

namespace Axivc

open Prog Rely

/-! ## what traffic leaves alone -/

/-- Ring traffic between two contents of a region: cursors and slots differ,
the identity and the words that validation compares do not. -/
structure Region.Traffic (r r' : Region) : Prop where
  publisherId : r'.publisherId = r.publisherId
  key : r'.key = r.key
  word : ∀ w, r'.word w = r.word w

namespace Region.Traffic

theorem refl (r : Region) : Traffic r r := ⟨rfl, rfl, fun _ => rfl⟩

theorem trans {r r' r'' : Region} (h : Traffic r r') (h' : Traffic r' r'') : Traffic r r'' :=
  ⟨h'.publisherId.trans h.publisherId, h'.key.trans h.key, fun w => (h'.word w).trans (h.word w)⟩

theorem header {r r' : Region} (h : Traffic r r') (field : HeaderField) : r'.header field = r.header field :=
  h.word (.header field)

/-- An access does the same to regions that differ by traffic. -/
theorem access {r r' : Region} (h : Traffic r r') (a : RegionAccess) :
    Traffic (regionAccess a r).2 (regionAccess a r').2 := by
  cases a with
  | loadPublisherId | loadKey | loadHeader => exact h
  | storePublisherId v => exact ⟨rfl, h.key, h.word⟩
  | storeKey v => exact ⟨h.publisherId, rfl, h.word⟩
  | storeHeader field v =>
      refine ⟨h.publisherId, h.key, fun w => ?_⟩
      cases w with
      | header field' => simp [regionAccess, Region.word, Function.update_apply, h.header]
      | direction name => exact h.word (.direction name)
      | capacity name => exact h.word (.capacity name)
      | slotSize name => exact h.word (.slotSize name)
  | ring name a =>
      refine ⟨h.publisherId, h.key, fun w => ?_⟩
      have hdirection := fun name => h.word (.direction name)
      have hcapacity := fun name => h.word (.capacity name)
      have hslotSize := fun name => h.word (.slotSize name)
      cases w with
      | header field => exact h.header field
      | direction name' | capacity name' | slotSize name' =>
          simp only [Region.word] at hdirection hcapacity hslotSize
          by_cases hname : name' = name
          · subst hname
            cases a <;> simp [regionAccess, Axivc.access, Region.word, hdirection, hcapacity, hslotSize]
          · simp [regionAccess, Region.word, Function.update_of_ne hname, hdirection, hcapacity, hslotSize]

end Region.Traffic

/-! ## the stores -/

/-- Stores to a ring. -/
def RingAccess.isStore : RingAccess → Bool
  | .storeDirection _ | .storeCapacity _ | .storeSlotSize _ | .storeHead _ | .storeTail _ | .storeByte .. => true
  | _ => false

/-- The access is a store. -/
def RingAccess.Stores (a : RingAccess) : Prop := a.isStore = true

/-- Stores to a region. -/
def RegionAccess.isStore : RegionAccess → Bool
  | .storePublisherId _ | .storeKey _ | .storeHeader .. => true
  | .ring _ a => a.isStore
  | _ => false

/-- Stores that touch neither the identity nor the magic word. -/
def RegionAccess.StoresLayout : RegionAccess → Prop
  | .storeHeader field _ => field ≠ .magic
  | .ring _ a => a.Stores
  | _ => False

theorem ringInitialize_stores (direction : UInt32) : (ringInitialize direction).Each RingAccess.Stores := by
  have hbytes (i : Fin ringCapacity) (js : List (Fin slotSize)) :
      (storeBytes i Slot.zero js).Each RingAccess.Stores := by
    induction js with
    | nil => trivial
    | cons j js ih => exact ⟨rfl, fun _ => ih⟩
  have hclear (is : List (Fin ringCapacity)) : (clearSlots is).Each RingAccess.Stores := by
    induction is with
    | nil => trivial
    | cons i is ih => exact (hbytes i _).bind fun _ => ih
  rw [ringInitialize]
  exact ⟨rfl, fun _ => ⟨rfl, fun _ => ⟨rfl, fun _ => ⟨rfl, fun _ => (hclear _).bind fun _ => ⟨rfl, fun _ => trivial⟩⟩⟩⟩⟩

theorem onRing_layout (name : RingName) {p : Prog ringMemory Unit} (hp : p.Each RingAccess.Stores) :
    (onRing name p).Each RegionAccess.StoresLayout :=
  Each.subst (fun a ha => show (regionMem (.ring name a)).Each _ from ⟨ha, fun _ => trivial⟩) hp

theorem fillHeader_layout : fillHeader.Each RegionAccess.StoresLayout := by
  simp [fillHeader, Each, RegionAccess.StoresLayout]

/-- The stores between the identity and the last one. -/
def rewriteLayout : Prog regionMemory Unit :=
  (onRing .publisherToSubscriber (ringInitialize RingName.publisherToSubscriber.direction) >>= fun _ =>
    onRing .subscriberToPublisher (ringInitialize RingName.subscriberToPublisher.direction)) >>= fun _ => fillHeader

theorem rewriteLayout_layout : rewriteLayout.Each RegionAccess.StoresLayout :=
  ((onRing_layout _ (ringInitialize_stores _)).bind fun _ => onRing_layout _ (ringInitialize_stores _)).bind
    fun _ => fillHeader_layout

/-- They follow the magic word and the identity. -/
theorem resetRegion_fillHeader (publisherId key : UInt64) :
    (resetRegion publisherId key >>= fun _ => fillHeader) =
      .act (.storeHeader .magic 0) fun _ => .act (.storePublisherId publisherId) fun _ =>
        .act (.storeKey key) fun _ => rewriteLayout := rfl

theorem run_rewriteLayout (r : Region) :
    rewriteLayout.run regionAccess ⟨r.publisherId, r.key, Function.update r.header .magic 0, r.ring⟩ =
      some ((), r.prepared) := by
  have hprepare := run_prepare r
  rw [resetRegion_fillHeader, run_act, run_act, run_act] at hprepare
  exact hprepare

/-- A layout store answers nothing, keeps the identity and the magic word. -/
theorem RegionAccess.StoresLayout.spec {a : RegionAccess} (ha : a.StoresLayout) (r r' : Region) :
    (regionAccess a r).1 = (regionAccess a r').1 ∧ (regionAccess a r).2.publisherId = r.publisherId ∧
      (regionAccess a r).2.key = r.key ∧ (regionAccess a r).2.header .magic = r.header .magic ∧ a.isStore = true := by
  cases a with
  | storeHeader field v =>
      have hfield : field ≠ .magic := by simpa [RegionAccess.StoresLayout] using ha
      exact ⟨rfl, rfl, rfl, Function.update_of_ne (Ne.symm hfield) .., rfl⟩
  | ring name a => cases a <;> simp_all [RegionAccess.StoresLayout, RingAccess.Stores, RingAccess.isStore, RegionAccess.isStore,
      regionAccess, access]
  | _ => cases ha

/-! ## the machine -/

/-- How far the initialiser was when a validation began. -/
structure Began where
  cleared : Bool
  returned : Bool

/-- What a validation may return: once the magic word has been cleared nothing
but success or EAGAIN, once the initialiser has returned only success. -/
def Began.Allows (b : Began) (a : Except Errno Unit) : Prop :=
  (b.cleared = true → a = .ok () ∨ a = .error .EAGAIN) ∧ (b.returned = true → a = .ok ())

/-- The region, how many stores the initialiser has performed, whether it has
been called and has returned, and for each subscriber how far it was when the
subscriber's last validation began. -/
structure RegionRun where
  region : Region
  stores : Nat
  started : Bool
  returned : Bool
  began : Nat → Began

namespace RegionRun

/-- Before anything has happened. -/
def init (r : Region) : RegionRun := ⟨r, 0, false, false, fun _ => ⟨false, false⟩⟩

/-- An access: its answer, and the state after it. -/
def perform (a : RegionAccess) (s : RegionRun) : regionMemory.Res a × RegionRun :=
  ((regionAccess a s.region).1,
    { s with region := (regionAccess a s.region).2, stores := s.stores + if a.isStore then 1 else 0 })

/-- A subscriber calls `axivc_region_validate`. -/
def begin (s : RegionRun) (n : Nat) : RegionRun :=
  { s with began := Function.update s.began n ⟨s.stores ≠ 0, s.returned⟩ }

/-- The magic word is there, and the initialiser has put it there. -/
def Settled (s : RegionRun) : Prop := s.stores ≠ 0 ∧ s.region.header .magic = regionMagic

end RegionRun

/-- One call of `axivc_region_init_publisher` among any number of calls of
`axivc_region_validate`, at single accesses, with ring traffic at any time. -/
def initMachine (shmSize : Nat) (publisherId key : UInt64) :
    Machine RegionUser regionMemory RegionRun Unit (Except Errno Unit) where
  body user _ _ :=
    match user with
    | .publisher => regionInitPublisher shmSize key
    | .subscriber _ => regionValidate shmSize publisherId key
  exec _ a s r t := r = (s.perform a).1 ∧ t = (s.perform a).2
  start user _ s t :=
    match user with
    | .publisher => s.started = false ∧ t = { s with started := true }
    | .subscriber n => t = s.begin n
  finish user _ s t :=
    match user with
    | .publisher => t = { s with returned := true }
    | .subscriber _ => t = s
  env s t := s.region.Traffic t.region ∧ t = { s with region := t.region }

/-! ## the initialiser alone -/

/-- What a program does to the region, it does to the region of a run; the
notes are not affected. -/
theorem RegionRun.run_perform {α : Type} {p : Prog regionMemory α} {r' : Region} {a : α} {s : RegionRun}
    (h : p.run regionAccess s.region = some (a, r')) :
    ∃ t, p.run RegionRun.perform s = some (a, t) ∧ t.region = r' ∧ t.began = s.began := by
  induction p generalizing s with
  | ret b =>
      cases h
      exact ⟨s, rfl, rfl, rfl⟩
  | act o k ih => exact ih (s.perform o).1 (s := (s.perform o).2) h
  | spin => cases h

/-- The region the initialiser leaves. -/
def Region.published (r : Region) : Region := (regionAccess (.storeHeader .magic regionMagic) r.prepared).2

theorem published_accepted (r : Region) : ∀ c ∈ layoutChecks, c.2 (r.published.word c.1) = true := by
  simp [layoutChecks, Region.word, Region.published, Region.prepared, Ring.initial, regionAccess]

theorem run_regionInitPublisher {shmSize : Nat} (hsize : regionSize ≤ shmSize) (r : Region) :
    (regionInitPublisher shmSize r.key).run regionAccess r = some (.ok (), r.published) := by
  rw [regionInitPublisher, if_neg (Nat.not_lt.mpr hsize)]
  change (ite (r.key ≠ r.key) _ (resetRegion r.publisherId r.key >>= fun _ => fillHeader >>= fun _ => _) :
    Prog regionMemory (Except Errno Unit)).run regionAccess r = _
  rw [if_neg (not_not_intro rfl), ← Prog.bind_assoc, run_bind, run_prepare]
  rfl

/-! ## the outline -/

section Outline

variable {shmSize : Nat} {publisherId key : UInt64}

/-- From the first store of the initialiser on, the magic word is there only
when the region is one that validation accepts.  Traffic does not change that,
the initialiser takes a magic word away only with its first store. -/
def initOutline (shmSize : Nat) (publisherId key : UInt64) : Machine.Outline (initMachine shmSize publisherId key) where
  inv s := s.region.publisherId = publisherId ∧ s.region.key = key ∧
    (s.Settled → ∀ c ∈ layoutChecks, c.2 (s.region.word c.1) = true) ∧ (s.returned = true → s.Settled) ∧
    (s.started = false → s.stores = 0)
  rely
    | .publisher, s, t => s.region.Traffic t.region ∧ t.stores = s.stores ∧ t.started = s.started
    | .subscriber n, s, t => t.began n = s.began n ∧ s.stores ≤ t.stores ∧ (s.Settled → t.Settled)
  guar
    | .publisher, s, t => t.began = s.began ∧ s.stores ≤ t.stores ∧ (s.Settled → t.Settled)
    | .subscriber n, s, t => t = { s with began := t.began } ∧ ∀ m, m ≠ n → t.began m = s.began m
  post
    | .publisher, a, s => a = .ok () ∧ s.Settled
    | .subscriber n, a, s => (s.began n).Allows a
  idle _ _ := True
  rely_refl i s := by
    cases i with
    | publisher => exact ⟨.refl _, rfl, rfl⟩
    | subscriber n => exact ⟨rfl, Nat.le_refl _, id⟩
  rely_trans i {s t u} h h' := by
    cases i with
    | publisher => exact ⟨h.1.trans h'.1, h'.2.1.trans h.2.1, h'.2.2.trans h.2.2⟩
    | subscriber n => exact ⟨h'.1.trans h.1, Nat.le_trans h.2.1 h'.2.1, fun hs => h'.2.2 (h.2.2 hs)⟩
  guar_rely {i j s t} hij _ h := by
    cases i with
    | publisher =>
        cases j with
        | publisher => exact absurd rfl hij
        | subscriber n => exact ⟨congrFun h.1 n, h.2⟩
    | subscriber m =>
        rw [h.1]
        cases j with
        | publisher => exact ⟨.refl _, rfl, rfl⟩
        | subscriber n => exact ⟨h.2 n fun hn => hij (by rw [hn]), Nat.le_refl _, id⟩
  env_rely {s t} hi h := by
    obtain ⟨htraffic, ht⟩ := h
    have hsettled : t.Settled ↔ s.Settled := by
      rw [ht]
      simp only [RegionRun.Settled, htraffic.header]
    obtain ⟨hid, hkey, haccepted, hreturned, hstarted⟩ := hi
    refine ⟨⟨htraffic.publisherId.trans hid, htraffic.key.trans hkey, fun hs c hc => ?_, fun hr => ?_, ?_⟩,
      fun i => ?_⟩
    · rw [htraffic.word]
      exact haccepted (hsettled.mp hs) c hc
    · rw [ht] at hr
      exact hsettled.mpr (hreturned hr)
    · rw [ht]
      exact hstarted
    · cases i with
      | publisher => exact ⟨htraffic, by rw [ht], by rw [ht]⟩
      | subscriber n => exact ⟨by rw [ht], Nat.le_of_eq (by rw [ht]), hsettled.mpr⟩
  idle_stable _ _ _ := trivial
  finish_ok {i a s t} hi hp hf := by
    cases i with
    | publisher =>
        rw [show t = { s with returned := true } from hf]
        exact ⟨⟨hi.1, hi.2.1, hi.2.2.1, fun _ => hp.2, hi.2.2.2.2⟩, ⟨rfl, Nat.le_refl _, id⟩, trivial⟩
    | subscriber n =>
        rw [show t = s from hf]
        exact ⟨hi, ⟨rfl, fun _ _ => rfl⟩, trivial⟩

/-- A load changes nothing. -/
theorem perform_load {a : RegionAccess} (ha : ∀ r, (regionAccess a r).2 = r) (hstore : a.isStore = false)
    (s : RegionRun) : (s.perform a).2 = s := by
  simp [RegionRun.perform, ha, hstore]

/-! ## the initialiser -/

/-- The initialiser is between its first store and its last. -/
def RegionRun.Resetting (s : RegionRun) : Prop :=
  s.started = true ∧ s.stores ≠ 0 ∧ s.region.header .magic ≠ regionMagic

/-- A store of the initialiser that leaves the identity as it is and no magic
word. -/
theorem init_store (shmSize : Nat) {a : RegionAccess} {s : RegionRun} (hi : (initOutline shmSize publisherId key).inv s)
    (hstarted : s.started = true) (hnot : ¬ s.Settled) (hstore : a.isStore = true)
    (hid : (regionAccess a s.region).2.publisherId = s.region.publisherId)
    (hkey : (regionAccess a s.region).2.key = s.region.key)
    (hmagic : (regionAccess a s.region).2.header .magic ≠ regionMagic) :
    (initOutline shmSize publisherId key).inv (s.perform a).2 ∧
      (initOutline shmSize publisherId key).guar .publisher s (s.perform a).2 ∧ (s.perform a).2.Resetting := by
  refine ⟨⟨hid.trans hi.1, hkey.trans hi.2.1, fun h => absurd h.2 hmagic, fun h => absurd (hi.2.2.2.1 h) hnot,
    fun h => ?_⟩, ⟨rfl, Nat.le_add_right _ _, fun h => absurd h hnot⟩, hstarted, ?_, hmagic⟩
  · rw [show s.started = false from h] at hstarted
    cases hstarted
  · simp [RegionRun.perform, hstore]

/-- The stores to the rings and the header, whatever traffic there is: the
layout comes out as it does without. -/
theorem safe_rewrite {p : Prog regionMemory Unit} (hp : p.Each RegionAccess.StoresLayout) {r r' : Region}
    (hrun : p.run regionAccess r = some ((), r')) {s : RegionRun} (hs : s.Resetting) (htraffic : r.Traffic s.region) :
    ((initOutline shmSize publisherId key).view .publisher).Safe
      (fun _ t => t.Resetting ∧ r'.Traffic t.region) p s := by
  have hstable (s t : RegionRun) (hs : s.Resetting)
      (ht : ((initOutline shmSize publisherId key).view .publisher).rely s t) : t.Resetting := by
    obtain ⟨htr, hstores, hstarted⟩ := ht
    exact ⟨hstarted.trans hs.1, by rw [hstores]; exact hs.2.1, by rw [htr.header]; exact hs.2.2⟩
  induction p generalizing r s with
  | ret a =>
      intro t ht _
      cases hrun
      exact ⟨hstable s t hs ht, htraffic.trans ht.1⟩
  | act a k ih =>
      intro t ht hi
      have hs' := hstable s t hs ht
      have htraffic' := htraffic.trans ht.1
      refine ⟨trivial, ?_⟩
      rintro _ _ ⟨rfl, rfl⟩
      obtain ⟨hanswer, hid, hkey, hmagic, hstore⟩ := hp.1.spec t.region r
      obtain ⟨hinv, hguar, hnext⟩ := init_store shmSize hi hs'.1 (fun h => hs'.2.2 h.2) hstore hid hkey
        (by rw [hmagic]; exact hs'.2.2)
      refine ⟨hinv, hguar, ih _ (hp.2 _) ?_ hnext (htraffic'.access a)⟩
      rw [run_act, ← hanswer] at hrun
      exact hrun
  | spin => cases hrun

/-- A store of the initialiser before the layout, entered before or after its
first one. -/
theorem safe_reset_store {a : RegionAccess} {k : regionMemory.Res a → Prog regionMemory (Except Errno Unit)}
    {post : Except Errno Unit → RegionRun → Prop} {r : Region} {s : RegionRun} (hstarted : s.started = true)
    (hnot : ¬ s.Settled) (htraffic : r.Traffic s.region) (hstore : a.isStore = true)
    (hkeeps : ∀ r' : Region, r.Traffic r' → (regionAccess a r').2.publisherId = r'.publisherId ∧
      (regionAccess a r').2.key = r'.key ∧ (regionAccess a r').2.header .magic ≠ regionMagic)
    (hk : ∀ v t, t.Resetting → ((regionAccess a r).2).Traffic t.region →
      ((initOutline shmSize publisherId key).view .publisher).Safe post (k v) t) :
    ((initOutline shmSize publisherId key).view .publisher).Safe post (.act a k) s := by
  rintro t ⟨htr, hstores, hst⟩ hi
  refine ⟨trivial, ?_⟩
  rintro _ _ ⟨rfl, rfl⟩
  have hnot' : ¬ t.Settled := by
    rintro ⟨hne, hmagic⟩
    rw [htr.header] at hmagic
    exact hnot ⟨hstores ▸ hne, hmagic⟩
  obtain ⟨hid, hkey, hmagic⟩ := hkeeps _ (htraffic.trans htr)
  obtain ⟨hinv, hguar, hnext⟩ := init_store shmSize hi (hst.trans hstarted) hnot' hstore hid hkey hmagic
  exact ⟨hinv, hguar, hk _ _ hnext ((htraffic.trans htr).access a)⟩

/-- **The initialiser is safe.** -/
theorem safe_init (hsize : regionSize ≤ shmSize) {s : RegionRun} (hstarted : s.started = true) (hstores : s.stores = 0) :
    ((initOutline shmSize publisherId key).view .publisher).Safe
      ((initOutline shmSize publisherId key).post .publisher) (regionInitPublisher shmSize key) s := by
  rw [regionInitPublisher, if_neg (Nat.not_lt.mpr hsize)]
  -- The two loads find the identity.
  rintro t ⟨-, ht, hst⟩ hi
  refine ⟨trivial, ?_⟩
  rintro _ _ ⟨rfl, rfl⟩
  rw [perform_load (fun _ => rfl) rfl]
  refine ⟨hi, ⟨rfl, Nat.le_refl _, id⟩, ?_⟩
  rintro u ⟨-, hu, hsu⟩ hi'
  refine ⟨trivial, ?_⟩
  rintro _ _ ⟨rfl, rfl⟩
  rw [perform_load (fun _ => rfl) rfl]
  refine ⟨hi', ⟨rfl, Nat.le_refl _, id⟩, ?_⟩
  have hid : t.region.publisherId = u.region.publisherId := hi.1.trans hi'.1.symm
  change View.Safe _ _ (ite (u.region.key ≠ key) _ (resetRegion t.region.publisherId u.region.key >>= fun _ =>
    fillHeader >>= fun _ => _)) u
  rw [if_neg (not_not_intro hi'.2.1), hid, ← Prog.bind_assoc, resetRegion_fillHeader]
  generalize hr : u.region = r
  have htraffic : r.Traffic u.region := hr ▸ .refl _
  -- The magic word goes first, the identity is stored as it was.
  have hfirst : ¬ u.Settled := fun h => h.1 (hu.trans (ht.trans hstores))
  refine safe_reset_store (hsu.trans (hst.trans hstarted)) hfirst htraffic rfl
    (fun _ _ => ⟨rfl, rfl, by simp [regionAccess, regionMagic]⟩) fun _ v hv htv => ?_
  refine safe_reset_store hv.1 (fun h => hv.2.2 h.2) htv rfl
    (fun r' hr' => ⟨hr'.publisherId.symm, rfl, ?_⟩) fun _ w hw htw => ?_
  · rw [show (regionAccess (.storePublisherId r.publisherId) r').2.header .magic = r'.header .magic from rfl, hr'.header]
    simp [regionAccess, regionMagic]
  refine safe_reset_store hw.1 (fun h => hw.2.2 h.2) htw rfl
    (fun r' hr' => ⟨rfl, hr'.key.symm, ?_⟩) fun _ x hx htx => ?_
  · rw [show (regionAccess (.storeKey r.key) r').2.header .magic = r'.header .magic from rfl, hr'.header]
    simp [regionAccess, regionMagic]
  refine View.Safe.bind ((safe_rewrite rewriteLayout_layout (run_rewriteLayout r) hx htx).mono fun _ y _ hy => ?_)
  -- The last store publishes what is now a complete layout.
  obtain ⟨hreset, hlayout⟩ := hy
  rintro z ⟨htz, hstoresz, hstz⟩ hi
  refine ⟨trivial, ?_⟩
  rintro _ _ ⟨rfl, rfl⟩
  have hpublished : r.published.Traffic (z.perform (.storeHeader .magic regionMagic)).2.region :=
    (hlayout.trans htz).access (.storeHeader .magic regionMagic)
  have hsettled : (z.perform (.storeHeader .magic regionMagic)).2.Settled :=
    ⟨by simp [RegionRun.perform, RegionAccess.isStore], by simp [RegionRun.perform, regionAccess]⟩
  refine ⟨⟨hi.1, hi.2.1, fun _ c hc => ?_, fun _ => hsettled, fun h => ?_⟩,
    ⟨rfl, Nat.le_add_right _ _, fun _ => hsettled⟩, ?_⟩
  · rw [hpublished.word]
    exact published_accepted r c hc
  · rw [show z.started = false from h, hreset.1] at hstz
    cases hstz
  · intro a ha _
    refine ⟨rfl, ?_, ?_⟩
    · rw [ha.2.1]
      exact hsettled.1
    · rw [ha.1.header]
      exact hsettled.2

/-! ## validation -/

/-- What a running validation of subscriber `n` knows: how far the initialiser
was when it began, and that it has not gone back since. -/
structure Validating (n : Nat) (b : Began) (s : RegionRun) : Prop where
  began : s.began n = b
  cleared : b.cleared = true → s.stores ≠ 0
  settled : b.returned = true → s.Settled

theorem Validating.stable {n : Nat} {b : Began} {s t : RegionRun} (h : Validating n b s)
    (hr : ((initOutline shmSize publisherId key).view (.subscriber n)).rely s t) : Validating n b t :=
  ⟨hr.1.trans h.began, fun hb => Nat.ne_of_gt (Nat.lt_of_lt_of_le (Nat.pos_of_ne_zero (h.cleared hb)) hr.2.1),
    fun hb => hr.2.2 (h.settled hb)⟩

/-- A load of a validation, with what it knows besides. -/
theorem safe_validate_load {n : Nat} {b : Began} {s : RegionRun} {a : RegionAccess}
    {k : regionMemory.Res a → Prog regionMemory (Except Errno Unit)} (ha : ∀ r, (regionAccess a r).2 = r)
    (hload : a.isStore = false) (known : Prop) (hs : Validating n b s) (hknown : known → s.Settled)
    (hk : ∀ t, (initOutline shmSize publisherId key).inv t → Validating n b t → (known → t.Settled) →
      ((initOutline shmSize publisherId key).view (.subscriber n)).Safe
        ((initOutline shmSize publisherId key).post (.subscriber n)) (k (regionAccess a t.region).1) t) :
    ((initOutline shmSize publisherId key).view (.subscriber n)).Safe
      ((initOutline shmSize publisherId key).post (.subscriber n)) (.act a k) s := by
  intro t ht hi
  refine ⟨trivial, ?_⟩
  rintro _ _ ⟨rfl, rfl⟩
  rw [perform_load ha hload]
  exact ⟨hi, ⟨rfl, fun _ _ => rfl⟩, hk t hi (hs.stable ht) fun h => ht.2.2 (hknown h)⟩

theorem safe_validate_ret {n : Nat} {b : Began} {s : RegionRun} {a : Except Errno Unit} (hs : Validating n b s)
    (ha : b.Allows a) : ((initOutline shmSize publisherId key).view (.subscriber n)).Safe
      ((initOutline shmSize publisherId key).post (.subscriber n)) (.ret a) s := by
  intro t ht _
  have hbegan : t.began n = b := (hs.stable ht).began
  change (t.began n).Allows a
  rw [hbegan]
  exact ha

/-- The comparisons behind the magic word: a validation that began after the
word was cleared makes them on an accepted region. -/
theorem safe_validate_layout {n : Nat} {b : Began} (hb : b.returned = true → b.cleared = true)
    {checks : List (LayoutWord × (UInt32 → Bool))} (hchecks : ∀ c ∈ checks, c ∈ layoutChecks) {s : RegionRun}
    (hs : Validating n b s) (hsettled : b.cleared = true → s.Settled) :
    ((initOutline shmSize publisherId key).view (.subscriber n)).Safe
      ((initOutline shmSize publisherId key).post (.subscriber n)) (checkLayout checks) s := by
  induction checks generalizing s with
  | nil => exact safe_validate_ret hs ⟨fun _ => .inl rfl, fun _ => rfl⟩
  | cons c checks ih =>
      obtain ⟨word, accepts⟩ := c
      have hrest (t : RegionRun) (hi : (initOutline shmSize publisherId key).inv t) (ht : Validating n b t)
          (hset : b.cleared = true → t.Settled) :
          ((initOutline shmSize publisherId key).view (.subscriber n)).Safe
            ((initOutline shmSize publisherId key).post (.subscriber n))
            (if accepts (t.region.word word) then checkLayout checks else pure (.error .EPROTO)) t := by
        by_cases haccepts : accepts (t.region.word word) = true
        · rw [if_pos haccepts]
          exact ih (fun c hc => hchecks c (List.mem_cons_of_mem _ hc)) ht hset
        · rw [if_neg haccepts]
          have hnot : b.cleared ≠ true := fun hc =>
            haccepts (hi.2.2.1 (hset hc) (word, accepts) (hchecks _ List.mem_cons_self))
          exact safe_validate_ret ht ⟨fun hc => absurd hc hnot, fun hr => absurd (hb hr) hnot⟩
      have hring (name : RingName) (a : RingAccess) (ha : ∀ m, (access a m).2 = m) (r : Region) :
          (regionAccess (.ring name a) r).2 = r := by
        simp [regionAccess, ha, Function.update_eq_self]
      cases word with
      | header field => exact safe_validate_load (fun _ => rfl) rfl _ hs hsettled fun t => hrest t
      | direction name => exact safe_validate_load (hring name _ fun _ => rfl) rfl _ hs hsettled fun t => hrest t
      | capacity name => exact safe_validate_load (hring name _ fun _ => rfl) rfl _ hs hsettled fun t => hrest t
      | slotSize name => exact safe_validate_load (hring name _ fun _ => rfl) rfl _ hs hsettled fun t => hrest t

/-- **A validation is safe.** -/
theorem safe_validate (hsize : regionSize ≤ shmSize) {n : Nat} {b : Began}
    (hb : b.returned = true → b.cleared = true) {s : RegionRun} (hs : Validating n b s) :
    ((initOutline shmSize publisherId key).view (.subscriber n)).Safe
      ((initOutline shmSize publisherId key).post (.subscriber n)) (regionValidate shmSize publisherId key) s := by
  rw [regionValidate, if_neg (Nat.not_lt.mpr hsize)]
  refine safe_validate_load (fun _ => rfl) rfl False hs False.elim fun t hi ht _ => ?_
  change View.Safe _ _ (ite (t.region.publisherId ≠ publisherId) _ _) t
  rw [if_neg (not_not_intro hi.1)]
  refine safe_validate_load (fun _ => rfl) rfl False ht False.elim fun u hi hu _ => ?_
  change View.Safe _ _ (ite (u.region.key ≠ key) _ _) u
  rw [if_neg (not_not_intro hi.2.1)]
  refine safe_validate_load (fun _ => rfl) rfl False hu False.elim fun v hi hv _ => ?_
  change View.Safe _ _ (ite (v.region.header .magic ≠ regionMagic) _ _) v
  by_cases hmagic : v.region.header .magic = regionMagic
  · rw [if_neg (not_not_intro hmagic)]
    exact safe_validate_layout hb (fun _ => id) hv fun hc => ⟨hv.cleared hc, hmagic⟩
  · rw [if_pos hmagic]
    exact safe_validate_ret hv ⟨fun _ => .inr rfl, fun hr => absurd (hv.settled hr).2 hmagic⟩

theorem init_starts (hsize : regionSize ≤ shmSize) : (initOutline shmSize publisherId key).Starts := by
  intro user call s t hi _ hst
  cases user with
  | publisher =>
      obtain ⟨hnot, rfl⟩ := hst
      refine ⟨⟨hi.1, hi.2.1, hi.2.2.1, hi.2.2.2.1, fun h => nomatch h⟩, ⟨rfl, Nat.le_refl _, id⟩,
        safe_init hsize rfl (hi.2.2.2.2 hnot)⟩
  | subscriber n =>
      obtain rfl : t = s.begin n := hst
      refine ⟨hi, ⟨rfl, fun m hm => Function.update_of_ne hm ..⟩, ?_⟩
      refine safe_validate hsize (b := ⟨s.stores ≠ 0, s.returned⟩) (fun hr => ?_)
        ⟨Function.update_self .., of_decide_eq_true, fun h => hi.2.2.2.1 h⟩
      simpa using (hi.2.2.2.1 hr).1

theorem init_inv (shmSize : Nat) (r : Region) : (initOutline shmSize r.publisherId r.key).inv (.init r) := by
  refine ⟨rfl, rfl, fun h => absurd rfl h.1, fun h => ?_, fun _ => rfl⟩
  cases h

end Outline

/-! ## the result -/

/-- A region that is too small is refused. -/
theorem run_init_small {shmSize : Nat} (hsize : shmSize < regionSize) (key : UInt64) (s : RegionRun) :
    (regionInitPublisher shmSize key).run RegionRun.perform s = some (.error .EINVAL, s) := by
  rw [regionInitPublisher, if_pos hsize]
  rfl

/-- A region of another channel is refused. -/
theorem run_init_foreign {shmSize : Nat} (hsize : regionSize ≤ shmSize) {key : UInt64} {s : RegionRun}
    (hkey : s.region.key ≠ key) :
    (regionInitPublisher shmSize key).run RegionRun.perform s = some (.error .EPROTO, s) := by
  simp [regionInitPublisher, Nat.not_lt.mpr hsize, RegionRun.perform, regionAccess, RegionAccess.isStore, hkey]

/-- **Initialisation is atomic on failure, and a subscriber that races with it
is not rejected.**  Whatever the region holds: a region that is too small is
refused with EINVAL and one of another key with EPROTO, in both cases with no
store performed; otherwise initialisation succeeds, keeps the identity and
leaves both rings empty with their own directions.  And then, in every
interleaving with validations and ring traffic, a validation returns only what
`Began.Allows` says. -/
theorem racing_subscriber_not_rejected (shmSize : Nat) (key : UInt64) (r : Region) :
    (shmSize < regionSize →
      (regionInitPublisher shmSize key).run RegionRun.perform (.init r) = some (.error .EINVAL, .init r)) ∧
    (regionSize ≤ shmSize → r.key ≠ key →
      (regionInitPublisher shmSize key).run RegionRun.perform (.init r) = some (.error .EPROTO, .init r)) ∧
    (regionSize ≤ shmSize → r.key = key →
      (∃ t, (regionInitPublisher shmSize key).run RegionRun.perform (.init r) = some (.ok (), t) ∧
        t.region.publisherId = r.publisherId ∧ t.region.key = r.key ∧
        ∀ name, t.region.ring name = .initial name.direction) ∧
      ∀ c, (initMachine shmSize r.publisherId key).Reachable (.init r) c →
        (∀ a, c.thread .publisher = some (.ret a) → a = .ok ()) ∧
        ∀ n a, c.thread (.subscriber n) = some (.ret a) → (c.shared.began n).Allows a) := by
  refine ⟨fun hsize => run_init_small hsize key _, fun hsize hkey => run_init_foreign hsize hkey,
    fun hsize hkey => ?_⟩
  subst hkey
  constructor
  · obtain ⟨t, hrun, hregion, -⟩ := RegionRun.run_perform (s := .init r) (run_regionInitPublisher hsize r)
    refine ⟨t, hrun, ?_⟩
    rw [hregion]
    exact ⟨rfl, rfl, fun _ => rfl⟩
  · intro c hc
    have hgood := (initOutline shmSize r.publisherId r.key).good (init_starts hsize) (init_inv shmSize r)
      (fun _ => trivial) hc
    exact ⟨fun a ha => (hgood.post ha).1, fun n a ha => hgood.post ha⟩

/-- A published region is accepted. -/
theorem run_validate_published {shmSize : Nat} (hsize : regionSize ≤ shmSize) (r : Region) :
    (regionValidate shmSize r.publisherId r.key).run regionAccess r.published = some (.ok (), r.published) := by
  have hchecks := run_checkLayout (published_accepted r)
  rw [regionValidate, if_neg (Nat.not_lt.mpr hsize)]
  change (ite (r.publisherId ≠ r.publisherId) _ _ : Prog regionMemory (Except Errno Unit)).run _ _ = _
  rw [if_neg (not_not_intro rfl)]
  change (ite (r.key ≠ r.key) _ _ : Prog regionMemory (Except Errno Unit)).run _ _ = _
  rw [if_neg (not_not_intro rfl)]
  exact hchecks

/-- Instance: a region too small, one of another channel, and the region of an
earlier session, initialised and then validated. -/
theorem racing_subscriber_not_rejected_stale :
    (regionInitPublisher 100 7).run RegionRun.perform (.init staleRegion) = some (.error .EINVAL, .init staleRegion) ∧
    (regionInitPublisher regionSize 8).run RegionRun.perform (.init staleRegion) =
      some (.error .EPROTO, .init staleRegion) ∧
    ∃ c, (initMachine regionSize 1 7).Reachable (.init staleRegion) c ∧ (c.shared.began 0).returned = true ∧
      c.thread (.subscriber 0) = some (.ret (.ok ())) ∧ (c.shared.began 0).Allows (.ok ()) := by
  have hexec (user : RegionUser) (a : RegionAccess) (s : RegionRun) :
      (initMachine regionSize 1 7).exec user a s (s.perform a).1 (s.perform a).2 := ⟨rfl, rfl⟩
  refine ⟨(racing_subscriber_not_rejected 100 7 staleRegion).1 (by decide),
    (racing_subscriber_not_rejected regionSize 8 staleRegion).2.1 (Nat.le_refl _) (by decide), ?_⟩
  have hquiet : (initMachine regionSize 1 7).Reachable (.init staleRegion) (Machine.quiet (.init staleRegion)) := .refl
  have hstarted := hquiet.start .publisher () rfl ⟨rfl, rfl⟩
  obtain ⟨s, hinit, hregion, -⟩ := RegionRun.run_perform (s := { RegionRun.init staleRegion with started := true })
    (run_regionInitPublisher (Nat.le_refl _) staleRegion)
  have hreturned := (hstarted.run (hexec .publisher) hinit).finish .publisher (Function.update_self ..) rfl
  have hbegun := hreturned.start (.subscriber 0) () (by simp) rfl
  have hvalid := run_validate_published (Nat.le_refl _) staleRegion
  rw [← hregion] at hvalid
  obtain ⟨t, hvalidate, -, hbegan⟩ := RegionRun.run_perform (s := RegionRun.begin { s with returned := true } 0) hvalid
  have hdone := hbegun.run (hexec (.subscriber 0)) hvalidate
  have hallows := ((racing_subscriber_not_rejected regionSize 7 staleRegion).2.2 (Nat.le_refl _) rfl).2 _ hdone
  refine ⟨_, hdone, ?_, by simp, hallows.2 0 (.ok ()) (by simp)⟩
  change (t.began 0).returned = true
  rw [hbegan]
  simp [RegionRun.begin]

end Axivc
