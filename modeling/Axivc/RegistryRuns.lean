import Axivc.RegistryCalls

/-!
# Axivc.RegistryRuns

What holds in every run of the registry.

* `open_files_exclude_teardown`: a device that is open is not taken down, and a
  device that is taken down is not open and cannot be opened any more.
* `registry_agrees`: every channel at the hypervisor and every mapping has one
  owner, as long as the hypervisor's failures are not cut off.
* `records_allocated`: every step works on allocated records, as long as no
  record is freed between its listing and the copy of its name.

The last two do not hold of every run, and the runs that break them are given.
-/

namespace Axivc

namespace Registry

open Prog Rely

/-! ## a hypervisor -/

/-- The hypervisor as the driver knows it: a channel that is open cannot be
opened again, and what a failed call takes back is taken back. -/
def hypervisor {Chan : Type} : Rules Chan where
  opens K chan verdict := verdict = 0 → chan ∉ K
  closes _ _ _ := True
  rollsBack _ _ verdict := verdict = 0
  frees _ _ := True

/-- How a run on given inputs goes: what the hypervisor answers when a channel
is open already and when it is to be closed, and the mapping and the memory
that are handed out. -/
structure Course where
  busy : UInt64
  closing : UInt64
  mapping : Nat
  vdev : Nat

/-- The answers. -/
def Course.answer {Chan : Type} [DecidableEq Chan] (x : Course) (s : State Chan) : (o : Op Chan) → (iface Chan).Res o
  | .kzallocOutput => true
  | .kva2pa | .jiffies | .msecsToJiffies _ | .hvcRollback _ => (0 : UInt64)
  | .hvcOpen chan _ => if chan ∈ s.keys then x.busy else 0
  | .hvcClose _ => x.closing
  | .loadOutput => ((0 : UInt64), (0 : UInt64))
  | .memremap _ _ => if x.mapping ∈ s.mapped then none else some x.mapping
  | .regionInitPublisher .. | .regionValidate .. | .miscRegister _ => .ok ()
  | .msleepInterruptible _ => (0 : Nat)
  | .kzallocVdev =>
      match s.heap x.vdev with
      | .unused => some x.vdev
      | _ => none
  | .reserve => if s.count ≥ maxVdevs then none else some s.nextId
  | .loadName v => s.nameOf v
  | .loadMapped v =>
      match s.heap v with
      | .live d _ => d.mappedShmBase
      | _ => none
  | .loadActive v =>
      match s.heap v with
      | .live d _ => d.active
      | _ => false
  | .beginRemoval chan => s.walk chan
  | .activate _ v => s.tryOpen v
  | .kfreeOutput | .unreserve | .store .. | .listAddTail _ | .memunmap _ | .kfree _ | .endRemoval _
  | .miscDeregister _ | .listDel _ | .useEndpoint _ | .deactivate _ _ => ()

/-- The steps of call `i`. -/
def Course.perform {Chan : Type} [DecidableEq Chan] [Inhabited Chan] (x : Course) (i : Nat) (o : Op Chan)
    (s : State Chan) : (iface Chan).Res o × State Chan :=
  (x.answer s o, after i s o (x.answer s o))

/-- The hypervisor may answer so. -/
structure Course.Fits {Chan : Type} [DecidableEq Chan] (x : Course) (rules : Rules Chan) : Prop where
  opens : ∀ K chan, rules.opens K chan (if chan ∈ K then x.busy else 0)
  closes : ∀ K chan, rules.closes K chan x.closing
  rollsBack : ∀ K chan, rules.rollsBack K chan 0

/-- Everything but `misc_deregister`, which waits for the open callbacks that
run, and `kfree`, on which a rule may have a say. -/
def Op.isFree {Chan : Type} : Op Chan → Bool
  | .miscDeregister _ | .kfree _ => false
  | _ => true

theorem Course.exec_perform {Chan : Type} [DecidableEq Chan] [Inhabited Chan] (side : Side Chan) {rules : Rules Chan}
    {x : Course} (hx : x.Fits rules) (i : Nat) (o : Op Chan) (s : State Chan) (ho : o.isFree = true) :
    (machine side rules).exec i o s (x.perform i o s).1 (x.perform i o s).2 := by
  refine ⟨?_, rfl⟩
  cases o
  case hvcOpen chan size => exact hx.opens s.keys chan
  case hvcClose chan => exact hx.closes s.keys chan
  case hvcRollback chan => exact hx.rollsBack s.keys chan
  case memremap base size =>
    intro n hn
    simp only [Course.perform, Course.answer] at hn
    split at hn
    · cases hn
    · cases hn
      assumption
  case kzallocVdev =>
    intro n hn
    simp only [Course.perform, Course.answer] at hn
    split at hn
    · next hunused =>
      cases hn
      exact hunused
    · cases hn
  case loadName v =>
    intro d p hv
    simp [Course.perform, Course.answer, State.nameOf, hv]
  case loadMapped v =>
    intro d p hv
    simp [Course.perform, Course.answer, hv]
  case loadActive v =>
    intro d p hv
    simp [Course.perform, Course.answer, hv]
  case miscDeregister v => cases ho
  case kfree v => cases ho
  all_goals trivial

/-- Let call `i` begin and take its first `n` steps. -/
theorem Course.reachable {Chan : Type} [DecidableEq Chan] [Inhabited Chan] (side : Side Chan) {rules : Rules Chan}
    {x : Course} (hx : x.Fits rules) {s t : State Chan} {T : Nat → Option (Prog (iface Chan) Ret)} {i : Nat}
    (call : Call Chan) (n : Nat) (h : (machine side rules).Reachable .init ⟨s, T⟩) (hi : T i = none)
    (hbegin : Begins i s t call) (hn : (body side call).nextAre (fun o : Op Chan => o.isFree) (x.perform i) n t = true) :
    (machine side rules).Reachable .init ⟨((body side call).advance (x.perform i) n t).2,
      Function.update T i (some ((body side call).advance (x.perform i) n t).1)⟩ := by
  have hstarted := h.start i call hi hbegin
  exact hstarted.advance_of (x.exec_perform side hx i) n hn

theorem fits_hypervisor {Chan : Type} [DecidableEq Chan] {x : Course} (hbusy : x.busy ≠ 0) :
    x.Fits (hypervisor : Rules Chan) where
  opens K chan := by
    intro hzero
    split at hzero
    · exact absurd hzero hbusy
    · assumption
  closes _ _ := trivial
  rollsBack _ _ := rfl

/-! ## open files and teardown -/

/-- The device that a step of a file works on. -/
def Op.device {Chan : Type} : Op Chan → Option Nat
  | .activate _ v | .loadActive v | .useEndpoint v | .deactivate _ v => some v
  | _ => none

/-- No file of device `v` is there, and no call works on one. -/
structure Unused {Chan : Type} (v : Nat) (c : Config Nat (iface Chan) (State Chan) Ret) : Prop where
  file : ∀ f file, c.shared.files f = some file → file.vdev ≠ v
  step : ∀ i o k, c.thread i = some (.act o k) → o.device ≠ some v

/-- A call is about to drop the mapping of record `v` and to free it, or to
free it. -/
def Frees {Chan : Type} (c : Config Nat (iface Chan) (State Chan) Ret) (v : Nat) : Prop :=
  ∃ i, (∃ m k, c.thread i = some (.act (.memunmap m) fun _ => .act (.kfree v) k)) ∨
    ∃ k, c.thread i = some (.act (.kfree v) k)

/-- The device of record `v` is not registered and never will be. -/
def Doomed {Chan : Type} (v : Nat) (c : Config Nat (iface Chan) (State Chan) Ret) : Prop :=
  (c.shared.heap v).isGone = true ∨ ∃ i k, c.thread i = some (.act (.kfree v) k) ∧
    (c.shared.heap v).thread = some i ∧ (c.shared.heap v).isRegistered = false

theorem Doomed.not_registered {Chan : Type} {c : Config Nat (iface Chan) (State Chan) Ret} {v : Nat} (h : Doomed v c) : (c.shared.heap v).isRegistered = false := by
  obtain hgone | ⟨i, k, -, -, hreg⟩ := h
  · cases hc : c.shared.heap v with
    | live d p =>
        rw [hc] at hgone
        cases p <;> first | rfl | cases hgone
    | unused | freed => rfl
  · exact hreg

variable {Chan : Type} [DecidableEq Chan] [Inhabited Chan] {side : Side Chan} {rules : Rules Chan}
  {c c' : Config Nat (iface Chan) (State Chan) Ret} {v : Nat}

/-- A device that is not registered is not in use. -/
theorem unused_of_not_registered (hc : (outline side rules).Good c) (hv : (c.shared.heap v).isRegistered = false) :
    Unused v c := by
  have hfile (f : Nat) (file : File) (hf : c.shared.files f = some file) : file.vdev ≠ v := by
    intro hvdev
    have hquiet := hc.1.not_running hv f file hf hvdev
    have hopen : openDevice (c.shared.files f) = some v := by
      rw [hf, openDevice, if_pos, hvdev]
      cases hs : file.stage <;> simp_all [FileStage.isRunning, FileStage.isOpen]
    obtain ⟨d, p, hd, hactive⟩ := hc.1.live_of_open hopen
    have hok := hc.1.shape.ok v
    rw [hd] at hok hv
    have hmay := hok.2 hactive
    cases p <;> simp_all [Phase.mayOpen, Cell.isRegistered, Phase.isRegistered]
  refine ⟨hfile, fun i o k hi hdev => ?_⟩
  have hready := (hc.pre hi).ready
  cases o <;> simp only [Op.device, reduceCtorEq, Option.some.injEq] at hdev
  case activate f w => exact hfile f _ hready hdev
  case deactivate f w => exact hfile f _ hready hdev
  case loadActive w =>
    obtain ⟨f, io, hf, -⟩ := hready
    exact hfile f _ hf hdev
  case useEndpoint w =>
    obtain ⟨f, io, hf, -⟩ := hready
    exact hfile f _ hf hdev

/-- A record that is about to be unmapped or freed is doomed. -/
theorem doomed_of_frees (hc : (outline side rules).Good c) (h : Frees c v) : Doomed v c := by
  obtain ⟨i, ⟨m, k, hi⟩ | ⟨k, hi⟩⟩ := h
  · -- The step after next frees `v`, so the call controls it now and has taken it off the list.
    obtain ⟨hpre, hstep⟩ := (hc.2 i).2 _ hi _ (Kept.refl i _) hc.1
    obtain ⟨hinv, -, hsafe⟩ := hstep () _ ⟨trivial, rfl⟩
    have howner := hinv.shape.owner v i (hsafe _ (Kept.refl i _) hinv).1.ready.1
    cases hheld : (c.shared.held i).vdev with
    | none =>
        simp [after_memunmap, hheld] at howner
    | some w =>
        obtain ⟨d, hd, -⟩ := hpre.ready w hheld
        have hw : w = v := by
          simp only [after_memunmap, hheld] at howner
          rw [(onVdev_held _ _ _ _).1, hheld] at howner
          exact Option.some.inj howner
        rw [hw] at hd
        exact .inl (by rw [hd]; rfl)
  · obtain ⟨hthread, hreg⟩ := (hc.pre hi).ready
    exact .inr ⟨i, k, hi, hthread, hreg⟩

/-- A record that is doomed stays so. -/
theorem Doomed.step (h : Doomed v c) (hc : (outline side rules).Good c) (hstep : (machine side rules).Step c c') :
    Doomed v c' := by
  obtain hgone | ⟨i, k, hi, hthread, hreg⟩ := h
  · obtain henv | ⟨i, hmoves⟩ := (outline side rules).step_guar (outline_starts side rules) hc hstep
    · exact henv.elim
    · exact .inl (hmoves.gone v hgone)
  · obtain ⟨hi', hkept⟩ | ⟨r, ⟨-, hafter⟩, -⟩ := (outline side rules).step_cases (outline_starts side rules) hc hstep hi
    · cases hv : c.shared.heap v with
      | live d p =>
          rw [hv] at hthread hreg
          obtain ⟨a, hv'⟩ := hkept.vdev v d p hv hthread
          exact .inr ⟨i, k, hi', by rw [hv']; exact hthread, by rw [hv']; exact hreg⟩
      | unused | freed =>
          rw [hv] at hthread
          cases hthread
    · have hfreed : c'.shared.heap v = .freed := by
        rw [hafter]
        exact Function.update_self ..
      exact .inl (by rw [hfreed]; rfl)

/-- A record that is unmapped or freed is never used again. -/
theorem unused_of_frees (hc : (outline side rules).Good c) (h : Frees c v)
    (hrun : Relation.ReflTransGen (machine side rules).Step c c') : Unused v c' := by
  have hboth : (outline side rules).Good c' ∧ Doomed v c' := by
    induction hrun with
    | refl => exact ⟨hc, doomed_of_frees hc h⟩
    | tail _ hstep ih =>
        exact ⟨(outline side rules).good_step (outline_starts side rules) ih.1 hstep, ih.2.step ih.1 hstep⟩
  exact unused_of_not_registered hboth.1 hboth.2.not_registered

/-- The device is marked as open exactly while a file has it open, and one file
at most. -/
theorem active_iff_open (hc : (outline side rules).Good c) {d : Vdev Chan} {p : Phase}
    (hv : c.shared.heap v = .live d p) :
    (∀ f g, openDevice (c.shared.files f) = some v → openDevice (c.shared.files g) = some v → f = g) ∧
      (d.active = true ↔ ∃ f, openDevice (c.shared.files f) = some v) ∧ ¬ (d.active = true ∧ d.removing = true) := by
  refine ⟨fun f g hf hg => hc.1.files.opened.unique hf hg, ?_, ?_⟩
  · have hheld := hc.1.files.opened.held v
    rw [hv] at hheld
    exact hheld
  · rintro ⟨hactive, hremoving⟩
    have hok := hc.1.shape.ok v
    rw [hv] at hok
    have hmay := hok.2 hactive
    rw [hok.1] at hremoving
    cases p <;> simp [Phase.mayOpen, Phase.isRemoving] at hmay hremoving

/-- A record that is handed back is listed as before, not marked, and the first
of its channel. -/
theorem reopened_of_endRemoval (hc : (outline side rules).Good c) {i : Nat} {k : Unit → Prog (iface Chan) Ret}
    (hi : c.thread i = some (.act (.endRemoval v) k)) {t : State Chan}
    (ht : (machine side rules).exec i (.endRemoval v) c.shared () t) :
    ∃ d, t.heap v = .live d .listed ∧ t.tryOpen v = .ok () ∧ t.walk d.channel = .taken v := by
  obtain ⟨-, rfl⟩ := ht
  obtain ⟨d, hd, hfirst⟩ := (hc.pre hi).ready
  have hinactive := hc.1.not_active hd rfl
  have hheap : (after i c.shared (.endRemoval v) ()).heap = Function.update c.shared.heap v
      (.live { d with removing := false } .listed) := by
    simp only [after_endRemoval]
    rw [onVdev_live hd]
    rfl
  have hself : (after i c.shared (.endRemoval v) ()).heap v = .live { d with removing := false } .listed := by
    rw [hheap, Function.update_self]
  have hlist : (after i c.shared (.endRemoval v) ()).list = c.shared.list := by
    simp only [after_endRemoval]
    rw [onVdev_live hd]
    rfl
  refine ⟨_, hself, ?_, walk_of_first ?_ hself hinactive rfl⟩
  · simp [State.tryOpen, hself, hinactive]
  · refine Kept.first_of_list hlist (fun w _ chan => ?_) hfirst
    by_cases hw : w = v
    · simp [State.hasChannel, hw, hself, hd]
    · simp [State.hasChannel, hheap, Function.update_of_ne hw]

/-- **Open files and teardown exclude each other**, on either side and in every
run.  A device is marked as open exactly while one file, and no other, has it
open, and is never marked as removed at the same time; a record that is about
to be unmapped or freed has no file and no call that works on one, now or at
any later time; and when a call gives up because its hypercall failed, the
device can be opened and the channel be closed again. -/
theorem open_files_exclude_teardown (side : Side Chan) (rules : Rules Chan)
    {c : Config Nat (iface Chan) (State Chan) Ret} (h : (machine side rules).Reachable .init c) :
    (∀ v d p, c.shared.heap v = .live d p →
      (∀ f g, openDevice (c.shared.files f) = some v → openDevice (c.shared.files g) = some v → f = g) ∧
      (d.active = true ↔ ∃ f, openDevice (c.shared.files f) = some v) ∧ ¬ (d.active = true ∧ d.removing = true)) ∧
    (∀ v c', Frees c v → Relation.ReflTransGen (machine side rules).Step c c' → Unused v c') ∧
    ∀ i v k t, c.thread i = some (.act (.endRemoval v) k) → (machine side rules).exec i (.endRemoval v) c.shared () t →
      ∃ d, t.heap v = .live d .listed ∧ t.tryOpen v = .ok () ∧ t.walk d.channel = .taken v := by
  have hc := good_of_reachable h
  refine ⟨fun v d p hv => active_iff_open hc hv, fun v c' hfrees hrun => unused_of_frees hc hfrees hrun, ?_⟩
  intro i v k t hi ht
  exact reopened_of_endRemoval hc hi ht

/-- A channel is published, and the hypervisor does not let it go. -/
theorem open_files_exclude_teardown_retry :
    ∃ c : Config Nat (iface UInt64) (State UInt64) Ret, (machine publisherSide hypervisor).Reachable .init c ∧
      ∃ k t d, c.thread 1 = some (.act (.endRemoval 0) k) ∧
        (machine publisherSide hypervisor).exec 1 (.endRemoval 0) c.shared () t ∧
        t.heap 0 = .live d .listed ∧ t.tryOpen 0 = .ok () ∧ t.walk d.channel = .taken 0 := by
  have hfits (v : Nat) : (⟨1, 1, v, v⟩ : Course).Fits (hypervisor : Rules UInt64) := fits_hypervisor (by simp)
  have hpublished := Course.reachable publisherSide (hfits 0) (i := 0) (.openChannel 7 4096 0) 20 .refl rfl rfl rfl
  have hclosing := Course.reachable publisherSide (hfits 1) (i := 1) (.closeChannel 7) 2 hpublished rfl rfl rfl
  obtain ⟨d, hheap, hopen, hwalk⟩ :=
    (open_files_exclude_teardown publisherSide hypervisor hclosing).2.2 1 0 _ _ rfl ⟨trivial, rfl⟩
  exact ⟨_, hclosing, _, _, d, rfl, ⟨trivial, rfl⟩, hheap, hopen, hwalk⟩

/-! ## channels and mappings -/

/-- Who owns a channel at the hypervisor: a listed record whose channel has not
been withdrawn, or a call in flight that has opened it and has not listed a
record. -/
def OwnsChannel {Chan : Type} (c : Config Nat (iface Chan) (State Chan) Ret) (chan : Chan) : Owner → Prop
  | .call i => (∃ p, c.thread i = some p) ∧ (c.shared.held i).channel = some chan
  | .device v => v ∈ c.shared.list ∧ ∃ d p, c.shared.heap v = .live d p ∧ p.hasKey = true ∧ d.channel = chan

/-- Who owns a mapping: a record that is listed or being taken down, or a call
in flight. -/
def OwnsMapping {Chan : Type} (c : Config Nat (iface Chan) (State Chan) Ret) (m : Nat) : Owner → Prop
  | .call i => (∃ p, c.thread i = some p) ∧ (c.shared.held i).mapping = some m
  | .device v => ∃ d p, c.shared.heap v = .live d p ∧ p.hasMapping = true ∧ d.mappedShmBase = some m

/-- Nothing is left of a call: it owns no channel and no mapping, controls no
record and has no place reserved. -/
structure Clean {Chan : Type} (i : Nat) (s : State Chan) : Prop where
  channel : (s.held i).channel = none
  mapping : (s.held i).mapping = none
  vdev : ∀ v, (s.heap v).thread ≠ some i
  place : i ∉ s.reserved

/-- The list is all there is: the open channels are those of the listed
records, each of one of them, the mappings are theirs, and no other record is
allocated. -/
structure Settled {Chan : Type} (s : State Chan) : Prop where
  listed : ∀ v, (s.heap v).isLive = true ↔ v ∈ s.list
  flags : ∀ v d p, s.heap v = .live d p → d.removing = false
  channels : ∀ chan, chan ∈ s.keys ↔ ∃ v d p, s.heap v = .live d p ∧ d.channel = chan
  distinct : ∀ v w d e p q, s.heap v = .live d p → s.heap w = .live e q → d.channel = e.channel → v = w
  mappings : ∀ m, m ∈ s.mapped ↔ ∃ v d p, s.heap v = .live d p ∧ d.mappedShmBase = some m
  count : s.count = s.list.length

/-- The registry, the hypervisor and the mappings agree. -/
structure Agrees {Chan : Type} (c : Config Nat (iface Chan) (State Chan) Ret) : Prop where
  channels : ∀ chan, (chan ∈ c.shared.keys → ∃! o, OwnsChannel c chan o) ∧
    ((∃ o, OwnsChannel c chan o) → chan ∈ c.shared.keys)
  listed : ∀ v w d e p q, v ∈ c.shared.list → w ∈ c.shared.list → c.shared.heap v = .live d p →
    c.shared.heap w = .live e q → d.removing = false → e.removing = false → d.channel = e.channel → v = w
  mappings : ∀ m, (m ∈ c.shared.mapped → ∃! o, OwnsMapping c m o) ∧
    ((∃ o, OwnsMapping c m o) → m ∈ c.shared.mapped)
  failed : ∀ i e, c.thread i = some (.ret (.opened (.error e))) ∨ c.thread i = some (.ret (.closed (.error e))) →
    Clean i c.shared
  settled : (∀ i, c.thread i = none) → Settled c.shared

/-- What the books say of a channel. -/
theorem ownsChannel_iff (hc : (outline side rules).Good c) (chan : Chan) (o : Owner) :
    OwnsChannel c chan o ↔ c.shared.keyOwner o = some chan := by
  cases o with
  | call i =>
      refine ⟨fun h => h.2, fun h => ⟨?_, h⟩⟩
      cases hi : c.thread i with
      | none =>
          have hidle := ((hc.2 i).1 hi).channel
          rw [State.keyOwner, hidle] at h
          cases h
      | some p => exact ⟨p, rfl⟩
  | device w =>
      constructor
      · rintro ⟨-, d, p, hv, hp, rfl⟩
        simp [State.keyOwner, hv, Cell.key, hp]
      · intro h
        cases hv : c.shared.heap w with
        | live d p =>
            rw [State.keyOwner, hv, Cell.key] at h
            split at h
            · next hp =>
              refine ⟨?_, d, p, hv, hp, Option.some.inj h⟩
              rw [hc.1.shape.listed, hv]
              cases p <;> first | rfl | cases hp
            · cases h
        | unused | freed =>
            rw [State.keyOwner, hv] at h
            cases h

/-- What the books say of a mapping. -/
theorem ownsMapping_iff (hc : (outline side rules).Good c) (m : Nat) (o : Owner) :
    OwnsMapping c m o ↔ c.shared.mapOwner o = some m := by
  cases o with
  | call i =>
      refine ⟨fun h => h.2, fun h => ⟨?_, h⟩⟩
      cases hi : c.thread i with
      | none =>
          have hidle := ((hc.2 i).1 hi).mapping
          rw [State.mapOwner, hidle] at h
          cases h
      | some p => exact ⟨p, rfl⟩
  | device w =>
      constructor
      · rintro ⟨d, p, hv, hp, hm⟩
        simp [State.mapOwner, hv, Cell.mapping, hp, hm]
      · intro h
        cases hv : c.shared.heap w with
        | live d p =>
            rw [State.mapOwner, hv, Cell.mapping] at h
            split at h
            · next hp => exact ⟨d, p, hv, hp, h⟩
            · cases h
        | unused | freed =>
            rw [State.mapOwner, hv] at h
            cases h

/-- A call that holds nothing has left nothing behind. -/
theorem Holds.clean {Chan : Type} {i : Nat} {s : State Chan} (hh : Holds i none none none false s) (hs : Shape s) : Clean i s where
  channel := hh.channel
  mapping := hh.mapping
  vdev v hv := by
    have howner := hs.owner v i hv
    rw [hh.vdev] at howner
    cases howner
  place hmem := by simpa using hh.reserved.mp hmem

/-- Between calls every record is on the list. -/
theorem settled_of_idle (hc : (outline side rules).Good c) (hon : rules.Honest) (hidle : ∀ i, c.thread i = none) :
    Settled c.shared := by
  have hclean (i : Nat) : Clean i c.shared := ((hc.2 i).1 (hidle i)).clean hc.1.shape
  have hlisted {v : Nat} {d : Vdev Chan} {p : Phase} (hv : c.shared.heap v = .live d p) : p = .listed := by
    cases hp : p.thread with
    | none => cases p <;> first | rfl | cases hp
    | some i => exact absurd (by rw [hv]; exact hp) ((hclean i).vdev v)
  have hkey {v : Nat} {d : Vdev Chan} {p : Phase} (hv : c.shared.heap v = .live d p) :
      c.shared.keyOwner (.device v) = some d.channel := by
    simp [State.keyOwner, hv, hlisted hv, Cell.key, Phase.hasKey]
  refine ⟨fun v => ⟨fun hlive => ?_, hc.1.live_of_listed⟩, fun v d p hv => ?_, fun chan => ?_, ?_, fun m => ?_, ?_⟩
  · cases hv : c.shared.heap v with
    | live d p =>
        rw [hc.1.shape.listed, hv, hlisted hv]
        rfl
    | unused | freed =>
        rw [hv] at hlive
        cases hlive
  · have hok := hc.1.shape.ok v
    rw [hv, hlisted hv] at hok
    exact hok.1
  · rw [(hc.1.keys hon).held chan]
    constructor
    · rintro ⟨o, ho⟩
      cases o with
      | call i =>
          rw [State.keyOwner, (hclean i).channel] at ho
          cases ho
      | device v =>
          obtain ⟨-, d, p, hv, -, hchan⟩ := (ownsChannel_iff hc chan (.device v)).mpr ho
          exact ⟨v, d, p, hv, hchan⟩
    · rintro ⟨v, d, p, hv, rfl⟩
      exact ⟨.device v, hkey hv⟩
  · intro v w d e p q hv hw hchan
    have hsame := (hc.1.keys hon).unique (hkey hv) (hchan ▸ hkey hw)
    exact Owner.device.inj hsame
  · rw [hc.1.mappings.held m]
    constructor
    · rintro ⟨o, ho⟩
      cases o with
      | call i =>
          rw [State.mapOwner, (hclean i).mapping] at ho
          cases ho
      | device v =>
          obtain ⟨d, p, hv, -, hm⟩ := (ownsMapping_iff hc m (.device v)).mpr ho
          exact ⟨v, d, p, hv, hm⟩
    · rintro ⟨v, d, p, hv, hm⟩
      exact ⟨.device v, by simp [State.mapOwner, hv, hlisted hv, Cell.mapping, Phase.hasMapping, hm]⟩
  · have hnone : c.shared.reserved = ∅ := Finset.eq_empty_of_forall_notMem fun i => (hclean i).place
    rw [hc.1.counts.count, hnone]
    simp

/-- The books are in balance when verdicts are read as they are meant. -/
theorem agrees_of_good (hc : (outline side rules).Good c) (hon : rules.Honest) : Agrees c where
  channels chan := by
    have howns := ownsChannel_iff hc chan
    refine ⟨fun hmem => ?_, fun howner => ?_⟩
    · exact (existsUnique_congr howns).mpr ((hc.1.keys hon).existsUnique hmem)
    · obtain ⟨o, ho⟩ := howner
      exact (hc.1.keys hon).mem ((howns o).mp ho)
  listed v w d e p q hv hw hd he hdr her hchan := by
    have hkey {v : Nat} {d : Vdev Chan} {p : Phase} (hv : v ∈ c.shared.list) (hd : c.shared.heap v = .live d p)
        (hdr : d.removing = false) : c.shared.keyOwner (.device v) = some d.channel := by
      have hon := (hc.1.shape.listed v).mp hv
      have hok := hc.1.shape.ok v
      rw [hd] at hon hok
      have hp : p = .listed := Phase.eq_listed hon (hok.1.symm.trans hdr)
      simp [State.keyOwner, hd, hp, Cell.key, Phase.hasKey]
    have hsame := (hc.1.keys hon).unique (hkey hv hd hdr) (hchan ▸ hkey hw he her)
    exact Owner.device.inj hsame
  mappings m := by
    have howns := ownsMapping_iff hc m
    refine ⟨fun hmem => ?_, fun howner => ?_⟩
    · exact (existsUnique_congr howns).mpr (hc.1.mappings.existsUnique hmem)
    · obtain ⟨o, ho⟩ := howner
      exact hc.1.mappings.mem ((howns o).mp ho)
  failed i e hi := by
    obtain hi | hi := hi
    · exact (hc.post hi).1.clean hc.1.shape
    · exact Holds.clean (hc.post hi) hc.1.shape
  settled := settled_of_idle hc hon

/-- A verdict whose failure shows in its low half. -/
def Legible (verdict : UInt64) : Prop := verdict ≠ 0 → verdict.toUInt32 ≠ 0

/-- A hypervisor that answers legible verdicts only. -/
def Rules.legible {Chan : Type} (rules : Rules Chan) : Rules Chan :=
  { rules with
    opens := fun K chan verdict => rules.opens K chan verdict ∧ Legible verdict
    closes := fun K chan verdict => rules.closes K chan verdict ∧ Legible verdict }

theorem hvcFailed_iff {verdict : UInt64} (h : Legible verdict) : hvcFailed verdict = true ↔ verdict ≠ 0 := by
  refine ⟨fun hfail hzero => ?_, fun hne => decide_eq_true (h hne)⟩
  rw [hzero] at hfail
  cases hfail

theorem honest_legible {Chan : Type} : (hypervisor : Rules Chan).legible.Honest where
  opens _ _ _ h := ⟨hvcFailed_iff h.2, h.1⟩
  closes _ _ _ h := hvcFailed_iff h.2
  rollsBack _ _ _ h := h

/-- **The registry, the hypervisor and the mappings agree** in every run in
which the hypervisor's failures are legible: every open channel and every
mapping has one owner, no two listed records that are not being removed are of
one channel, a failed call leaves nothing behind, and between calls the list is
all there is. -/
theorem registry_agrees (side : Side Chan) {c : Config Nat (iface Chan) (State Chan) Ret}
    (h : (machine side (hypervisor : Rules Chan).legible).Reachable .init c) : Agrees c :=
  agrees_of_good (good_of_reachable h) honest_legible

/-- Key `7` is published, and published again while it is open. -/
theorem registry_agrees_published_twice :
    ∃ c : Config Nat (iface UInt64) (State UInt64) Ret,
      (machine publisherSide (hypervisor : Rules UInt64).legible).Reachable .init c ∧ c.shared.list = [0] ∧
      (∃ p, c.thread 1 = some p) ∧ Agrees c := by
  have hfits (v : Nat) : (⟨1, 1, v, v⟩ : Course).Fits (hypervisor : Rules UInt64).legible :=
    { opens := fun K chan => by
        by_cases hmem : chan ∈ K
        · rw [if_pos hmem]
          exact ⟨fun hzero => by simp at hzero, by simp [Legible]⟩
        · rw [if_neg hmem]
          exact ⟨fun _ => hmem, by simp [Legible]⟩
      closes := fun _ _ => ⟨trivial, by simp [Legible]⟩
      rollsBack := fun _ _ => rfl }
  have hpublished := Course.reachable publisherSide (hfits 0) (i := 0) (.openChannel 7 4096 0) 20 .refl rfl rfl rfl
  have hagain := Course.reachable publisherSide (hfits 1) (i := 1) (.openChannel 7 4096 0) 20 hpublished rfl rfl rfl
  exact ⟨_, hagain, rfl, ⟨_, rfl⟩, registry_agrees publisherSide hagain⟩

/-- The hypervisor refuses key `7`, which is open, with the verdict `2 ^ 32`,
and the driver takes the refusal for a success: two records of one key. -/
theorem truncated_refusal : ¬ ∀ c : Config Nat (iface UInt64) (State UInt64) Ret,
    (machine publisherSide hypervisor).Reachable .init c → Agrees c := by
  intro h
  have hfits (v : Nat) : (⟨2 ^ 32, 1, v, v⟩ : Course).Fits (hypervisor : Rules UInt64) :=
    fits_hypervisor (show (2 ^ 32 : UInt64) ≠ 0 by decide)
  have hpublished := Course.reachable publisherSide (hfits 0) (i := 0) (.openChannel 7 4096 0) 20 .refl rfl rfl rfl
  have hagain := Course.reachable publisherSide (hfits 1) (i := 1) (.openChannel 7 4096 0) 20 hpublished rfl rfl rfl
  have hdistinct (c : Config Nat (iface UInt64) (State UInt64) Ret) (hc : Agrees c) (hlist : c.shared.list = [0, 1])
      (hfirst : ∃ d, c.shared.heap 0 = .live d .listed ∧ d.removing = false ∧ d.channel = 7)
      (hsecond : ∃ d, c.shared.heap 1 = .live d .listed ∧ d.removing = false ∧ d.channel = 7) : False := by
    obtain ⟨d, hd, hdr, hdc⟩ := hfirst
    obtain ⟨e, he, her, hec⟩ := hsecond
    have hsame := hc.listed 0 1 d e _ _ (by simp [hlist]) (by simp [hlist]) hd he hdr her (hdc.trans hec.symm)
    cases hsame
  exact hdistinct _ (h _ hagain) rfl ⟨_, rfl, rfl, rfl⟩ ⟨_, rfl, rfl, rfl⟩

/-! ## records -/

/-- Every step works on allocated records, and a call that has opened a channel
returns the name of the device it has registered. -/
structure RecordSafe {Chan : Type} (c : Config Nat (iface Chan) (State Chan) Ret) : Prop where
  allocated : ∀ i o k, c.thread i = some (.act o k) → ∀ v ∈ o.touches c.shared, (c.shared.heap v).isLive = true
  name : ∀ i name, c.thread i = some (.ret (.opened (.ok name))) →
    name = snprintf ("/dev/" ++ (c.shared.held i).registered)

/-- A record is not freed while the call that has listed it has still to copy
its name. -/
def Rules.patient {Chan : Type} (rules : Rules Chan) : Rules Chan :=
  { rules with frees := fun s v => rules.frees s v ∧ ∀ j, (s.held j).naming ≠ some v }

/-- One side, with any hypervisor. -/
theorem recordSafe_of_reachable (h : (machine side rules.patient).Reachable .init c) : RecordSafe c where
  allocated _ _ _ hi v hv := ((good_of_reachable h).pre hi).live v hv fun _ _ => fun _ _ hfrees => hfrees.2
  name _ name hi := ((good_of_reachable h).post hi).2 name rfl fun _ _ hfrees => hfrees.2

/-- **No step touches a record that has been freed**, on either side and with
any answers of the hypervisor, in every run in which no record is freed between
its listing and the copy of its name. -/
theorem records_allocated (publisher : Rules UInt64) (subscriber : Rules (UInt64 × UInt64))
    {p : Config Nat (iface UInt64) (State UInt64) Ret ×
      Config Nat (iface (UInt64 × UInt64)) (State (UInt64 × UInt64)) Ret}
    (h : Relation.ReflTransGen (Machine.Beside (machine publisherSide publisher.patient)
      (machine subscriberSide subscriber.patient)) (Machine.quiet .init, Machine.quiet .init) p) :
    RecordSafe p.1 ∧ RecordSafe p.2 := by
  obtain ⟨hleft, hright⟩ := Machine.Beside.reachable h
  exact ⟨recordSafe_of_reachable hleft, recordSafe_of_reachable hright⟩

/-- Key `7` is published; the name is next to be copied. -/
theorem records_allocated_published :
    ∃ p : Config Nat (iface UInt64) (State UInt64) Ret ×
        Config Nat (iface (UInt64 × UInt64)) (State (UInt64 × UInt64)) Ret,
      (∃ k, p.1.thread 0 = some (.act (.loadName 0) k)) ∧ (p.1.shared.heap 0).isLive = true ∧ RecordSafe p.2 := by
  have hfits : (⟨1, 0, 0, 0⟩ : Course).Fits (hypervisor : Rules UInt64).patient :=
    { opens := (fits_hypervisor (x := ⟨1, 0, 0, 0⟩) (by simp)).opens
      closes := fun _ _ => trivial
      rollsBack := fun _ _ => rfl }
  have hpublished := Course.reachable publisherSide hfits (i := 0) (.openChannel 7 4096 0) 19 .refl rfl rfl rfl
  have hsafe := records_allocated hypervisor hypervisor (Machine.Beside.of_left hpublished)
  exact ⟨_, ⟨_, rfl⟩, hsafe.1.allocated 0 _ _ rfl 0 (by simp [Op.touches]), hsafe.2⟩

/-- Key `7` is published and, before its name is copied, unpublished by another
call: the name is read from memory that has been freed. -/
theorem freed_before_copied : ¬ ∀ p : Config Nat (iface UInt64) (State UInt64) Ret ×
      Config Nat (iface (UInt64 × UInt64)) (State (UInt64 × UInt64)) Ret,
    Relation.ReflTransGen (Machine.Beside (machine publisherSide hypervisor) (machine subscriberSide hypervisor))
      (Machine.quiet .init, Machine.quiet .init) p → RecordSafe p.1 ∧ RecordSafe p.2 := by
  intro h
  have hfits : (⟨1, 0, 0, 0⟩ : Course).Fits (hypervisor : Rules UInt64) := fits_hypervisor (by simp)
  have hpublished := Course.reachable publisherSide hfits (i := 0) (.openChannel 7 4096 0) 19 .refl rfl rfl rfl
  have hwithdrawn := Course.reachable publisherSide hfits (i := 1) (.closeChannel 7) 2 hpublished rfl rfl rfl
  -- no file has been opened
  have hderegistered := hwithdrawn.act 1 () rfl ⟨fun f file hf => (by cases hf), rfl⟩
  have hunmapped := hderegistered.advance_of (Course.exec_perform publisherSide hfits 1) 3 rfl
  have hfreed := hunmapped.act 1 () rfl ⟨trivial, rfl⟩
  have hsafe := (h _ (Machine.Beside.of_left hfreed)).1
  have hlive := hsafe.allocated 0 _ _ rfl 0 (by simp [Op.touches])
  cases hlive

end Registry

end Axivc
