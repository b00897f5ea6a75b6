import Axivc.RegistryRuns

/-!
# Axivc.RegistryUnload

Loading and unloading the module: `main.c`, `init_ivc_devices` and
`uninit_ivc_devices`.

A module with open files is not unloaded, and every call of the driver but the
module's own runs on an open file.  So `uninit_ivc_devices` runs alone, on a
registry that some run has left behind with no call running and no file open.
It walks both lists with `list_for_each_entry_safe`, takes down each device
without a lock, and ignores what the hypervisor answers.

Every step is checked as it is taken (`UnloadOp.sound`): it works on a record
that is allocated, and gives back what is there to be given back.
-/

namespace Axivc

namespace Registry

open Prog Rely

/-! ## one side -/

/-- The steps of `uninit_ivc_devices` on one side. -/
inductive UnloadOp (Chan : Type) where
  /-- `list_next_entry`; `none` is the head of the list -/
  | listNextEntry (entry : Option Nat)
  | loadChannel (v : Nat)
  | hvcClose (chan : Chan)
  | miscDeregister (v : Nat)
  | listDel (v : Nat)
  | loadMapped (v : Nat)
  | memunmap (m : Option Nat)
  | kfree (v : Nat)

@[reducible] def unloadIface (Chan : Type) : Iface where
  Op := UnloadOp Chan
  Res
    | .listNextEntry _ | .loadMapped _ => Option Nat
    | .loadChannel _ => Chan
    | .hvcClose _ => UInt64
    | _ => Unit

abbrev unloadCall {Chan : Type} (o : UnloadOp Chan) : Prog (unloadIface Chan) ((unloadIface Chan).Res o) :=
  op (I := unloadIface Chan) o

section Programs

variable {Chan : Type}

/-- The body of the loops of `uninit_ivc_devices`. -/
def removeVdev (v : Nat) : Prog (unloadIface Chan) Unit := do
  let chan : Chan ← unloadCall (.loadChannel v)
  let _verdict : UInt64 ← unloadCall (.hvcClose chan)
  unloadCall (.miscDeregister v)
  unloadCall (.listDel v)
  let m : Option Nat ← unloadCall (.loadMapped v)
  unloadCall (.memunmap m)
  unloadCall (.kfree v)

/-- `list_for_each_entry_safe` from `pos` on; `next` has been read before the
body runs. -/
def removeFrom (pos next : Option Nat) : Nat → Prog (unloadIface Chan) Unit
  | 0 => .spin
  | iterations + 1 =>
      match pos with
      | none => pure ()
      | some v => do
          removeVdev v
          let after : Option Nat ← unloadCall (.listNextEntry next)
          removeFrom next after iterations

/-- A loop of `uninit_ivc_devices`. -/
def removeVdevs (iterations : Nat) : Prog (unloadIface Chan) Unit := do
  let pos : Option Nat ← unloadCall (.listNextEntry none)
  let next : Option Nat ← unloadCall (.listNextEntry pos)
  removeFrom pos next iterations

end Programs

section Semantics

variable {Chan : Type} [DecidableEq Chan] [Inhabited Chan]

/-- A side while it is taken down: the hypercalls made, and whether every step
so far was sound. -/
structure Unload (Chan : Type) where
  state : State Chan
  calls : Nat
  sound : Bool

/-- The entry after another one. -/
def State.nextEntry (s : State Chan) : Option Nat → Option Nat
  | none => s.list.head?
  | some v => (s.list.drop (s.list.idxOf v + 1)).head?

/-- The step works on an allocated record, and what it gives back is there: a
registered device, a listed record, a mapping, a record that nothing refers to. -/
def UnloadOp.sound (s : State Chan) : UnloadOp Chan → Bool
  | .listNextEntry none | .hvcClose _ => true
  | .listNextEntry (some v) | .listDel v => (s.heap v).isLive && v ∈ s.list
  | .loadChannel v | .loadMapped v => (s.heap v).isLive
  | .miscDeregister v => (s.heap v).isRegistered && !(s.heap v).isActive
  | .memunmap m => m.all (· ∈ s.mapped)
  | .kfree v => (s.heap v).isLive && v ∉ s.list && !(s.heap v).isRegistered && !(s.heap v).isActive

/-- The answer to a step and the state after it; the `n`th verdict is `verdicts n`. -/
def unloadStep (verdicts : Nat → UInt64) :
    (o : UnloadOp Chan) → Unload Chan → (unloadIface Chan).Res o × Unload Chan
  | .listNextEntry entry, u =>
      (u.state.nextEntry entry, { u with sound := u.sound && (UnloadOp.listNextEntry entry).sound u.state })
  | .loadChannel v, u =>
      ((match u.state.heap v with | .live d _ => d.channel | _ => default),
        { u with sound := u.sound && (UnloadOp.loadChannel v).sound u.state })
  | .hvcClose chan, u =>
      (verdicts u.calls,
        { u with
          state := { u.state with keys := if verdicts u.calls = 0 then u.state.keys.erase chan else u.state.keys }
          calls := u.calls + 1 })
  | .miscDeregister v, u =>
      ((), { u with
        state := u.state.onVdev v id fun _ => .deregistered 0
        sound := u.sound && (UnloadOp.miscDeregister v).sound u.state })
  | .listDel v, u =>
      ((), { u with
        state := { u.state with list := u.state.list.erase v }.onVdev v id fun _ => .unlisted 0
        sound := u.sound && (UnloadOp.listDel v).sound u.state })
  | .loadMapped v, u =>
      ((match u.state.heap v with | .live d _ => d.mappedShmBase | _ => none),
        { u with sound := u.sound && (UnloadOp.loadMapped v).sound u.state })
  | .memunmap m, u =>
      ((), { u with
        state := { u.state with mapped := u.state.mapped.filter fun n => m ≠ some n }
        sound := u.sound && (UnloadOp.memunmap m).sound u.state })
  | .kfree v, u =>
      ((), { u with
        state := { u.state with heap := Function.update u.state.heap v .freed }
        sound := u.sound && (UnloadOp.kfree v).sound u.state })

end Semantics

/-! ## a side at rest -/

section Resting

variable {Chan : Type}

/-- The list is all there is, no device on it is open, and every mapping is of
one record. -/
structure Resting (s : State Chan) : Prop where
  nodup : s.list.Nodup
  live : ∀ v, (s.heap v).isLive = true ↔ v ∈ s.list
  record : ∀ v d p, s.heap v = .live d p → p = .listed ∧ d.active = false
  mappings : Ledger (fun v => (s.heap v).mapping) (· ∈ s.mapped)

/-- Between calls and with all files closed a side is at rest. -/
theorem resting_of_idle [DecidableEq Chan] [Inhabited Chan] {side : Side Chan} {rules : Rules Chan} {c : Config Nat (iface Chan) (State Chan) Ret}
    (hc : (outline side rules).Good c) (hidle : ∀ i, c.thread i = none) (hclosed : ∀ f, c.shared.files f = none) :
    Resting c.shared := by
  have hclean (i : Nat) : Clean i c.shared := ((hc.2 i).1 (hidle i)).clean hc.1.shape
  have hlisted {v : Nat} {d : Vdev Chan} {p : Phase} (hv : c.shared.heap v = .live d p) : p = .listed := by
    cases hp : p.thread with
    | none => cases p <;> first | rfl | cases hp
    | some i => exact absurd (by rw [hv]; exact hp) ((hclean i).vdev v)
  refine ⟨hc.1.shape.nodup, fun v => ⟨fun hlive => ?_, hc.1.live_of_listed⟩, fun v d p hv => ⟨hlisted hv, ?_⟩, ?_⟩
  · cases hv : c.shared.heap v with
    | live d p =>
        rw [hc.1.shape.listed, hv, hlisted hv]
        rfl
    | unused | freed =>
        rw [hv] at hlive
        cases hlive
  · rw [Bool.eq_false_iff]
    intro hactive
    obtain ⟨f, hf⟩ := ((active_iff_open hc hv).2.1).mp hactive
    rw [hclosed] at hf
    cases hf
  · constructor
    · intro m
      rw [hc.1.mappings.held m]
      constructor
      · rintro ⟨o, ho⟩
        cases o with
        | call i =>
            rw [State.mapOwner, (hclean i).mapping] at ho
            cases ho
        | device v => exact ⟨v, ho⟩
      · rintro ⟨v, hv⟩
        exact ⟨.device v, hv⟩
    · intro v w m hv hw
      have hsame : Owner.device v = .device w := hc.1.mappings.unique hv hw
      exact Owner.device.inj hsame

theorem Resting.exists_record {s : State Chan} {v : Nat} (h : Resting s) (hv : v ∈ s.list) :
    ∃ d, s.heap v = .live d .listed ∧ d.active = false := by
  have hlive := (h.live v).mpr hv
  cases hd : s.heap v with
  | live d p =>
      obtain ⟨rfl, hactive⟩ := h.record v d p hd
      exact ⟨d, rfl, hactive⟩
  | unused | freed =>
      rw [hd] at hlive
      cases hlive

variable [DecidableEq Chan]

/-- A side without the record `v`. -/
def State.without (s : State Chan) (v : Nat) (verdict : UInt64) : State Chan :=
  { s with
    keys := if verdict = 0 then s.keys.filter fun chan => (s.heap v).channel ≠ some chan else s.keys
    list := s.list.erase v
    mapped := s.mapped.filter fun m => (s.heap v).mapping ≠ some m
    heap := Function.update s.heap v .freed }

@[simp] theorem State.without_heap_self (s : State Chan) (v : Nat) (verdict : UInt64) :
    (s.without v verdict).heap v = .freed := Function.update_self ..

theorem State.without_heap_of_ne (s : State Chan) {v w : Nat} (verdict : UInt64) (h : w ≠ v) :
    (s.without v verdict).heap w = s.heap w := Function.update_of_ne h ..

variable {s : State Chan}

/-- A side stays at rest when a record is taken down. -/
theorem Resting.without (h : Resting s) (v : Nat) (verdict : UInt64) : Resting (s.without v verdict) where
  nodup := h.nodup.erase v
  live w := by
    by_cases hw : w = v
    · rw [hw, State.without_heap_self]
      refine ⟨fun hlive => ?_, fun hmem => absurd hmem h.nodup.not_mem_erase⟩
      cases hlive
    · rw [State.without_heap_of_ne s verdict hw, h.live w]
      exact (List.mem_erase_of_ne hw).symm
  record w d p hd := by
    by_cases hw : w = v
    · rw [hw, State.without_heap_self] at hd
      cases hd
    · rw [State.without_heap_of_ne s verdict hw] at hd
      exact h.record w d p hd
  mappings := by
    have hrest (w : Nat) (hw : w ≠ v) : ((s.without v verdict).heap w).mapping = (s.heap w).mapping := by
      rw [State.without_heap_of_ne s verdict hw]
    have hnone : ((s.without v verdict).heap v).mapping = none := by
      rw [State.without_heap_self]
      rfl
    cases hm : (s.heap v).mapping with
    | none =>
        refine h.mappings.congr (fun w => ?_) fun n => by simp [State.without, hm]
        by_cases hw : w = v
        · rw [hw, hnone, hm]
        · exact hrest w hw
    | some m =>
        refine h.mappings.release hm hnone hrest fun n => ?_
        simp only [State.without, hm, Finset.mem_filter]
        exact ⟨fun hn => ⟨fun heq => hn.2 (heq ▸ rfl), hn.1⟩, fun hn => ⟨hn.2, fun heq => hn.1 (Option.some.inj heq).symm⟩⟩

end Resting

/-! ## taking a side down -/

section Loop

variable {Chan : Type} {verdicts : Nat → UInt64} {s t : State Chan}

/-- What is left of a side `s` when `n` hypercalls had been made before: no
record, no mapping, and the channels whose withdrawal was refused. -/
structure TakenDown (verdicts : Nat → UInt64) (n : Nat) (s t : State Chan) : Prop where
  list : t.list = []
  mapped : t.mapped = ∅
  heap : ∀ v, t.heap v = if (s.heap v).isLive then .freed else s.heap v
  keys : ∀ chan, chan ∈ t.keys ↔ chan ∈ s.keys ∧
    ∀ k v, s.list[k]? = some v → (s.heap v).channel = some chan → verdicts (n + k) ≠ 0

theorem Resting.not_live (h : Resting s) (hlist : s.list = []) (v : Nat) : ¬ (s.heap v).isLive = true := by
  rw [h.live v, hlist]
  exact List.not_mem_nil

/-- A side at rest with an empty list is taken down. -/
theorem Resting.takenDown_nil (h : Resting s) (hlist : s.list = []) (n : Nat) : TakenDown verdicts n s s where
  list := hlist
  mapped := by
    refine Finset.eq_empty_of_forall_notMem fun m hm => ?_
    obtain ⟨v, hv⟩ := (h.mappings.held m).mp hm
    cases hd : s.heap v with
    | live d p => exact h.not_live hlist v (by rw [hd]; rfl)
    | unused | freed =>
        simp only [hd] at hv
        cases hv
  heap v := (if_neg (h.not_live hlist v)).symm
  keys chan := by simp [hlist]

variable [DecidableEq Chan]

theorem State.without_list {v : Nat} {rest : List Nat} (hlist : s.list = v :: rest) (verdict : UInt64) :
    (s.without v verdict).list = rest := by
  rw [State.without, hlist]
  exact List.erase_cons_head ..

/-- Take down the first record, then the others. -/
theorem Resting.takenDown_cons (h : Resting s) {v : Nat} {rest : List Nat} (hlist : s.list = v :: rest) {n : Nat}
    (ht : TakenDown verdicts (n + 1) (s.without v (verdicts n)) t) : TakenDown verdicts n s t where
  list := ht.list
  mapped := ht.mapped
  heap w := by
    rw [ht.heap w]
    by_cases hw : w = v
    · have hlive : (s.heap v).isLive = true := (h.live v).mpr (by rw [hlist]; exact List.mem_cons_self)
      rw [hw, State.without_heap_self, if_pos hlive]
      rfl
    · rw [State.without_heap_of_ne s _ hw]
  keys chan := by
    have hnodup : v ∉ rest := (List.nodup_cons.mp (hlist ▸ h.nodup)).1
    -- the later records are those of `s`
    have hrest : (∀ k w, (s.without v (verdicts n)).list[k]? = some w →
        ((s.without v (verdicts n)).heap w).channel = some chan → verdicts (n + 1 + k) ≠ 0) ↔
        ∀ k w, rest[k]? = some w → (s.heap w).channel = some chan → verdicts (n + (k + 1)) ≠ 0 := by
      rw [State.without_list hlist]
      refine forall_congr' fun k => forall_congr' fun w => forall_congr' fun hw => ?_
      have hne : w ≠ v := fun heq => hnodup (heq ▸ List.mem_of_getElem? hw)
      rw [State.without_heap_of_ne s _ hne, Nat.add_right_comm n 1 k, Nat.add_assoc]
    rw [ht.keys chan, hrest, hlist]
    have hsplit : (∀ k w, (v :: rest)[k]? = some w → (s.heap w).channel = some chan → verdicts (n + k) ≠ 0) ↔
        ((s.heap v).channel = some chan → verdicts n ≠ 0) ∧
          ∀ k w, rest[k]? = some w → (s.heap w).channel = some chan → verdicts (n + (k + 1)) ≠ 0 := by
      constructor
      · intro hall
        exact ⟨hall 0 v rfl, fun k w hw => hall (k + 1) w hw⟩
      · rintro ⟨hfirst, hothers⟩ k w hw
        cases k with
        | zero =>
            cases hw
            exact hfirst
        | succ k => exact hothers k w hw
    rw [hsplit, ← and_assoc]
    refine and_congr_left fun _ => ?_
    simp only [State.without]
    split
    · next hzero =>
      rw [Finset.mem_filter]
      exact and_congr_right fun _ => ⟨fun hne heq => absurd heq hne, fun himp heq => himp heq hzero⟩
    · next hne => exact ⟨fun hmem => ⟨hmem, fun _ => hne⟩, fun hmem => hmem.1⟩

variable [Inhabited Chan] (verdicts)

/-- One turn of the loop, on a side at rest: every step is sound, and the
record is gone. -/
theorem run_removeVdev (h : Resting s) {v : Nat} (hv : v ∈ s.list) (n : Nat) :
    (removeVdev v).run (unloadStep verdicts) ⟨s, n, true⟩ = some ((), ⟨s.without v (verdicts n), n + 1, true⟩) := by
  obtain ⟨d, hd, hactive⟩ := h.exists_record hv
  have hmapped : d.mappedShmBase.all (· ∈ s.mapped) = true := by
    cases hm : d.mappedShmBase with
    | none => rfl
    | some m =>
        refine decide_eq_true (h.mappings.mem (o := v) ?_)
        rw [hd, ← hm]
        rfl
  have hkeys : s.keys.erase d.channel = {chan ∈ s.keys | ¬ d.channel = chan} := (Finset.filter_ne s.keys d.channel).symm
  simp [removeVdev, unloadStep, UnloadOp.sound, State.onVdev, hd, Cell.isLive, Cell.isRegistered, Cell.isActive, hactive, hv,
    Phase.isRegistered, h.nodup.not_mem_erase, hmapped, State.without, Cell.channel, Cell.mapping, Phase.hasMapping, hkeys]

/-- The entry after the first one is read while the first one is listed. -/
theorem unloadStep_listNextEntry (h : Resting s) (n : Nat) :
    unloadStep verdicts (.listNextEntry s.list.head?) ⟨s, n, true⟩ = (s.list.tail.head?, ⟨s, n, true⟩) := by
  cases hlist : s.list with
  | nil => simp [unloadStep, UnloadOp.sound, State.nextEntry, hlist]
  | cons v rest =>
      have hlive := (h.live v).mpr (by rw [hlist]; exact List.mem_cons_self)
      simp [unloadStep, UnloadOp.sound, State.nextEntry, hlist, hlive]

/-- The loop over a side at rest ends, every step of it is sound, and nothing is
left but the channels whose withdrawal was refused. -/
theorem run_removeFrom (iterations : Nat) (h : Resting s) (n : Nat) (hiterations : s.list.length < iterations) :
    ∃ t, (removeFrom s.list.head? s.list.tail.head? iterations).run (unloadStep verdicts) ⟨s, n, true⟩ =
      some ((), ⟨t, n + s.list.length, true⟩) ∧ TakenDown verdicts n s t := by
  induction iterations generalizing s n with
  | zero => exact absurd hiterations (Nat.not_lt_zero _)
  | succ iterations ih =>
      cases hlist : s.list with
      | nil => exact ⟨s, rfl, h.takenDown_nil hlist n⟩
      | cons v rest =>
          have hv : v ∈ s.list := by
            rw [hlist]
            exact List.mem_cons_self
          have hrest := h.without v (verdicts n)
          have herase := State.without_list hlist (verdicts n)
          rw [hlist] at hiterations
          obtain ⟨t, hrun, ht⟩ := ih hrest (n + 1) (by rw [herase]; simpa using hiterations)
          refine ⟨t, ?_, h.takenDown_cons hlist ht⟩
          -- the entry after the next one is read when `v` is gone
          have hnext := unloadStep_listNextEntry verdicts hrest (n + 1)
          rw [herase] at hnext
          change ((removeVdev v >>= fun _ => _).run _ _) = _
          rw [run_bind, run_removeVdev verdicts h hv, Option.bind_some]
          change (removeFrom _ (unloadStep verdicts (.listNextEntry rest.head?) _).1 iterations).run _
            (unloadStep verdicts (.listNextEntry rest.head?) _).2 = _
          rw [hnext]
          rw [herase] at hrun
          rw [List.tail_cons, hrun, List.length_cons, Nat.add_right_comm n 1, Nat.add_assoc]

/-- A loop of `uninit_ivc_devices`, with more turns than there are records. -/
theorem run_removeVdevs {iterations : Nat} (h : Resting s) (hiterations : s.list.length < iterations) :
    ∃ t, (removeVdevs iterations).run (unloadStep verdicts) ⟨s, 0, true⟩ = some ((), ⟨t, s.list.length, true⟩) ∧
      TakenDown verdicts 0 s t := by
  obtain ⟨t, hrun, ht⟩ := run_removeFrom verdicts iterations h 0 hiterations
  refine ⟨t, ?_, ht⟩
  change (removeFrom s.list.head? (unloadStep verdicts (.listNextEntry s.list.head?) ⟨s, 0, true⟩).1 iterations).run _
    (unloadStep verdicts (.listNextEntry s.list.head?) ⟨s, 0, true⟩).2 = _
  rw [unloadStep_listNextEntry verdicts h, hrun, Nat.zero_add]

end Loop

/-! ## the module -/

/-- The steps of `main.c`, `init_ivc_devices` and `uninit_ivc_devices`: the
management device, the PCI driver, and the steps on the two sides. -/
inductive ModuleOp where
  | miscRegister
  | miscDeregister
  | pciRegisterDriver
  | pciUnregisterDriver
  | publisher (o : UnloadOp UInt64)
  | subscriber (o : UnloadOp (UInt64 × UInt64))

@[reducible] def moduleIface : Iface where
  Op := ModuleOp
  Res
    | .miscRegister | .pciRegisterDriver => Except Errno Unit
    | .publisher o => (unloadIface UInt64).Res o
    | .subscriber o => (unloadIface (UInt64 × UInt64)).Res o
    | _ => Unit

abbrev moduleCall (o : ModuleOp) : Prog moduleIface (moduleIface.Res o) := op (I := moduleIface) o

/-- `init_ivc_devices` -/
def initIvcDevices : Prog moduleIface (Except Errno Unit) := moduleCall .miscRegister

/-- `uninit_ivc_devices`, with at most `iterations` turns of each loop. -/
def uninitIvcDevices (iterations : Nat) : Prog moduleIface Unit := do
  (removeVdevs iterations).subst fun o => moduleCall (.publisher o)
  (removeVdevs iterations).subst fun o => moduleCall (.subscriber o)
  moduleCall .miscDeregister

/-- `axvisor_init` -/
def axvisorInit (iterations : Nat) : Prog moduleIface (Except Errno Unit) := do
  match ← initIvcDevices with
  | .error e => pure (.error e)
  | .ok () =>
      match ← moduleCall .pciRegisterDriver with
      | .error e =>
          uninitIvcDevices iterations
          pure (.error e)
      | .ok () => pure (.ok ())

/-- `axvisor_exit` -/
def axvisorExit (iterations : Nat) : Prog moduleIface Unit := do
  moduleCall .pciUnregisterDriver
  uninitIvcDevices iterations

/-- The module: its two sides, whether the management device and the PCI driver
are registered, and whether only what was registered has been deregistered. -/
structure Module where
  publisher : Unload UInt64
  subscriber : Unload (UInt64 × UInt64)
  manager : Bool
  driver : Bool
  sound : Bool

/-- What the kernel and the hypervisor answer. -/
structure Kernel where
  manager : Except Errno Unit
  driver : Except Errno Unit
  unpublish : Nat → UInt64
  unsubscribe : Nat → UInt64

/-- A step of the module. -/
def Kernel.step (x : Kernel) : (o : ModuleOp) → Module → moduleIface.Res o × Module
  | .miscRegister, m =>
      (x.manager, { m with manager := m.manager || x.manager.isOk, sound := m.sound && !m.manager })
  | .miscDeregister, m => ((), { m with manager := false, sound := m.sound && m.manager })
  | .pciRegisterDriver, m =>
      (x.driver, { m with driver := m.driver || x.driver.isOk, sound := m.sound && !m.driver })
  | .pciUnregisterDriver, m => ((), { m with driver := false, sound := m.sound && m.driver })
  | .publisher o, m =>
      ((unloadStep x.unpublish o m.publisher).1, { m with publisher := (unloadStep x.unpublish o m.publisher).2 })
  | .subscriber o, m =>
      ((unloadStep x.unsubscribe o m.subscriber).1, { m with subscriber := (unloadStep x.unsubscribe o m.subscriber).2 })

/-- The module with sides in the given states. -/
def Module.of (s : State UInt64) (t : State (UInt64 × UInt64)) (manager driver : Bool) : Module :=
  ⟨⟨s, 0, true⟩, ⟨t, 0, true⟩, manager, driver, true⟩

/-- The module is gone, and its sides were `s` and `t`: every step was sound,
nothing is registered, and the sides are taken down. -/
structure Module.Gone (x : Kernel) (s : State UInt64) (t : State (UInt64 × UInt64)) (m : Module) : Prop where
  sound : (m.publisher.sound && m.subscriber.sound && m.sound) = true
  manager : m.manager = false
  driver : m.driver = false
  publisher : TakenDown x.unpublish 0 s m.publisher.state
  subscriber : TakenDown x.unsubscribe 0 t m.subscriber.state

/-- What `axvisor_init` leaves: all of the module or nothing. -/
def Module.Inits (x : Kernel) (s : State UInt64) (t : State (UInt64 × UInt64)) (m : Module) : Except Errno Unit → Prop
  | .ok () => x.manager = .ok () ∧ x.driver = .ok () ∧ m = .of s t true true
  | .error e => (x.manager = .error e ∧ m = .of s t false false) ∨ (x.driver = .error e ∧ m.Gone x s t)

section Module

variable (x : Kernel) {s : State UInt64} {t : State (UInt64 × UInt64)} {iterations : Nat}

/-- `uninit_ivc_devices` on two sides at rest. -/
theorem run_uninitIvcDevices (hs : Resting s) (ht : Resting t) (hslen : s.list.length < iterations)
    (htlen : t.list.length < iterations) (driver : Bool) :
    ∃ s' t', (uninitIvcDevices iterations).run x.step (.of s t true driver) =
        some ((), ⟨⟨s', s.list.length, true⟩, ⟨t', t.list.length, true⟩, false, driver, true⟩) ∧
      TakenDown x.unpublish 0 s s' ∧ TakenDown x.unsubscribe 0 t t' := by
  obtain ⟨s', hruns, hs'⟩ := run_removeVdevs x.unpublish hs hslen
  obtain ⟨t', hrunt, ht'⟩ := run_removeVdevs x.unsubscribe ht htlen
  refine ⟨s', t', ?_, hs', ht'⟩
  have hpublisher : ((removeVdevs iterations).subst fun o => moduleCall (.publisher o)).run x.step (.of s t true driver) =
      some ((), ⟨⟨s', s.list.length, true⟩, ⟨t, 0, true⟩, true, driver, true⟩) := by
    have hstep (o : UnloadOp UInt64) (m : Module) : (moduleCall (.publisher o)).run x.step m = some (x.step (.publisher o) m) := rfl
    rw [run_subst hstep]
    exact run_lens (fun u => (⟨u, ⟨t, 0, true⟩, true, driver, true⟩ : Module)) (fun _ _ => rfl) hruns
  have hsubscriber : ((removeVdevs iterations).subst fun o => moduleCall (.subscriber o)).run x.step
      ⟨⟨s', s.list.length, true⟩, ⟨t, 0, true⟩, true, driver, true⟩ =
      some ((), ⟨⟨s', s.list.length, true⟩, ⟨t', t.list.length, true⟩, true, driver, true⟩) := by
    have hstep (o : UnloadOp (UInt64 × UInt64)) (m : Module) :
        (moduleCall (.subscriber o)).run x.step m = some (x.step (.subscriber o) m) := rfl
    rw [run_subst hstep]
    exact run_lens (fun u => (⟨⟨s', s.list.length, true⟩, u, true, driver, true⟩ : Module)) (fun _ _ => rfl) hrunt
  rw [uninitIvcDevices, run_bind, hpublisher, Option.bind_some, run_bind, hsubscriber, Option.bind_some]
  rfl

theorem run_axvisorExit (hs : Resting s) (ht : Resting t) (hslen : s.list.length < iterations)
    (htlen : t.list.length < iterations) :
    ∃ m, (axvisorExit iterations).run x.step (.of s t true true) = some ((), m) ∧ m.Gone x s t := by
  obtain ⟨s', t', hrun, hs', ht'⟩ := run_uninitIvcDevices x hs ht hslen htlen false
  exact ⟨_, hrun, rfl, rfl, rfl, hs', ht'⟩

theorem run_axvisorInit (hs : Resting s) (ht : Resting t) (hslen : s.list.length < iterations)
    (htlen : t.list.length < iterations) :
    ∃ r m, (axvisorInit iterations).run x.step (.of s t false false) = some (r, m) ∧ m.Inits x s t r := by
  obtain ⟨manager, driver, unpublish, unsubscribe⟩ := x
  cases manager with
  | error e => exact ⟨_, _, rfl, .inl ⟨rfl, rfl⟩⟩
  | ok =>
      cases driver with
      | ok => exact ⟨_, _, rfl, rfl, rfl, rfl⟩
      | error e =>
          obtain ⟨s', t', hrun, hs', ht'⟩ := run_uninitIvcDevices ⟨.ok (), .error e, unpublish, unsubscribe⟩ hs ht hslen htlen false
          refine ⟨.error e, ⟨⟨s', s.list.length, true⟩, ⟨t', t.list.length, true⟩, false, false, true⟩, ?_,
            .inr ⟨rfl, ⟨rfl, rfl, rfl, hs', ht'⟩⟩⟩
          change ((uninitIvcDevices iterations >>= fun _ => _).run _ _) = _
          rw [run_bind]
          exact congrArg (Option.bind · _) hrun

/-- A list is never longer than `MAX_VDEVS`. -/
theorem length_le_maxVdevs {Chan : Type} [DecidableEq Chan] [Inhabited Chan] {side : Side Chan} {rules : Rules Chan}
    {c : Config Nat (iface Chan) (State Chan) Ret} (hc : (outline side rules).Good c) :
    c.shared.list.length ≤ maxVdevs := by
  have hcount := hc.1.counts.count
  have hbound := hc.1.counts.bound
  omega

/-- **Unloading leaves nothing behind.**  Whatever the calls of user space have
left on the two sides, once no call runs and no file is open: `axvisor_exit`,
and `axvisor_init` when the PCI driver is refused, return, work on allocated
records only, give back what is there to be given back, each once, and leave no
record, no mapping and no registration.  At the hypervisor they leave exactly
the channels whose withdrawal it has refused. -/
theorem unload_leaves_nothing (publisher : Rules UInt64) (subscriber : Rules (UInt64 × UInt64))
    {c : Config Nat (iface UInt64) (State UInt64) Ret}
    {d : Config Nat (iface (UInt64 × UInt64)) (State (UInt64 × UInt64)) Ret}
    (hc : (machine publisherSide publisher).Reachable .init c) (hd : (machine subscriberSide subscriber).Reachable .init d)
    (hcidle : ∀ i, c.thread i = none) (hdidle : ∀ i, d.thread i = none)
    (hcclosed : ∀ f, c.shared.files f = none) (hdclosed : ∀ f, d.shared.files f = none)
    (x : Kernel) (iterations : Nat) (hiterations : maxVdevs < iterations) :
    (∃ m, (axvisorExit iterations).run x.step (.of c.shared d.shared true true) = some ((), m) ∧
      m.Gone x c.shared d.shared) ∧
    ∃ r m, (axvisorInit iterations).run x.step (.of c.shared d.shared false false) = some (r, m) ∧
      m.Inits x c.shared d.shared r := by
  have hcgood := good_of_reachable hc
  have hdgood := good_of_reachable hd
  have hcrest := resting_of_idle hcgood hcidle hcclosed
  have hdrest := resting_of_idle hdgood hdidle hdclosed
  have hclen := (length_le_maxVdevs hcgood).trans_lt hiterations
  have hdlen := (length_le_maxVdevs hdgood).trans_lt hiterations
  exact ⟨run_axvisorExit x hcrest hdrest hclen hdlen, run_axvisorInit x hcrest hdrest hclen hdlen⟩

/-- Key `7` has been published, nothing subscribed, and the hypervisor refuses
to withdraw the key: the device and its mapping go, the key stays. -/
theorem unload_leaves_nothing_refused :
    ∃ (c : Config Nat (iface UInt64) (State UInt64) Ret) (m : Module), c.shared.list = [0] ∧ c.shared.mapped = {3} ∧
      (axvisorExit 17).run (Kernel.step ⟨.ok (), .ok (), fun _ => 1, fun _ => 0⟩) (.of c.shared .init true true) =
        some ((), m) ∧
      m.publisher.state.list = [] ∧ m.publisher.state.mapped = ∅ ∧ 7 ∈ m.publisher.state.keys := by
  have hpublished := Course.reachable publisherSide (fits_hypervisor (x := ⟨1, 0, 3, 0⟩) (by decide)) (i := 0)
    (.openChannel 7 4096 0) 20 .refl rfl rfl rfl
  have hreturned := hpublished.finish 0 rfl rfl
  have hleft (c : Config Nat (iface UInt64) (State UInt64) Ret) (hc : (machine publisherSide hypervisor).Reachable .init c)
      (hidle : ∀ i, c.thread i = none) (hclosed : ∀ f, c.shared.files f = none) (hkey : 7 ∈ c.shared.keys) :
      ∃ m, (axvisorExit 17).run (Kernel.step ⟨.ok (), .ok (), fun _ => 1, fun _ => 0⟩) (.of c.shared .init true true) =
          some ((), m) ∧
        m.publisher.state.list = [] ∧ m.publisher.state.mapped = ∅ ∧ 7 ∈ m.publisher.state.keys := by
    obtain ⟨⟨m, hrun, hgone⟩, -⟩ := unload_leaves_nothing hypervisor hypervisor hc .refl hidle (fun _ => rfl) hclosed
      (fun _ => rfl) ⟨.ok (), .ok (), fun _ => 1, fun _ => 0⟩ 17 (by decide)
    exact ⟨m, hrun, hgone.publisher.list, hgone.publisher.mapped,
      (hgone.publisher.keys 7).mpr ⟨hkey, fun _ _ _ _ => by simp⟩⟩
  have hidle (i : Nat) {x y : Option (Prog (iface UInt64) Ret)} (hy : y = none) :
      Function.update (Function.update (fun _ => none) 0 x) 0 y i = none := by
    by_cases hi : i = 0
    · rw [hi, Function.update_self, hy]
    · rw [Function.update_of_ne hi, Function.update_of_ne hi]
  obtain ⟨m, hm⟩ := hleft _ hreturned (fun i => hidle i rfl) (fun _ => rfl) (by decide)
  exact ⟨_, m, rfl, rfl, hm⟩

end Module

end Registry

end Axivc
