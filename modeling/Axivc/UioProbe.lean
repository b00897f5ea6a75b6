import Axivc.UioIrq
import Mathlib.Data.Finset.Basic

/-!
# Axivc.UioProbe

The life of a device of `uio_ivshmem.c`: `ivshmem_uio_probe` and
`ivshmem_uio_remove`.

Probing takes five things from the kernel, one after the other, and a failure
gives back what has been taken, latest first; removal gives back all five.
From the moment the device is registered with the UIO core its interrupt
handler and `irqcontrol` may run at any time, also in the middle of either
function.  `uio_unregister_device` waits for them: it frees the interrupt and
takes the lock under which the UIO core calls `irqcontrol`.

The PCI core probes a device that is not bound and removes one that is, and
frees the record when a probe has failed or a removal is done.
-/

namespace Axivc

namespace Uio

open Prog Rely

/-! ## the functions -/

/-- What the kernel functions return. -/
def eNODEV : Int := -19

def eNOMEM : Int := -12

def eNOSPC : Int := -28

/-- `IVSHMEM_REVISION` -/
def ivshmemRevision : UInt8 := 1

/-- `IVSHMEM_BAR_REGISTERS` -/
def barRegisters : Nat := 0

/-- `IVSHMEM_BAR_SHARED` -/
def barShared : Nat := 2

/-- `IVSHMEM_INTERRUPT_ENABLE` -/
def interruptEnable : UInt32 := 1

/-- `struct pci_dev`, as far as it is read. -/
structure PciDev where
  revision : UInt8
  resourceStart : Nat → UInt64
  resourceLen : Nat → UInt64

/-- `struct uio_mem` -/
structure UioMem where
  name : String
  addr : UInt64
  size : UInt64

/-- `struct uio_info`, less the callbacks. -/
structure UioInfo where
  name : String
  version : String
  irq : Nat
  registers : UioMem
  shared : UioMem

/-- What a device takes from the kernel. -/
inductive Resource where
  | device
  | regions
  | vectors
  | registers
  | uio
  deriving DecidableEq

/-- The steps of the driver on a device. -/
inductive LifeOp where
  | kzalloc
  | enableDeviceMem
  | requestRegions
  | allocIrqVectors
  | iomap
  | irqVector
  | uioRegister (info : UioInfo)
  | setDrvdata
  | writeInterruptCtrl (value : UInt32)
  | getDrvdata
  | uioUnregister
  /-- under the lock: the test of `irq_disabled`, the reset -/
  | takeDisabled
  | enableIrq
  | iounmap
  | freeIrqVectors
  | releaseRegions
  | disableDevice
  /-- a step of the handler or of `irqcontrol` -/
  | irq (o : Op)

@[reducible] def lifeIface : Iface where
  Op := LifeOp
  Res
    | .kzalloc | .iomap | .takeDisabled => Bool
    | .enableDeviceMem | .requestRegions | .allocIrqVectors | .uioRegister _ => Int
    | .irqVector => Nat
    | .irq o => iface.Res o
    | _ => Unit

abbrev lifeCall (o : LifeOp) : Prog lifeIface (lifeIface.Res o) := op (I := lifeIface) o

/-- `ivshmem_uio_fill_memory` -/
def fillMemory (name : String) (pdev : PciDev) (bar : Nat) : UioMem :=
  ⟨name, pdev.resourceStart bar, pdev.resourceLen bar⟩

/-- What the device is registered with. -/
def info (pdev : PciDev) (irq : Nat) : UioInfo :=
  ⟨"uio_ivshmem", "1", irq, fillMemory "registers" pdev barRegisters, fillMemory "shared" pdev barShared⟩

/-- `disable_device:` -/
def disableDevice (result : Int) : Prog lifeIface Int := do
  lifeCall .disableDevice
  pure result

/-- `release_regions:` -/
def releaseRegions (result : Int) : Prog lifeIface Int := do
  lifeCall .releaseRegions
  disableDevice result

/-- `free_vectors:` -/
def freeVectors (result : Int) : Prog lifeIface Int := do
  lifeCall .freeIrqVectors
  releaseRegions result

/-- `unmap_registers:` -/
def unmapRegisters (result : Int) : Prog lifeIface Int := do
  lifeCall .iounmap
  freeVectors result

/-- `ivshmem_uio_probe` from the registration with the UIO core on. -/
def registerUio (pdev : PciDev) : Prog lifeIface Int := do
  let irq : Nat ← lifeCall .irqVector
  let result : Int ← lifeCall (.uioRegister (info pdev irq))
  if result ≠ 0 then
    unmapRegisters result
  else
    lifeCall .setDrvdata
    lifeCall (.writeInterruptCtrl interruptEnable)
    pure 0

/-- `ivshmem_uio_probe` from the allocation of the vector on. -/
def allocVector (pdev : PciDev) : Prog lifeIface Int := do
  let result : Int ← lifeCall .allocIrqVectors
  if result < 0 then
    releaseRegions result
  else if result ≠ 1 then
    freeVectors eNOSPC
  else
    let mapped : Bool ← lifeCall .iomap
    if !mapped then freeVectors eNOMEM else registerUio pdev

/-- `ivshmem_uio_probe` -/
def ivshmemUioProbe (pdev : PciDev) : Prog lifeIface Int := do
  if pdev.revision ≠ ivshmemRevision then
    pure eNODEV
  else
    let allocated : Bool ← lifeCall .kzalloc
    if !allocated then
      pure eNOMEM
    else
      let result : Int ← lifeCall .enableDeviceMem
      if result ≠ 0 then
        pure result
      else
        let result : Int ← lifeCall .requestRegions
        if result ≠ 0 then disableDevice result else allocVector pdev

/-- `ivshmem_uio_remove` from the registers on. -/
def releaseAll : Prog lifeIface Unit := do
  lifeCall .iounmap
  lifeCall .freeIrqVectors
  lifeCall .releaseRegions
  lifeCall .disableDevice

/-- `ivshmem_uio_remove` -/
def ivshmemUioRemove : Prog lifeIface Unit := do
  lifeCall .getDrvdata
  lifeCall (.writeInterruptCtrl 0)
  lifeCall .uioUnregister
  let enable : Bool ← lifeCall .takeDisabled
  if enable then
    lifeCall .enableIrq
    releaseAll
  else releaseAll

/-! ## the machine -/

/-- The record of a device, and what the kernel keeps for it: `held` is what
the driver has taken, latest first, `exposed` what user space sees. -/
structure Life where
  record : Bool
  held : List Resource
  drvdata : Bool
  exposed : Option UioInfo
  interruptCtrl : UInt32
  bound : Bool

/-- The PCI core, the one call of `irqcontrol` at a time, and the handlers. -/
inductive Actor where
  | pci
  | irq (i : Thread)
  deriving DecidableEq

/-- A device, its line, and the handlers and calls of `irqcontrol` that run. -/
structure Device where
  life : Life
  line : State
  running : Finset Thread

namespace Device

/-- A device that has not been probed. -/
def init : Device := ⟨⟨false, [], false, none, 0, false⟩, .init, ∅⟩

/-- Change what the kernel keeps. -/
def onLife (s : Device) (f : Life → Life) : Device := { s with life := f s.life }

/-- Take from the kernel. -/
def take (s : Device) (x : Resource) : Device := s.onLife fun l => { l with held := x :: l.held }

/-- Give back to the kernel. -/
def giveBack (s : Device) (x : Resource) : Device := s.onLife fun l => { l with held := l.held.erase x }

end Device

/-- The answers a step may get: a kernel function returns `0` or an error,
`pci_alloc_irq_vectors` a number of vectors or an error. -/
def LifeAllowed (s : Device) : (o : LifeOp) → lifeIface.Res o → Prop
  | .enableDeviceMem, r | .requestRegions, r | .uioRegister _, r => r ≤ 0
  | .uioUnregister, _ => s.running = ∅
  | .takeDisabled, enable => enable = s.line.irqDisabled
  | .irq o, r => ∃ status, r = (perform status o s.line).1
  | _, _ => True

/-- The device after a step. -/
def lifeAfter (s : Device) : (o : LifeOp) → lifeIface.Res o → Device
  | .kzalloc, allocated =>
      if allocated then
        { s.onLife fun l => { l with record := true } with line := { s.line with irqDisabled := false } }
      else s
  | .enableDeviceMem, r => if r = 0 then s.take .device else s
  | .requestRegions, r => if r = 0 then s.take .regions else s
  | .allocIrqVectors, r => if 0 ≤ r then s.take .vectors else s
  | .iomap, mapped => if mapped then s.take .registers else s
  | .uioRegister info, r =>
      if r = 0 then
        { (s.take .uio).onLife fun l => { l with exposed := some info } with line := { s.line with depth := 0 } }
      else s
  | .setDrvdata, _ => s.onLife fun l => { l with drvdata := true }
  | .writeInterruptCtrl value, _ => s.onLife fun l => { l with interruptCtrl := value }
  | .uioUnregister, _ => (s.giveBack .uio).onLife fun l => { l with exposed := none }
  | .takeDisabled, _ => { s with line := { s.line with irqDisabled := false } }
  | .enableIrq, _ => { s with line := s.line.enableIrq }
  | .iounmap, _ => s.giveBack .registers
  | .freeIrqVectors, _ => s.giveBack .vectors
  | .releaseRegions, _ => s.giveBack .regions
  | .disableDevice, _ => s.giveBack .device
  -- the event register does not matter to the line
  | .irq o, _ => { s with line := (perform 0 o s.line).2 }
  | _, _ => s

inductive LifeCall where
  | probe
  | remove
  | irq (call : Call)

inductive LifeRet where
  | probed (result : Int)
  | removed
  | irq (result : Ret)

/-- The program of a call. -/
def lifeBody (pdev : PciDev) : LifeCall → Prog lifeIface LifeRet
  | .probe => ivshmemUioProbe pdev >>= fun r => .ret (.probed r)
  | .remove => ivshmemUioRemove >>= fun _ => .ret .removed
  | .irq call => (body call).subst (fun o => lifeCall (.irq o)) >>= fun r => .ret (.irq r)

/-- A call begins: the PCI core probes a device that is not bound and removes
one that is; the others run on a device that is registered with the UIO core,
handlers only while the line is enabled. -/
def LifeBegins : Actor → LifeCall → Device → Device → Prop
  | .pci, .probe, s, t => s.life.bound = false ∧ t = s
  | .pci, .remove, s, t => s.life.bound = true ∧ t = s
  | .irq i, .irq call, s, t => .uio ∈ s.life.held ∧ Begins i call s.line ∧ t = { s with running := insert i s.running }
  | _, _, _, _ => False

/-- A call ends: a device is bound when it has been probed; the record is freed
when the probe has failed or the device has been removed. -/
def lifeEnds : Actor → LifeRet → Device → Device
  | .pci, .probed r, s =>
      if r = 0 then s.onLife fun l => { l with bound := true }
      else s.onLife fun l => { l with record := false, drvdata := false }
  | .pci, .removed, s => s.onLife fun l => { l with bound := false, record := false, drvdata := false }
  | .irq i, _, s => { s with running := s.running.erase i }
  | _, _, s => s

/-- Probes, removals, handlers and calls of `irqcontrol`, at single steps. -/
def lifeMachine (pdev : PciDev) : Machine Actor lifeIface Device LifeCall LifeRet where
  body _ call _ := lifeBody pdev call
  exec _ o s r t := LifeAllowed s o r ∧ t = lifeAfter s o r
  start i call s t := LifeBegins i call s t
  finish i r s t := t = lifeEnds i r s
  env _ _ := False

/-! ## what a step needs -/

/-- What a step takes from the kernel. -/
def LifeOp.takes : LifeOp → Option Resource
  | .enableDeviceMem => some .device
  | .requestRegions => some .regions
  | .allocIrqVectors => some .vectors
  | .iomap => some .registers
  | .uioRegister _ => some .uio
  | _ => none

/-- What a step gives back. -/
def LifeOp.givesBack : LifeOp → Option Resource
  | .uioUnregister => some .uio
  | .iounmap => some .registers
  | .freeIrqVectors => some .vectors
  | .releaseRegions => some .regions
  | .disableDevice => some .device
  | _ => none

/-- What a step uses: the registers are read and written through their mapping,
an interrupt that is masked or unmasked is one of the vectors. -/
def LifeOp.uses : LifeOp → Option Resource
  | .writeInterruptCtrl _ | .irq .readEventStatus => some .registers
  | .irqVector | .enableIrq | .irq .maskOnce | .irq .enableIrq | .irq .disableIrqNosync => some .vectors
  | _ => none

/-- The step works on the record. -/
def LifeOp.onRecord : LifeOp → Bool
  | .iomap | .uioRegister _ | .setDrvdata | .writeInterruptCtrl _ | .uioUnregister | .takeDisabled | .enableIrq
  | .iounmap | .irq _ => true
  | _ => false

/-- A step takes what the device does not have, gives back what it has taken
last, uses what it has, and works on a record that is allocated; the record is
looked up when the PCI device has it. -/
structure LifeReady (l : Life) (o : LifeOp) : Prop where
  takes : ∀ x, o.takes = some x → x ∉ l.held
  givesBack : ∀ x, o.givesBack = some x → l.held.head? = some x
  uses : ∀ x, o.uses = some x → x ∈ l.held
  record : o.onRecord = true → l.record = true
  drvdata : o = .getDrvdata → l.drvdata = true

/-- All a device takes, latest first. -/
def allHeld : List Resource := [.uio, .registers, .vectors, .regions, .device]

/-- A device is bound, with all it takes and its interrupt enabled, or it has
nothing. -/
inductive AtRest (pdev : PciDev) : Life → Prop where
  | bound (irq : Nat) : AtRest pdev ⟨true, allHeld, true, some (info pdev irq), interruptEnable, true⟩
  | unbound (ctrl : UInt32) : AtRest pdev ⟨false, [], false, none, ctrl, false⟩

/-- What `ivshmem_uio_probe` leaves. -/
inductive Probed (pdev : PciDev) : Int → Life → Prop where
  | ok (irq : Nat) : Probed pdev 0 ⟨true, allHeld, true, some (info pdev irq), interruptEnable, false⟩
  | failed (r : Int) (record : Bool) (ctrl : UInt32) (hr : r < 0) : Probed pdev r ⟨record, [], false, none, ctrl, false⟩

/-- The invariant: things are taken in order, a device that has anything has a
record, and while a handler or `irqcontrol` runs it has everything. -/
structure LifeInv (s : Device) : Prop where
  order : s.life.held <:+ allHeld
  record : s.life.held ≠ [] → s.life.record = true
  inside : s.running.Nonempty → s.life.held = allHeld

/-! ## the outline -/

section Outline

variable {pdev : PciDev} {s t : Device} {i : Thread}

/-- While a call of `irqcontrol` or a handler runs, its steps have what they
need. -/
theorem LifeInv.ready_irq (h : LifeInv s) (hi : i ∈ s.running) (o : Op) : LifeReady s.life (.irq o) := by
  have hheld := h.inside ⟨i, hi⟩
  refine ⟨fun x hx => (by cases hx), fun x hx => (by cases hx), fun x hx => ?_, fun _ => ?_, fun hget => (by cases hget)⟩
  · rw [hheld]
    cases o <;> cases hx <;> decide
  · exact h.record (by rw [hheld]; decide)

/-- What is taken last has all the rest below it. -/
theorem LifeInv.eq_allHeld (h : LifeInv s) (huio : .uio ∈ s.life.held) : s.life.held = allHeld := by
  obtain ⟨front, hfront⟩ := h.order
  cases front with
  | nil => exact hfront
  | cons x front =>
      obtain ⟨rfl, htail⟩ := List.cons.inj hfront
      have hmem : Resource.uio ∈ [.registers, .vectors, .regions, .device] := htail ▸ List.mem_append_right front huio
      exact absurd hmem (by decide)

/-- Between two calls of the PCI core. -/
theorem LifeInv.of_rest (h : LifeInv s) (hrest : AtRest pdev t.life) (hheld : t.life.held = s.life.held)
    (hrunning : t.running = s.running) : LifeInv t where
  order := by
    rw [hheld]
    exact h.order
  record hne := by
    generalize t.life = l at hrest hne ⊢
    cases hrest with
    | bound irq => rfl
    | unbound ctrl => exact absurd rfl hne
  inside hne := by
    rw [hheld]
    rw [hrunning] at hne
    exact h.inside hne

/-- What a call leaves. -/
def LifePost (pdev : PciDev) : Actor → LifeRet → Device → Prop
  | .pci, .probed r, s => Probed pdev r s.life
  | .pci, .removed, s => s.life = ⟨true, [], true, none, 0, true⟩
  | .irq i, .irq _, s => i ∈ s.running
  | _, _, _ => False

/-- The PCI core changes nothing of who runs; the others change nothing of the
life of the device. -/
def lifeOutline (pdev : PciDev) : Machine.Outline (lifeMachine pdev) where
  inv := LifeInv
  pre _ o s := LifeReady s.life o
  rely
    | .pci, s, t => t.life = s.life
    | .irq i, s, t => i ∈ t.running ↔ i ∈ s.running
  guar
    | .pci, s, t => t.running = s.running
    | .irq i, s, t => t.life = s.life ∧ ∀ j, j ≠ i → (j ∈ t.running ↔ j ∈ s.running)
  post := LifePost pdev
  idle
    | .pci, s => AtRest pdev s.life
    | .irq i, s => i ∉ s.running
  rely_refl i s := by
    cases i with
    | pci => rfl
    | irq i => exact Iff.rfl
  rely_trans i s t u h h' := by
    cases i with
    | pci => exact h'.trans h
    | irq i => exact h'.trans h
  guar_rely {i j s t} hij _ hg := by
    cases i with
    | pci =>
        cases j with
        | pci => exact absurd rfl hij
        | irq j =>
            have hg : t.running = s.running := hg
            exact iff_of_eq (congrArg (j ∈ ·) hg)
    | irq i =>
        cases j with
        | pci => exact hg.1
        | irq j => exact hg.2 j fun heq => hij (heq ▸ rfl)
  env_rely _ he := he.elim
  idle_stable {i s t} hidle hr _ := by
    cases i with
    | pci =>
        have hr : t.life = s.life := hr
        change AtRest pdev t.life
        rw [hr]
        exact hidle
    | irq i => exact fun hmem => hidle (hr.mp hmem)
  finish_ok {i a s t} hinv hpost hf := by
    obtain rfl : t = lifeEnds i a s := hf
    cases i with
    | pci =>
        cases a with
        | probed r =>
            obtain ⟨life, line, running⟩ := s
            have hprobed : Probed pdev r life := hpost
            cases hprobed with
            | ok irq => exact ⟨hinv.of_rest (.bound irq) rfl rfl, rfl, .bound irq⟩
            | failed r record ctrl hr =>
                rw [lifeEnds, if_neg hr.ne]
                have hrest : AtRest pdev ⟨false, [], false, none, ctrl, false⟩ := .unbound ctrl
                exact ⟨hinv.of_rest hrest rfl rfl, rfl, hrest⟩
        | removed =>
            obtain ⟨life, line, running⟩ := s
            obtain rfl : life = ⟨true, [], true, none, 0, true⟩ := hpost
            have hrest : AtRest pdev ⟨false, [], false, none, 0, false⟩ := .unbound 0
            exact ⟨hinv.of_rest hrest rfl rfl, rfl, hrest⟩
        | irq r => exact hpost.elim
    | irq i =>
        cases a with
        | irq r =>
            refine ⟨⟨hinv.order, hinv.record, fun hne => hinv.inside (hne.mono (Finset.erase_subset i _))⟩, ⟨rfl, fun j hj => ?_⟩, ?_⟩
            · exact ⟨Finset.mem_of_mem_erase, Finset.mem_erase_of_ne_of_mem hj⟩
            · exact Finset.notMem_erase i _
        | probed r | removed => exact hpost.elim

/-- A call of `irqcontrol` or a handler. -/
theorem safe_irq {α : Type} {p : Prog lifeIface α} (hp : p.Each fun o : LifeOp => ∃ o', o = .irq o') (hi : i ∈ s.running) :
    ((lifeOutline pdev).view (.irq i)).Safe (fun _ t => i ∈ t.running) p s := by
  induction p generalizing s with
  | ret a => exact fun t ht _ => ht.mpr hi
  | act o k ih =>
      obtain ⟨⟨o', rfl⟩, hk⟩ := hp
      refine View.safe_act (fun t => i ∈ t.running) hi (fun t u ht hr _ => hr.mpr ht) fun t ht hinv => ?_
      refine ⟨hinv.ready_irq ht o', ?_⟩
      rintro r u ⟨-, rfl⟩
      exact ⟨⟨hinv.order, hinv.record, hinv.inside⟩, ⟨rfl, fun _ _ => Iff.rfl⟩, ih r (hk r) ht⟩
  | spin => exact fun _ _ _ => trivial

/-- A step of the PCI core's call, on a device whose life is known. -/
theorem safe_pci {α : Type} {post : α → Device → Prop} {o : LifeOp} {k : lifeIface.Res o → Prog lifeIface α} {l : Life}
    (l' : lifeIface.Res o → Life) (hl : s.life = l) (hready : LifeReady l o)
    (hafter : ∀ t r, t.life = l → (lifeAfter t o r).life = l' r ∧ (lifeAfter t o r).running = t.running)
    (horder : ∀ r, (l' r).held <:+ allHeld) (hrecord : ∀ r, (l' r).held ≠ [] → (l' r).record = true)
    (hinside : l.held = allHeld → ∀ t r, LifeAllowed t o r → t.running = ∅ ∨ (l' r).held = allHeld)
    (hk : ∀ t r u, LifeAllowed t o r → u.life = l' r → ((lifeOutline pdev).view .pci).Safe post (k r) u) :
    ((lifeOutline pdev).view .pci).Safe post (.act o k) s := by
  refine View.safe_act (fun t => t.life = l) hl (fun t u ht hr _ => hr.trans ht) fun t ht hinv => ?_
  refine ⟨show LifeReady t.life o from ht ▸ hready, ?_⟩
  rintro r u ⟨hallowed, rfl⟩
  obtain ⟨hlife, hrunning⟩ := hafter t r ht
  refine ⟨⟨?_, ?_, ?_⟩, hrunning, hk t r _ hallowed hlife⟩
  · rw [hlife]
    exact horder r
  · rw [hlife]
    exact hrecord r
  · rw [hlife, hrunning]
    intro hne
    have hfull := hinv.inside hne
    rw [ht] at hfull
    obtain hnone | hsome := hinside hfull t r hallowed
    · rw [hnone] at hne
      cases hne
      contradiction
    · exact hsome

/-! ## the two functions -/

variable {ctrl : UInt32}

/-- A device that a call of the PCI core has got as far as `held`. -/
def taken (held : List Resource) (ctrl : UInt32) : Life := ⟨true, held, false, none, ctrl, false⟩

/-- Give back what has been taken last, of a device that is not registered. -/
theorem safe_giveBack {α : Type} {post : α → Device → Prop} {o : LifeOp} {k : lifeIface.Res o → Prog lifeIface α} {l : Life}
    {x : Resource} {held : List Resource} (hl : s.life = l) (hheld : l.held = x :: held) (hgives : o.givesBack = some x)
    (htakes : o.takes = none) (huses : o.uses = none) (hrecord : l.record = true)
    (hafter : ∀ t r, lifeAfter t o r = t.giveBack x) (horder : x :: held <:+ allHeld) (hne : x :: held ≠ allHeld)
    (hk : ∀ r t, t.life = { l with held := held } → ((lifeOutline pdev).view .pci).Safe post (k r) t) :
    ((lifeOutline pdev).view .pci).Safe post (.act o k) s := by
  refine safe_pci (fun _ => { l with held := held }) hl ?_ (fun t r ht => ?_) (fun _ => ?_) (fun _ _ => hrecord)
    (fun hfull => absurd (hheld.symm.trans hfull) hne) fun t r u _ hu => hk r u hu
  · refine ⟨fun y hy => ?_, fun y hy => ?_, fun y hy => ?_, fun _ => hrecord, fun hget => ?_⟩
    · rw [htakes] at hy
      cases hy
    · rw [hheld, ← hy, hgives]
      rfl
    · rw [huses] at hy
      cases hy
    · rw [hget] at hgives
      cases hgives
  · rw [hafter]
    refine ⟨?_, rfl⟩
    simp [Device.giveBack, Device.onLife, ht, hheld]
  · exact (List.suffix_cons x held).trans horder

/-- Return, and leave the device as it is. -/
theorem safe_returns {r : Int} {l : Life} (hl : s.life = l) (hr : Probed pdev r l) :
    ((lifeOutline pdev).view .pci).Safe (fun r t => Probed pdev r t.life) (.ret r) s := by
  refine View.safe_ret (fun u => u.life = l) hl (fun u w hu hw _ => hw.trans hu) fun u hu _ => ?_
  rw [hu]
  exact hr

theorem safe_disableDevice {r : Int} (hr : r < 0) (hl : s.life = taken [.device] ctrl) :
    ((lifeOutline pdev).view .pci).Safe (fun r t => Probed pdev r t.life) (disableDevice r) s := by
  refine safe_giveBack hl rfl rfl rfl rfl rfl (fun _ _ => rfl) (by decide) (by decide) fun _ t ht => ?_
  exact safe_returns ht (.failed r true ctrl hr)

theorem safe_releaseRegions {r : Int} (hr : r < 0) (hl : s.life = taken [.regions, .device] ctrl) :
    ((lifeOutline pdev).view .pci).Safe (fun r t => Probed pdev r t.life) (releaseRegions r) s :=
  safe_giveBack hl rfl rfl rfl rfl rfl (fun _ _ => rfl) (by decide) (by decide) fun _ _ ht => safe_disableDevice hr ht

theorem safe_freeVectors {r : Int} (hr : r < 0) (hl : s.life = taken [.vectors, .regions, .device] ctrl) :
    ((lifeOutline pdev).view .pci).Safe (fun r t => Probed pdev r t.life) (freeVectors r) s :=
  safe_giveBack hl rfl rfl rfl rfl rfl (fun _ _ => rfl) (by decide) (by decide) fun _ _ ht => safe_releaseRegions hr ht

theorem safe_unmapRegisters {r : Int} (hr : r < 0) (hl : s.life = taken [.registers, .vectors, .regions, .device] ctrl) :
    ((lifeOutline pdev).view .pci).Safe (fun r t => Probed pdev r t.life) (unmapRegisters r) s :=
  safe_giveBack hl rfl rfl rfl rfl rfl (fun _ _ => rfl) (by decide) (by decide) fun _ _ ht => safe_freeVectors hr ht

/-- Take the next thing from the kernel, if the kernel has it. -/
theorem safe_take {α : Type} {post : α → Device → Prop} {o : LifeOp} {k : lifeIface.Res o → Prog lifeIface α} {x : Resource}
    {held : List Resource} (got : lifeIface.Res o → Bool) (hl : s.life = taken held ctrl) (htakes : o.takes = some x)
    (hgives : o.givesBack = none) (huses : o.uses = none) (hafter : ∀ t r, lifeAfter t o r = if got r then t.take x else t)
    (horder : x :: held <:+ allHeld) (hnew : x ∉ held)
    (hk : ∀ t r u, LifeAllowed t o r → u.life = taken (if got r then x :: held else held) ctrl →
      ((lifeOutline pdev).view .pci).Safe post (k r) u) :
    ((lifeOutline pdev).view .pci).Safe post (.act o k) s := by
  have hheld (b : Bool) : (if b then x :: held else held) <:+ allHeld := by
    cases b with
    | true => exact horder
    | false => exact (List.suffix_cons x held).trans horder
  refine safe_pci (fun r => taken (if got r then x :: held else held) ctrl) hl ?_ (fun t r ht => ?_)
    (fun r => hheld (got r)) (fun _ _ => rfl) (fun hfull => ?_) hk
  · refine ⟨fun y hy => ?_, fun y hy => ?_, fun y hy => ?_, fun _ => rfl, fun hget => ?_⟩
    · rw [htakes] at hy
      rw [← Option.some.inj hy]
      exact hnew
    · rw [hgives] at hy
      cases hy
    · rw [huses] at hy
      cases hy
    · rw [hget] at htakes
      cases htakes
  · rw [hafter]
    cases got r with
    | true => exact ⟨by simp [Device.take, Device.onLife, ht, taken], rfl⟩
    | false => exact ⟨ht, rfl⟩
  · -- nothing is left to be taken
    have hlength := horder.length_le
    rw [show held = allHeld from hfull] at hlength
    simp [allHeld] at hlength

theorem LifeReady.of_plain {o : LifeOp} {l : Life} (htakes : o.takes = none) (hgives : o.givesBack = none)
    (huses : ∀ x, o.uses = some x → x ∈ l.held) (hrecord : l.record = true)
    (hdrvdata : o = .getDrvdata → l.drvdata = true) : LifeReady l o where
  takes x hx := by
    rw [htakes] at hx
    cases hx
  givesBack x hx := by
    rw [hgives] at hx
    cases hx
  uses := huses
  record _ := hrecord
  drvdata := hdrvdata

/-- A step that neither takes nor gives back. -/
theorem safe_plain {α : Type} {post : α → Device → Prop} {o : LifeOp} {k : lifeIface.Res o → Prog lifeIface α} {l : Life}
    (l' : Life) (hl : s.life = l) (hready : LifeReady l o)
    (hafter : ∀ t r, t.life = l → (lifeAfter t o r).life = l' ∧ (lifeAfter t o r).running = t.running)
    (horder : l.held <:+ allHeld) (hheld : l'.held = l.held) (hrecord : l.held ≠ [] → l'.record = true)
    (hk : ∀ r u, u.life = l' → ((lifeOutline pdev).view .pci).Safe post (k r) u) :
    ((lifeOutline pdev).view .pci).Safe post (.act o k) s :=
  safe_pci (fun _ => l') hl hready hafter (fun _ => hheld ▸ horder) (fun _ hne => hrecord (hheld ▸ hne))
    (fun hfull _ _ _ => .inr (hheld.trans hfull)) fun _ r u _ hu => hk r u hu

theorem safe_registerUio (hl : s.life = taken [.registers, .vectors, .regions, .device] ctrl) :
    ((lifeOutline pdev).view .pci).Safe (fun r t => Probed pdev r t.life) (registerUio pdev) s := by
  have horder : [.registers, .vectors, .regions, .device] <:+ allHeld := by decide
  have hvectors : Resource.vectors ∈ [.registers, .vectors, .regions, .device] := by decide
  have huio : Resource.uio ∉ [.registers, .vectors, .regions, .device] := by decide
  have hregisters : Resource.registers ∈ allHeld := by decide
  refine safe_plain (taken [.registers, .vectors, .regions, .device] ctrl) hl ?_ (fun t r ht => ⟨ht, rfl⟩) horder rfl
    (fun _ => rfl) ?_
  · exact .of_plain rfl rfl (fun x hx => Option.some.inj hx ▸ hvectors) rfl fun h => by cases h
  intro irq t ht
  refine safe_pci (fun r => if r = 0 then ⟨true, allHeld, false, some (info pdev irq), ctrl, false⟩ else
    taken [.registers, .vectors, .regions, .device] ctrl) ht ?_ (fun u r hu => ?_) (fun r => ?_) (fun r _ => ?_)
    (fun hfull => by cases hfull) ?_
  · exact ⟨fun x hx => Option.some.inj hx ▸ huio, by simp [LifeOp.givesBack], by simp [LifeOp.uses], fun _ => rfl,
      fun h => by cases h⟩
  · simp only [lifeAfter]
    split
    · exact ⟨by simp [Device.take, Device.onLife, hu, taken, allHeld], rfl⟩
    · exact ⟨hu, rfl⟩
  · split
    · exact List.suffix_rfl
    · exact horder
  · split <;> rfl
  intro _ r u hr hu
  change ((lifeOutline pdev).view .pci).Safe _ (ite (r ≠ 0) _ _) u
  split
  · next hne =>
    rw [if_neg hne] at hu
    exact safe_unmapRegisters (lt_of_le_of_ne hr hne) hu
  · next hzero =>
    rw [if_pos (not_not.mp hzero)] at hu
    refine safe_plain ⟨true, allHeld, true, some (info pdev irq), ctrl, false⟩ hu ?_ (fun w _ hw => ⟨?_, rfl⟩) List.suffix_rfl
      rfl (fun _ => rfl) ?_
    · exact .of_plain rfl rfl (fun x hx => by cases hx) rfl fun h => by cases h
    · simp [lifeAfter, Device.onLife, hw]
    rintro - w hw
    refine safe_plain ⟨true, allHeld, true, some (info pdev irq), interruptEnable, false⟩ hw ?_ (fun y _ hy => ⟨?_, rfl⟩)
      List.suffix_rfl rfl (fun _ => rfl) ?_
    · exact .of_plain rfl rfl (fun x hx => Option.some.inj hx ▸ hregisters) rfl fun h => by cases h
    · simp [lifeAfter, Device.onLife, hy]
    rintro - y hy
    exact safe_returns hy (.ok irq)

theorem safe_allocVector (hl : s.life = taken [.regions, .device] ctrl) :
    ((lifeOutline pdev).view .pci).Safe (fun r t => Probed pdev r t.life) (allocVector pdev) s := by
  refine safe_take (fun r => decide (0 ≤ r)) hl rfl rfl rfl (fun t r => by simp [lifeAfter]) (by decide) (by decide) ?_
  intro t r u _ hu
  change ((lifeOutline pdev).view .pci).Safe _ (ite (r < 0) _ _) u
  split
  · next hneg =>
    rw [decide_eq_false (not_le.mpr hneg)] at hu
    exact safe_releaseRegions hneg hu
  · next hnonneg =>
    rw [decide_eq_true (not_lt.mp hnonneg)] at hu
    change ((lifeOutline pdev).view .pci).Safe _ (ite (r ≠ 1) _ _) u
    split
    · exact safe_freeVectors (by decide) hu
    · refine safe_take id hu rfl rfl rfl (fun t r => rfl) (by decide) (by decide) ?_
      rintro t' r' u' - hu'
      cases r' with
      | false => exact safe_freeVectors (by decide) hu'
      | true => exact safe_registerUio hu'

theorem safe_probe (hl : s.life = ⟨false, [], false, none, ctrl, false⟩) :
    ((lifeOutline pdev).view .pci).Safe (fun r t => Probed pdev r t.life) (ivshmemUioProbe pdev) s := by
  rw [ivshmemUioProbe]
  split
  · exact safe_returns hl (.failed _ _ _ (by decide))
  · refine safe_pci (fun r => ⟨r, [], false, none, ctrl, false⟩) hl ?_ (fun t r ht => ?_)
      (fun _ => List.nil_suffix) (fun _ hne => absurd rfl hne) (fun hfull => by cases hfull) ?_
    · exact ⟨by simp [LifeOp.takes], by simp [LifeOp.givesBack], by simp [LifeOp.uses], by simp [LifeOp.onRecord],
        fun h => by cases h⟩
    · cases r with
      | true => exact ⟨by simp [lifeAfter, Device.onLife, ht], rfl⟩
      | false => exact ⟨ht, rfl⟩
    intro _ allocated t _ ht
    cases allocated with
    | false => exact safe_returns ht (.failed _ _ _ (by decide))
    | true =>
        refine safe_take (fun r => decide (r = 0)) ht rfl rfl rfl (fun t r => by simp [lifeAfter]) (by decide) (by decide) ?_
        intro _ r u hr hu
        change ((lifeOutline pdev).view .pci).Safe _ (ite (r ≠ 0) _ _) u
        split
        · next hne =>
          rw [decide_eq_false hne] at hu
          exact safe_returns hu (.failed _ _ _ (lt_of_le_of_ne hr hne))
        · next hzero =>
          rw [decide_eq_true (not_not.mp hzero)] at hu
          refine safe_take (fun r => decide (r = 0)) hu rfl rfl rfl (fun t r => by simp [lifeAfter]) (by decide) (by decide) ?_
          intro _ r' w hr' hw
          change ((lifeOutline pdev).view .pci).Safe _ (ite (r' ≠ 0) _ _) w
          split
          · next hne =>
            rw [decide_eq_false hne] at hw
            exact safe_disableDevice (lt_of_le_of_ne hr' hne) hw
          · next hzero' =>
            rw [decide_eq_true (not_not.mp hzero')] at hw
            exact safe_allocVector hw

/-- A device that is being removed. -/
def dropped (held : List Resource) : Life := ⟨true, held, true, none, 0, true⟩

theorem safe_releaseAll (hl : s.life = dropped [.registers, .vectors, .regions, .device]) :
    ((lifeOutline pdev).view .pci).Safe (fun _ t => t.life = dropped []) releaseAll s := by
  refine safe_giveBack hl rfl rfl rfl rfl rfl (fun _ _ => rfl) (by decide) (by decide) fun _ t ht => ?_
  refine safe_giveBack ht rfl rfl rfl rfl rfl (fun _ _ => rfl) (by decide) (by decide) fun _ u hu => ?_
  refine safe_giveBack hu rfl rfl rfl rfl rfl (fun _ _ => rfl) (by decide) (by decide) fun _ w hw => ?_
  refine safe_giveBack hw rfl rfl rfl rfl rfl (fun _ _ => rfl) (by decide) (by decide) fun _ y hy => ?_
  exact View.safe_ret (fun y => y.life = dropped []) hy (fun _ _ hu hr _ => hr.trans hu) fun _ hu _ => hu

theorem safe_remove {irq : Nat} (hl : s.life = ⟨true, allHeld, true, some (info pdev irq), interruptEnable, true⟩) :
    ((lifeOutline pdev).view .pci).Safe (fun _ t => t.life = dropped []) ivshmemUioRemove s := by
  have hregisters : Resource.registers ∈ allHeld := by decide
  have horder : [.registers, .vectors, .regions, .device] <:+ allHeld := by decide
  have hvectors : Resource.vectors ∈ [.registers, .vectors, .regions, .device] := by decide
  refine safe_plain _ hl (.of_plain rfl rfl (fun x hx => by cases hx) rfl fun _ => rfl) (fun t _ ht => ⟨ht, rfl⟩)
    List.suffix_rfl rfl (fun _ => rfl) fun _ t ht => ?_
  refine safe_plain ⟨true, allHeld, true, some (info pdev irq), 0, true⟩ ht ?_ (fun u _ hu => ⟨?_, rfl⟩) List.suffix_rfl rfl
    (fun _ => rfl) fun _ u hu => ?_
  · exact .of_plain rfl rfl (fun x hx => Option.some.inj hx ▸ hregisters) rfl fun h => by cases h
  · simp [lifeAfter, Device.onLife, hu]
  -- nothing runs any more when the device is unregistered
  refine safe_pci (fun _ => dropped [.registers, .vectors, .regions, .device]) hu ?_ (fun w _ hw => ⟨?_, rfl⟩)
    (fun _ => horder) (fun _ _ => rfl) (fun _ w _ hw => .inl hw) fun _ _ w _ hw => ?_
  · exact ⟨fun x hx => (by cases hx), fun x hx => hx, fun x hx => (by cases hx), fun _ => rfl, fun h => (by cases h)⟩
  · simp [lifeAfter, Device.giveBack, Device.onLife, hw, allHeld, dropped]
  refine safe_plain _ hw (.of_plain rfl rfl (fun x hx => by cases hx) rfl fun h => by cases h) (fun y _ hy => ⟨hy, rfl⟩) horder
    rfl (fun _ => rfl) fun enable y hy => ?_
  cases enable with
  | false => exact safe_releaseAll hy
  | true =>
      refine safe_plain _ hy ?_ (fun z _ hz => ⟨hz, rfl⟩) horder rfl (fun _ => rfl) fun _ z hz => safe_releaseAll hz
      exact .of_plain rfl rfl (fun x hx => Option.some.inj hx ▸ hvectors) rfl fun h => by cases h

/-- Every call keeps the invariant. -/
theorem lifeOutline_starts (pdev : PciDev) : (lifeOutline pdev).Starts := by
  intro i call s t hinv hidle hst
  cases i with
  | pci =>
      have hrest : AtRest pdev s.life := hidle
      cases call with
      | probe =>
          obtain ⟨hbound, rfl⟩ := hst
          refine ⟨hinv, rfl, View.Safe.bind ?_⟩
          generalize hl : t.life = l at hrest hbound
          cases hrest with
          | bound irq => cases hbound
          | unbound ctrl =>
              refine (safe_probe hl).mono fun r u _ hu => ?_
              generalize hw : u.life = w at hu
              exact View.safe_ret (fun y => y.life = w) hw (fun _ _ hy hr _ => hr.trans hy) fun y hy _ =>
                show Probed pdev r y.life from hy ▸ hu
      | remove =>
          obtain ⟨hbound, rfl⟩ := hst
          refine ⟨hinv, rfl, View.Safe.bind ?_⟩
          generalize hl : t.life = l at hrest hbound
          cases hrest with
          | unbound ctrl => cases hbound
          | bound irq =>
              refine (safe_remove hl).mono fun _ u _ hu => ?_
              exact View.safe_ret (fun y => y.life = dropped []) hu (fun _ _ hy hr _ => hr.trans hy) fun y hy _ => hy
      | irq call => exact hst.elim
  | irq i =>
      cases call with
      | irq call =>
          obtain ⟨huio, -, rfl⟩ := hst
          refine ⟨⟨hinv.order, hinv.record, fun _ => hinv.eq_allHeld huio⟩, ⟨rfl, fun j hj => ?_⟩, View.Safe.bind ?_⟩
          · rw [Finset.mem_insert]
            exact or_iff_right hj
          · have hirq (o : Op) : True → (lifeCall (.irq o)).Each fun o : LifeOp => ∃ o', o = .irq o' :=
              fun _ => ⟨⟨o, rfl⟩, fun _ => trivial⟩
            have heach := (each_true (body call)).subst hirq
            refine (safe_irq heach (Finset.mem_insert_self i _)).mono fun r u _ hu => ?_
            exact View.safe_ret (fun y => i ∈ y.running) hu (fun _ _ hy hr _ => hr.mpr hy) fun y hy _ => hy
      | probe | remove => exact hst.elim

end Outline

/-! ## runs -/

/-- Every step has what it needs; a probe that returns `0` leaves a device with
all it takes, one that fails leaves nothing; and between the calls of the PCI
core a device is bound or has nothing. -/
structure LifeSafe (pdev : PciDev) (c : Config Actor lifeIface Device LifeRet) : Prop where
  ready : ∀ i o k, c.thread i = some (.act o k) → LifeReady c.shared.life o
  probed : ∀ r, c.thread .pci = some (.ret (.probed r)) → Probed pdev r c.shared.life
  rest : c.thread .pci = none → AtRest pdev c.shared.life

theorem lifeGood_of_reachable {pdev : PciDev} {c : Config Actor lifeIface Device LifeRet}
    (h : (lifeMachine pdev).Reachable .init c) : (lifeOutline pdev).Good c := by
  refine (lifeOutline pdev).good (lifeOutline_starts pdev) ⟨List.nil_suffix, fun hne => absurd rfl hne, fun hne => ?_⟩ ?_ h
  · obtain ⟨i, hi⟩ := hne
    exact absurd hi (Finset.notMem_empty i)
  · intro i
    cases i with
    | pci => exact .unbound 0
    | irq i => exact Finset.notMem_empty i

/-- **A device gives back what it takes**, in every interleaving of probes and
removals with handlers and calls of `irqcontrol`, whatever the kernel answers:
each thing is taken once and given back once, the latest first, and never used
outside of that. -/
theorem device_gives_back {pdev : PciDev} {c : Config Actor lifeIface Device LifeRet}
    (h : (lifeMachine pdev).Reachable .init c) : LifeSafe pdev c := by
  have hgood := lifeGood_of_reachable h
  exact ⟨fun i o k hi => hgood.pre hi, fun r hr => hgood.post hr, fun hidle => (hgood.2 .pci).1 hidle⟩

/-- An interrupt comes in before the probe is done: the device is registered,
and its interrupt not yet enabled in the registers. -/
theorem device_gives_back_interrupted : ∃ c : Config Actor lifeIface Device LifeRet,
    (lifeMachine ⟨1, fun _ => 0xfe000000, fun _ => 4096⟩).Reachable .init c ∧
    (∃ k, c.thread .pci = some (.act .setDrvdata k)) ∧ (∃ k, c.thread (.irq (.handler 0)) = some (.act (.irq .maskOnce) k)) ∧
    c.shared.life.interruptCtrl = 0 ∧ LifeSafe ⟨1, fun _ => 0xfe000000, fun _ => 4096⟩ c := by
  have hidle : (lifeMachine ⟨1, fun _ => 0xfe000000, fun _ => 4096⟩).Reachable .init ⟨.init, fun _ => none⟩ := .refl
  have hprobe := hidle.start .pci .probe rfl ⟨rfl, rfl⟩
  have hrecord := hprobe.act .pci true rfl ⟨trivial, rfl⟩
  have henabled := hrecord.act .pci (0 : Int) rfl ⟨by exact le_refl (0 : Int), rfl⟩
  have hregions := henabled.act .pci (0 : Int) rfl ⟨by exact le_refl (0 : Int), rfl⟩
  have hvectors := hregions.act .pci (1 : Int) rfl ⟨trivial, rfl⟩
  have hmapped := hvectors.act .pci true rfl ⟨trivial, rfl⟩
  have hvector := hmapped.act .pci (5 : Nat) rfl ⟨trivial, rfl⟩
  have hregistered := hvector.act .pci (0 : Int) rfl ⟨by exact le_refl (0 : Int), rfl⟩
  have hhandler := hregistered.start (.irq (.handler 0)) (.irq .irqHandler) rfl ⟨by decide, rfl, rfl⟩
  have hpending := hhandler.act (.irq (.handler 0)) (1 : UInt32) rfl ⟨⟨1, rfl⟩, rfl⟩
  exact ⟨_, hpending, ⟨_, rfl⟩, ⟨_, rfl⟩, rfl, device_gives_back hpending⟩

end Uio

end Axivc
