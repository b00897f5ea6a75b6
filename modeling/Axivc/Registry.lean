import Axivc.Lib.Rely
import Axivc.Endpoint
import Mathlib.Data.Finset.Card

/-!
# Axivc.Registry

The device registry of `ivc.c`: opening and closing a channel, and the files
of its device.

`ivc_publish_channel` and `ivc_subscribe_channel` are one function with two
sets of constants, as are `ivc_unpublish_channel` and
`ivc_unsubscribe_channel`, and the open and release callbacks of the two kinds
of devices.  `openChannel` and `closeChannel` are that function, a `Side` is a
set of constants.  The two sides have a lock, a list, a counter and records of
their own and share nothing.

A step is a section under the side's lock, a hypercall, another call into the
kernel, or one access to a device record outside the lock.  Each may be
answered in any way the kernel or the hypervisor can answer it; what is taken
for granted about the hypervisor is a `Rules`.  Besides the memory of the
driver the state keeps book: who controls a record (`Phase`), and what a call
has obtained and not yet handed over or given back (`Held`).
-/

namespace Axivc

namespace Registry

open Prog Rely

/-! ## records -/

/-- `MAX_VDEVS` -/
def maxVdevs : Nat := 16

/-- `AXIVC_SUBSCRIBE_WAIT_MS` -/
def subscribeWaitMs : Nat := 10000

/-- `snprintf` into a buffer of `MAX_IVC_DEV_NAME_LENGTH`, the size of every
name here. -/
def snprintf (s : String) : String := String.ofList (s.toList.take 63)

/-- `struct axivc_publisher_vdev` and `struct axivc_subscriber_vdev`, for
channels that are named by a key, or by a publisher and a key. -/
structure Vdev (Chan : Type) where
  name : String
  id : Nat
  active : Bool
  removing : Bool
  channel : Chan
  shmBase : UInt64
  shmSize : UInt64
  mappedShmBase : Option Nat
  /-- the mapping whose rings the endpoint has been set up with -/
  endpoint : Option Nat

/-- What `kzalloc` returns. -/
def Vdev.zeroed {Chan : Type} [Inhabited Chan] : Vdev Chan :=
  ⟨"", 0, false, false, default, 0, 0, none, none⟩

/-- Stores to a record outside the lock. -/
inductive VdevStore (Chan : Type) where
  | name (name : String)
  | id (id : Nat)
  | channel (chan : Chan)
  | shmBase (base : UInt64)
  | shmSize (size : UInt64)
  | mappedShmBase (m : Nat)
  | endpoint (m : Nat)

/-- A store. -/
def Vdev.store {Chan : Type} (d : Vdev Chan) : VdevStore Chan → Vdev Chan
  | .name name => { d with name := name }
  | .id id => { d with id := id }
  | .channel chan => { d with channel := chan }
  | .shmBase base => { d with shmBase := base }
  | .shmSize size => { d with shmSize := size }
  | .mappedShmBase m => { d with mappedShmBase := some m }
  | .endpoint m => { d with endpoint := some m }

/-- Where a record is in its life, and the call that controls it meanwhile: a
call builds and registers it and puts it on the list; a call that closes its
channel marks it, withdraws the channel from the hypervisor, deregisters the
device, takes the record off the list, drops the mapping and frees it. -/
inductive Phase where
  | building (i : Nat)
  | registered (i : Nat)
  | listed
  | removing (i : Nat)
  | withdrawn (i : Nat)
  | deregistered (i : Nat)
  | unlisted (i : Nat)
  | unmapped (i : Nat)
  deriving DecidableEq

namespace Phase

/-- The call that controls a record. -/
def thread : Phase → Option Nat
  | building i | registered i | removing i | withdrawn i | deregistered i | unlisted i | unmapped i => some i
  | listed => none

/-- The record is on the list. -/
def onList : Phase → Bool
  | listed | removing _ | withdrawn _ | deregistered _ => true
  | _ => false

/-- The device is registered. -/
def isRegistered : Phase → Bool
  | registered _ | listed | removing _ | withdrawn _ => true
  | _ => false

/-- The device may be open. -/
def mayOpen : Phase → Bool
  | registered _ | listed => true
  | _ => false

/-- The record is marked as being removed. -/
def isRemoving : Phase → Bool
  | building _ | registered _ | listed => false
  | _ => true

/-- The record stands for its channel at the hypervisor. -/
def hasKey : Phase → Bool
  | listed | removing _ => true
  | _ => false

/-- The record stands for its mapping. -/
def hasMapping : Phase → Bool
  | listed | removing _ | withdrawn _ | deregistered _ | unlisted _ => true
  | _ => false

/-- The device has been registered and is so no more. -/
def isGone : Phase → Bool
  | deregistered _ | unlisted _ | unmapped _ => true
  | _ => false

/-- The record has never been on the list. -/
def isNew : Phase → Bool
  | building _ | registered _ => true
  | _ => false

end Phase

/-- A piece of memory that `kzalloc` may hand out, once. -/
inductive Cell (Chan : Type) where
  | unused
  | live (d : Vdev Chan) (p : Phase)
  | freed

/-- What a call has obtained and not handed over or given back: a channel at
the hypervisor, a mapping, the record it controls; the record whose name it has
still to copy, and the name it has registered. -/
structure Held (Chan : Type) where
  channel : Option Chan
  mapping : Option Nat
  vdev : Option Nat
  naming : Option Nat
  registered : String

/-- Nothing. -/
def Held.nothing {Chan : Type} : Held Chan := ⟨none, none, none, none, ""⟩

/-! ## files -/

/-- A `struct file` of a device: its open callback runs and has not, or has,
marked the device; it is open and the calls in `io` read or write through it;
its release callback runs. -/
inductive FileStage where
  | opening (i : Nat)
  | acquired (i : Nat)
  | usable (io : Finset Nat)
  | releasing (i : Nat)

/-- The device is open through the file. -/
def FileStage.isOpen : FileStage → Bool
  | opening _ => false
  | _ => true

/-- The open callback is running. -/
def FileStage.isRunning : FileStage → Bool
  | opening _ | acquired _ => true
  | _ => false

structure File where
  vdev : Nat
  stage : FileStage

/-! ## the state -/

/-- The hypervisor's channels, the mappings, and one side of the driver: its
list, its counter, the next id, the records, the files; for each call what it
holds, and the calls that have a place reserved. -/
structure State (Chan : Type) where
  keys : Finset Chan
  mapped : Finset Nat
  list : List Nat
  count : Int
  nextId : Nat
  heap : Nat → Cell Chan
  files : Nat → Option File
  held : Nat → Held Chan
  reserved : Finset Nat

/-- What the walk over the list finds. -/
inductive Found where
  | missing
  | busy
  | taken (v : Nat)

namespace State

variable {Chan : Type} [DecidableEq Chan]

/-- The module has just been loaded. -/
def init : State Chan := ⟨∅, ∅, [], 0, 0, fun _ => .unused, fun _ => none, fun _ => .nothing, ∅⟩

/-- Change a record that is allocated. -/
def onVdev (s : State Chan) (v : Nat) (f : Vdev Chan → Vdev Chan) (g : Phase → Phase) : State Chan :=
  match s.heap v with
  | .live d p => { s with heap := Function.update s.heap v (.live (f d) (g p)) }
  | _ => s

/-- Change what a call holds. -/
def onHeld (s : State Chan) (i : Nat) (f : Held Chan → Held Chan) : State Chan :=
  { s with held := Function.update s.held i (f (s.held i)) }

/-- Change a file. -/
def setFile (s : State Chan) (f : Nat) (file : Option File) : State Chan :=
  { s with files := Function.update s.files f file }

/-- The comparison of the walk. -/
def hasChannel (s : State Chan) (chan : Chan) (v : Nat) : Bool :=
  match s.heap v with
  | .live d _ => d.channel = chan
  | _ => false

/-- `list_for_each_entry` in the close functions, up to the first record of the
channel. -/
def walk (s : State Chan) (chan : Chan) : Found :=
  match s.list.find? (s.hasChannel chan) with
  | none => .missing
  | some v =>
      match s.heap v with
      | .live d _ => if d.active || d.removing then .busy else .taken v
      | _ => .busy

/-- The test of the open callbacks. -/
def tryOpen (s : State Chan) (v : Nat) : Except Errno Unit :=
  match s.heap v with
  | .live d _ =>
      if d.active || d.removing then .error (if d.removing then .ENODEV else .EBUSY) else .ok ()
  | _ => .error .ENODEV

end State

/-! ## operations -/

/-- The steps of the driver on one side. -/
inductive Op (Chan : Type) where
  | kzallocOutput
  | kva2pa
  | hvcOpen (chan : Chan) (size : UInt64)
  | loadOutput
  | kfreeOutput
  | memremap (base size : UInt64)
  | regionInitPublisher (m : Nat) (size : UInt64) (chan : Chan)
  | regionValidate (m : Nat) (size : UInt64) (chan : Chan)
  | jiffies
  | msecsToJiffies (ms : Nat)
  | msleepInterruptible (ms : Nat)
  | kzallocVdev
  /-- under the lock: the test for a free place, the id, the counter -/
  | reserve
  /-- under the lock: the counter -/
  | unreserve
  | store (v : Nat) (field : VdevStore Chan)
  | miscRegister (v : Nat)
  /-- under the lock -/
  | listAddTail (v : Nat)
  | loadName (v : Nat)
  | memunmap (m : Option Nat)
  | hvcRollback (chan : Chan)
  | kfree (v : Nat)
  /-- under the lock: the walk, the test of the flags, the mark -/
  | beginRemoval (chan : Chan)
  | hvcClose (chan : Chan)
  /-- under the lock: the mark is taken back -/
  | endRemoval (v : Nat)
  | miscDeregister (v : Nat)
  /-- under the lock: the list and the counter -/
  | listDel (v : Nat)
  | loadMapped (v : Nat)
  /-- under the lock: the test of the flags, the mark of an open device -/
  | activate (f v : Nat)
  | loadActive (v : Nat)
  | useEndpoint (v : Nat)
  /-- under the lock -/
  | deactivate (f v : Nat)

/-- The answers: an allocation may fail, a hypercall answers its verdict. -/
@[reducible] def iface (Chan : Type) : Iface where
  Op := Op Chan
  Res
    | .kzallocOutput => Bool
    | .kva2pa | .hvcOpen _ _ | .hvcRollback _ | .hvcClose _ | .jiffies | .msecsToJiffies _ => UInt64
    | .msleepInterruptible _ => Nat
    | .loadOutput => UInt64 × UInt64
    | .memremap _ _ | .kzallocVdev | .reserve | .loadMapped _ => Option Nat
    | .regionInitPublisher _ _ _ | .regionValidate _ _ _ | .miscRegister _ | .activate _ _ => Except Errno Unit
    | .loadName _ => String
    | .beginRemoval _ => Found
    | .loadActive _ => Bool
    | _ => Unit

/-- One operation as a program. -/
abbrev call {Chan : Type} (o : Op Chan) : Prog (iface Chan) ((iface Chan).Res o) := op (I := iface Chan) o

/-- `err = hvc_..(..); if (err)` with `int err`: the low half of the verdict
decides. -/
def hvcFailed (verdict : UInt64) : Bool := verdict.toUInt32 ≠ 0

/-! ## the programs -/

/-- Steps that leave the registry alone. -/
def Quiet {Chan : Type} : Op Chan → Prop
  | .regionInitPublisher .. | .regionValidate .. | .jiffies | .msecsToJiffies _ | .msleepInterruptible _ => True
  | _ => False

/-- The constants of a side: the prefix of its device names, and how it makes
sure of a region it has mapped. -/
structure Side (Chan : Type) where
  devNamePrefix : String
  prepare : Chan → Nat → UInt64 → Nat → Prog (iface Chan) (Except Errno Unit)
  quiet : ∀ chan m size iterations, (prepare chan m size iterations).Each Quiet

section Programs

variable {Chan : Type}

/-- `rollback_channel:` -/
def rollbackChannel (chan : Chan) (error : Errno) : Prog (iface Chan) (Except Errno String) := do
  let _ ← call (.hvcRollback chan)
  pure (.error error)

/-- `unmap_region:` -/
def unmapRegion (m : Nat) (chan : Chan) (error : Errno) : Prog (iface Chan) (Except Errno String) := do
  call (.memunmap (some m))
  rollbackChannel chan error

/-- Fill in a new record, register its device and put it on the list. -/
def registerVdev (side : Side Chan) (chan : Chan) (m : Nat) (shmBase shmSize : UInt64) (v id : Nat) :
    Prog (iface Chan) (Except Errno String) := do
  call (.store v (.name (snprintf (side.devNamePrefix ++ toString id))))
  call (.store v (.id id))
  call (.store v (.channel chan))
  call (.store v (.shmBase shmBase))
  call (.store v (.shmSize shmSize))
  call (.store v (.mappedShmBase m))
  call (.store v (.endpoint m))
  match ← call (.miscRegister v) with
  | .error e =>
      call .unreserve
      call (.kfree v)
      unmapRegion m chan e
  | .ok () =>
      call (.listAddTail v)
      let name : String ← call (.loadName v)
      pure (.ok (snprintf ("/dev/" ++ name)))

/-- Allocate a record for a prepared region, and a place on the list. -/
def createVdev (side : Side Chan) (chan : Chan) (m : Nat) (shmBase shmSize : UInt64) :
    Prog (iface Chan) (Except Errno String) := do
  match ← call .kzallocVdev with
  | none => unmapRegion m chan .ENOMEM
  | some v =>
      match ← call .reserve with
      | none =>
          call (.kfree v)
          unmapRegion m chan .ENOSPC
      | some id => registerVdev side chan m shmBase shmSize v id

/-- Map the region of a channel the hypervisor has granted. -/
def mapChannel (side : Side Chan) (chan : Chan) (iterations : Nat) (shmBase shmSize : UInt64) :
    Prog (iface Chan) (Except Errno String) := do
  match ← call (.memremap shmBase shmSize) with
  | none => rollbackChannel chan .ENOMEM
  | some m =>
      match ← side.prepare chan m shmSize iterations with
      | .error e => unmapRegion m chan e
      | .ok () => createVdev side chan m shmBase shmSize

/-- The body of `ivc_publish_channel` and `ivc_subscribe_channel`. -/
def openChannel (side : Side Chan) (chan : Chan) (expectedShmSize : UInt64) (iterations : Nat) :
    Prog (iface Chan) (Except Errno String) := do
  let allocated ← call .kzallocOutput
  if !allocated then
    pure (.error .ENOMEM)
  else
    let shmBasePtr : UInt64 ← call .kva2pa
    let shmSizePtr : UInt64 ← call .kva2pa
    if shmBasePtr = ~~~0 ∨ shmSizePtr = ~~~0 then
      call .kfreeOutput
      pure (.error .EFAULT)
    else
      let verdict : UInt64 ← call (.hvcOpen chan expectedShmSize)
      if hvcFailed verdict then
        call .kfreeOutput
        pure (.error Errno.EIO)
      else
        let output : UInt64 × UInt64 ← call .loadOutput
        call .kfreeOutput
        mapChannel side chan iterations output.1 output.2

/-- The body of `ivc_unpublish_channel` and `ivc_unsubscribe_channel`. -/
def closeChannel (chan : Chan) : Prog (iface Chan) (Except Errno Unit) := do
  match ← call (.beginRemoval chan) with
  | .missing => pure (.error .ENOENT)
  | .busy => pure (.error .EBUSY)
  | .taken v =>
      let verdict : UInt64 ← call (.hvcClose chan)
      if hvcFailed verdict then
        call (.endRemoval v)
        pure (.error Errno.EIO)
      else
        call (.miscDeregister v)
        call (.listDel v)
        let m : Option Nat ← call (.loadMapped v)
        call (.memunmap m)
        call (.kfree v)
        pure (.ok ())

/-- `axivc_publisher_open`, `axivc_subscriber_open` -/
def openFile (f v : Nat) : Prog (iface Chan) (Except Errno Unit) := call (.activate f v)

/-- The endpoint is used `n` times, to send or to receive. -/
def useEndpoint (v : Nat) : Nat → Prog (iface Chan) Unit
  | 0 => pure ()
  | n + 1 => do
      call (.useEndpoint v)
      useEndpoint v n

/-- `axivc_publisher_read`, `axivc_publisher_write`, `axivc_subscriber_read`,
`axivc_subscriber_write` -/
def fileIo (v n : Nat) : Prog (iface Chan) (Except Errno Unit) := do
  let active ← call (.loadActive v)
  if !active then
    pure (.error .ENODEV)
  else
    useEndpoint v n
    pure (.ok ())

/-- `axivc_publisher_release`, `axivc_subscriber_release` -/
def releaseFile (f v : Nat) : Prog (iface Chan) Unit := call (.deactivate f v)

end Programs

/-! ## the two sides -/

/-- The publisher side: a region is initialised. -/
def publisherSide : Side UInt64 where
  devNamePrefix := "axivc_publisher_"
  prepare key m size _ := call (.regionInitPublisher m size key)
  quiet _ _ _ _ := ⟨trivial, fun _ => trivial⟩

/-- `err == -EAGAIN` -/
def isAgain : Except Errno Unit → Bool
  | .error .EAGAIN => true
  | _ => false

/-- The validation loop of `ivc_subscribe_channel`. -/
def validateLoop (chan : UInt64 × UInt64) (m : Nat) (size deadline : UInt64) :
    Nat → Prog (iface (UInt64 × UInt64)) (Except Errno Unit)
  | 0 => .spin
  | iterations + 1 => do
      let result : Except Errno Unit ← call (.regionValidate m size chan)
      if isAgain result then
        let now : UInt64 ← call .jiffies
        if timeAfterEq now deadline then
          pure result
        else
          let left : Nat ← call (.msleepInterruptible pollIntervalMs)
          if left ≠ 0 then pure (.error .ERESTARTSYS) else validateLoop chan m size deadline iterations
      else pure result

theorem validateLoop_quiet (chan : UInt64 × UInt64) (m : Nat) (size deadline : UInt64) (iterations : Nat) :
    (validateLoop chan m size deadline iterations).Each Quiet := by
  induction iterations with
  | zero => trivial
  | succ iterations ih =>
      refine ⟨trivial, fun result => ?_⟩
      change Each (I := iface _) Quiet (ite (isAgain result = true) _ _)
      split
      · refine ⟨trivial, fun now => ?_⟩
        change Each (I := iface _) Quiet (ite (timeAfterEq now deadline = true) _ _)
        split
        · trivial
        · refine ⟨trivial, fun left => ?_⟩
          change Each (I := iface _) Quiet (ite (left ≠ 0) _ _)
          split
          · trivial
          · exact ih
      · trivial

/-- The subscriber side: a region is validated, for as long as the publisher
may take to initialise it. -/
def subscriberSide : Side (UInt64 × UInt64) where
  devNamePrefix := "axivc_subscriber_"
  prepare chan m size iterations := do
    let now : UInt64 ← call .jiffies
    let wait : UInt64 ← call (.msecsToJiffies subscribeWaitMs)
    validateLoop chan m size (now + wait) iterations
  quiet chan m size iterations :=
    ⟨trivial, fun _ => ⟨trivial, fun _ => validateLoop_quiet chan m size _ iterations⟩⟩

/-- `ivc_publish_channel` -/
def ivcPublishChannel (channelKey expectedShmSize : UInt64) : Prog (iface UInt64) (Except Errno String) :=
  openChannel publisherSide channelKey expectedShmSize 0

/-- `ivc_unpublish_channel` -/
def ivcUnpublishChannel (channelKey : UInt64) : Prog (iface UInt64) (Except Errno Unit) := closeChannel channelKey

/-- `ivc_subscribe_channel` -/
def ivcSubscribeChannel (publisherId key : UInt64) (iterations : Nat) :
    Prog (iface (UInt64 × UInt64)) (Except Errno String) :=
  openChannel subscriberSide (publisherId, key) 0 iterations

/-- `ivc_unsubscribe_channel` -/
def ivcUnsubscribeChannel (publisherId key : UInt64) : Prog (iface (UInt64 × UInt64)) (Except Errno Unit) :=
  closeChannel (publisherId, key)

/-! ## the machine -/

/-- What is taken for granted: which verdicts the hypervisor may answer, given
the channels it has, and when a record may be freed. -/
structure Rules (Chan : Type) where
  opens : Finset Chan → Chan → UInt64 → Prop
  closes : Finset Chan → Chan → UInt64 → Prop
  rollsBack : Finset Chan → Chan → UInt64 → Prop
  frees : State Chan → Nat → Prop

section Machine

variable {Chan : Type} [DecidableEq Chan] [Inhabited Chan]

/-- The answers a step may get.  A mapping and a record are new; what is read
from an allocated record is what is there; a device is deregistered when no
open callback runs on it. -/
def Allowed (rules : Rules Chan) (s : State Chan) : (o : Op Chan) → (iface Chan).Res o → Prop
  | .hvcOpen chan _, verdict => rules.opens s.keys chan verdict
  | .hvcRollback chan, verdict => rules.rollsBack s.keys chan verdict
  | .hvcClose chan, verdict => rules.closes s.keys chan verdict
  | .memremap _ _, m => ∀ n, m = some n → n ∉ s.mapped
  | .kzallocVdev, v => ∀ n, v = some n → s.heap n = .unused
  | .reserve, id => id = if s.count ≥ maxVdevs then none else some s.nextId
  | .loadName v, name => ∀ d p, s.heap v = .live d p → name = d.name
  | .loadMapped v, m => ∀ d p, s.heap v = .live d p → m = d.mappedShmBase
  | .loadActive v, active => ∀ d p, s.heap v = .live d p → active = d.active
  | .kfree v, _ => rules.frees s v
  | .beginRemoval chan, found => found = s.walk chan
  | .activate _ v, result => result = s.tryOpen v
  | .miscDeregister v, _ => ∀ f file, s.files f = some file → file.vdev = v → file.stage.isRunning = false
  | _, _ => True

/-- The name in a record. -/
def State.nameOf (s : State Chan) (v : Nat) : String :=
  match s.heap v with
  | .live d _ => d.name
  | _ => ""

/-- The state after a step of call `i`. -/
def after (i : Nat) (s : State Chan) : (o : Op Chan) → (iface Chan).Res o → State Chan
  | .hvcOpen chan _, verdict =>
      { s with keys := if verdict = 0 then insert chan s.keys else s.keys }.onHeld i fun h =>
        { h with channel := if hvcFailed verdict then h.channel else some chan }
  | .memremap _ _, some m =>
      { s with mapped := insert m s.mapped }.onHeld i fun h => { h with mapping := some m }
  | .kzallocVdev, some v =>
      { s with heap := Function.update s.heap v (.live .zeroed (.building i)) }.onHeld i fun h => { h with vdev := some v }
  | .reserve, some _ =>
      { s with count := s.count + 1, nextId := s.nextId + 1, reserved := insert i s.reserved }
  | .unreserve, _ => { s with count := s.count - 1, reserved := s.reserved.erase i }
  | .store v field, _ => s.onVdev v (·.store field) id
  | .miscRegister v, .ok () =>
      (s.onVdev v id fun _ => .registered i).onHeld i fun h => { h with registered := s.nameOf v }
  | .listAddTail v, _ =>
      { s with list := s.list ++ [v], reserved := s.reserved.erase i }.onVdev v id (fun _ => .listed)
        |>.onHeld i fun h => { h with channel := none, mapping := none, vdev := none, naming := some v }
  | .loadName _, _ => s.onHeld i fun h => { h with naming := none }
  | .memunmap m, _ =>
      let s := { s with mapped := s.mapped.filter fun n => m ≠ some n }
      match (s.held i).vdev with
      | some v => s.onVdev v id fun _ => .unmapped i
      | none => s.onHeld i fun h => { h with mapping := none }
  | .hvcRollback chan, verdict =>
      { s with keys := if verdict = 0 then s.keys.erase chan else s.keys }.onHeld i fun h => { h with channel := none }
  | .kfree v, _ =>
      { s with heap := Function.update s.heap v .freed }.onHeld i fun h => { h with vdev := none }
  | .beginRemoval _, .taken v =>
      (s.onVdev v (fun d => { d with removing := true }) fun _ => .removing i).onHeld i fun h => { h with vdev := some v }
  | .hvcClose chan, verdict =>
      let s := { s with keys := if verdict = 0 then s.keys.erase chan else s.keys }
      match hvcFailed verdict, (s.held i).vdev with
      | false, some v => s.onVdev v id fun _ => .withdrawn i
      | _, _ => s
  | .endRemoval v, _ =>
      (s.onVdev v (fun d => { d with removing := false }) fun _ => .listed).onHeld i fun h => { h with vdev := none }
  | .miscDeregister v, _ => s.onVdev v id fun _ => .deregistered i
  | .listDel v, _ =>
      { s with list := s.list.erase v, count := s.count - 1 }.onVdev v id fun _ => .unlisted i
  | .activate f v, .ok () =>
      (s.onVdev v (fun d => { d with active := true }) id).setFile f (some ⟨v, .acquired i⟩)
  | .deactivate f v, _ => (s.onVdev v (fun d => { d with active := false }) id).setFile f none
  | _, _ => s

section After

variable (i v : Nat) (s : State Chan)

theorem after_hvcOpen (chan : Chan) (size verdict : UInt64) : after i s (.hvcOpen chan size) verdict =
    { s with keys := if verdict = 0 then insert chan s.keys else s.keys }.onHeld i fun h =>
      { h with channel := if hvcFailed verdict then h.channel else some chan } := rfl

theorem after_hvcRollback (chan : Chan) (verdict : UInt64) : after i s (.hvcRollback chan) verdict =
    { s with keys := if verdict = 0 then s.keys.erase chan else s.keys }.onHeld i fun h =>
      { h with channel := none } := rfl

theorem after_memremap (base size : UInt64) (m : Nat) : after i s (.memremap base size) (some m) =
    { s with mapped := insert m s.mapped }.onHeld i fun h => { h with mapping := some m } := rfl

theorem after_kzallocVdev : after i s .kzallocVdev (some v) =
    { s with heap := Function.update s.heap v (.live .zeroed (.building i)) }.onHeld i fun h =>
      { h with vdev := some v } := rfl

theorem after_reserve (id : Nat) : after i s .reserve (some id) =
    { s with count := s.count + 1, nextId := s.nextId + 1, reserved := insert i s.reserved } := rfl

theorem after_unreserve : after i s .unreserve () =
    { s with count := s.count - 1, reserved := s.reserved.erase i } := rfl

theorem after_store (field : VdevStore Chan) : after i s (.store v field) () = s.onVdev v (·.store field) id := rfl

theorem after_miscRegister : after i s (.miscRegister v) (.ok ()) =
    (s.onVdev v id fun _ => .registered i).onHeld i fun h => { h with registered := s.nameOf v } := rfl

theorem after_listAddTail : after i s (.listAddTail v) () =
    ({ s with list := s.list ++ [v], reserved := s.reserved.erase i }.onVdev v id fun _ => .listed).onHeld i fun h =>
      { h with channel := none, mapping := none, vdev := none, naming := some v } := rfl

theorem after_loadName (name : String) : after i s (.loadName v) name =
    s.onHeld i fun h => { h with naming := none } := rfl

theorem after_beginRemoval (chan : Chan) : after i s (.beginRemoval chan) (.taken v) =
    (s.onVdev v (fun d => { d with removing := true }) fun _ => .removing i).onHeld i fun h =>
      { h with vdev := some v } := rfl

theorem after_endRemoval : after i s (.endRemoval v) () =
    (s.onVdev v (fun d => { d with removing := false }) fun _ => .listed).onHeld i fun h =>
      { h with vdev := none } := rfl

theorem after_miscDeregister : after i s (.miscDeregister v) () = s.onVdev v id fun _ => .deregistered i := rfl

theorem after_listDel : after i s (.listDel v) () =
    { s with list := s.list.erase v, count := s.count - 1 }.onVdev v id fun _ => .unlisted i := rfl

theorem after_activate (f : Nat) : after i s (.activate f v) (.ok ()) =
    (s.onVdev v (fun d => { d with active := true }) id).setFile f (some ⟨v, .acquired i⟩) := rfl

theorem after_deactivate (f : Nat) : after i s (.deactivate f v) () =
    (s.onVdev v (fun d => { d with active := false }) id).setFile f none := rfl

/-- A call that controls a record drops the mapping of the record, one that
controls none its own. -/
theorem after_memunmap (m : Option Nat) : after i s (.memunmap m) () =
    match (s.held i).vdev with
    | some v => { s with mapped := s.mapped.filter fun n => m ≠ some n }.onVdev v id fun _ => .unmapped i
    | none => { s with mapped := s.mapped.filter fun n => m ≠ some n }.onHeld i fun h => { h with mapping := none } := rfl

/-- A withdrawn channel is one whose verdict the driver reads as a success. -/
theorem after_hvcClose (chan : Chan) (verdict : UInt64) : after i s (.hvcClose chan) verdict =
    match hvcFailed verdict, (s.held i).vdev with
    | false, some v => { s with keys := if verdict = 0 then s.keys.erase chan else s.keys }.onVdev v id fun _ => .withdrawn i
    | _, _ => { s with keys := if verdict = 0 then s.keys.erase chan else s.keys } := rfl

end After

/-- The calls of a side. -/
inductive Call (Chan : Type) where
  | openChannel (chan : Chan) (expectedShmSize : UInt64) (iterations : Nat)
  | closeChannel (chan : Chan)
  | openFile (f v : Nat)
  | fileIo (f v n : Nat)
  | releaseFile (f v : Nat)

/-- What they return. -/
inductive Ret where
  | opened (result : Except Errno String)
  | closed (result : Except Errno Unit)
  | fileOpened (f v : Nat) (result : Except Errno Unit)
  | fileDone (f v : Nat) (result : Except Errno Unit)
  | fileReleased

/-- The program of a call. -/
def body (side : Side Chan) : Call Chan → Prog (iface Chan) Ret
  | .openChannel chan size iterations => openChannel side chan size iterations >>= fun r => .ret (.opened r)
  | .closeChannel chan => closeChannel chan >>= fun r => .ret (.closed r)
  | .openFile f v => openFile f v >>= fun r => .ret (.fileOpened f v r)
  | .fileIo f v n => fileIo v n >>= fun r => .ret (.fileDone f v r)
  | .releaseFile f v => releaseFile f v >>= fun _ => .ret .fileReleased

/-- A call begins.  The misc layer runs an open callback on registered devices
only, with a file of its own; reads and writes go through an open file; the
release callback runs once, after all of them have ended. -/
def Begins (i : Nat) (s t : State Chan) : Call Chan → Prop
  | .openFile f v => (∃ d p, s.heap v = .live d p ∧ p.isRegistered = true) ∧ s.files f = none ∧
      t = s.setFile f (some ⟨v, .opening i⟩)
  | .fileIo f v _ => ∃ io, s.files f = some ⟨v, .usable io⟩ ∧ t = s.setFile f (some ⟨v, .usable (insert i io)⟩)
  | .releaseFile f v => s.files f = some ⟨v, .usable ∅⟩ ∧ t = s.setFile f (some ⟨v, .releasing i⟩)
  | _ => t = s.onHeld i fun _ => .nothing

/-- A call ends: a file is open when its open callback has succeeded, and gone
when it has failed. -/
def ends (i : Nat) (s : State Chan) : Ret → State Chan
  | .fileOpened f v (.ok _) => s.setFile f (some ⟨v, .usable ∅⟩)
  | .fileOpened f _ (.error _) => s.setFile f none
  | .fileDone f v _ =>
      match s.files f with
      | some ⟨_, .usable io⟩ => s.setFile f (some ⟨v, .usable (io.erase i)⟩)
      | _ => s
  | _ => s

/-- Any number of calls on one side, at single steps. -/
def machine (side : Side Chan) (rules : Rules Chan) : Machine Nat (iface Chan) (State Chan) (Call Chan) Ret where
  body _ call _ := body side call
  exec i o s r t := Allowed rules s o r ∧ t = after i s o r
  start i call s t := Begins i s t call
  finish i r s t := t = ends i s r
  env _ _ := False

end Machine

end Registry

end Axivc
