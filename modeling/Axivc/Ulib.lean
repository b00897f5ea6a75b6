import Mathlib.Logic.Function.Basic
import Axivc.Lib.Trace

/-!
# Axivc.Ulib

The endpoints of the user-space library (`ivc_ulib.c`).

The library opens and tears down endpoints through calls of the C library that
may each fail.  A failing call leaves its error in `errno`, and so may every
call that logs, so the library saves `errno` before it does anything else.
The heap is explicit: memory that has been freed has no contents, and nothing
is known of a program that touches it.

`Opened`, `TornDown` and `Closed` say everything a call of the library can do;
`Axivc.UlibRuns` is about sequences of such calls.
-/

namespace Axivc

namespace Ulib

open Prog

/-! ## memory -/

/-- A pointer; `0` is `NULL`. -/
abbrev Ptr : Type := UInt64

/-- What a failing call leaves in `errno`. -/
abbrev ErrorCode : Type := { e : Int32 // e ≠ 0 }

def EINVAL : Int32 := 22

def EBUSY : Int32 := 16

/-- `MAX_IVC_DEV_NAME_LENGTH` -/
def maxIvcDevNameLength : Nat := 64

abbrev DeviceName : Type := Vector UInt8 maxIvcDevNameLength

/-- The fields of `ivc_publish_arg_t` and of `ivc_subscribe_arg_t` that name
the channel. -/
inductive Channel where
  | published (channelKey channelSize : UInt64)
  | subscribed (targetPublisherId channelKey : UInt64)
  deriving DecidableEq

/-- `ivc_publish_arg_t` or `ivc_subscribe_arg_t` -/
structure Arg where
  channel : Channel
  deviceName : DeviceName
  deriving DecidableEq

/-- `ivc_manager_t` -/
structure Manager where
  fd : Int
  activeEndpoints : UInt64
  deriving DecidableEq

/-- `ivc_subscriber_t` or `ivc_publisher_t` -/
structure Endpoint where
  manager : Ptr
  arg : Arg
  fd : Int
  bytesReceived : UInt64
  bytesSent : UInt64
  deriving DecidableEq

/-- The two kinds of endpoints. -/
inductive Kind where
  | subscriber
  | publisher
  deriving DecidableEq

/-- The contents of an allocation. -/
inductive Block where
  | manager (m : Manager)
  | endpoint (k : Kind) (e : Endpoint)
  deriving DecidableEq

/-- The memory of the process. -/
structure State where
  errno : Int32
  heap : Ptr → Option Block

/-! ## calls of the C library -/

/-- The requests of `ioctl_args.h`. -/
inductive Request where
  | publishChannel
  | unpublishChannel
  | subscribeChannel
  | unsubscribeChannel
  deriving DecidableEq

/-- What the library prints. -/
inductive Message where
  | underflow (operation : String)
  | allocManager
  | openManager
  | invalidClose
  | activeEndpoints (count : UInt64)
  | closeManager
  | invalidManager (k : Kind)
  | alloc (k : Kind)
  | create (k : Kind)
  | openDevice (k : Kind)
  | rollback (k : Kind)
  | invalidEndpoint (k : Kind)
  | closeDevice (k : Kind)
  | remove (k : Kind)
  deriving DecidableEq

def Message.text : Message → String
  | .underflow operation => "IVC manager endpoint count underflow during " ++ operation ++ "\n"
  | .allocManager => "Failed to allocate memory for IVC manager"
  | .openManager => "Failed to open IVC device"
  | .invalidClose => "Invalid IVC manager for close\n"
  | .activeEndpoints count => "Cannot close IVC manager with " ++ toString count ++ " active endpoint(s)\n"
  | .closeManager => "Failed to close IVC device"
  | .invalidManager .subscriber => "Invalid IVC manager for subscribe\n"
  | .invalidManager .publisher => "Invalid IVC manager for publish\n"
  | .alloc .subscriber => "Failed to allocate memory for subscriber"
  | .alloc .publisher => "Failed to allocate memory for publisher"
  | .create .subscriber => "Failed to subscribe to channel"
  | .create .publisher => "Failed to publish channel"
  | .openDevice .subscriber => "Failed to open subscriber device"
  | .openDevice .publisher => "Failed to open publisher device"
  | .rollback .subscriber => "Failed to roll back subscription after device open failure"
  | .rollback .publisher => "Failed to roll back publication after device open failure"
  | .invalidEndpoint .subscriber => "Invalid subscriber for ivc_unsubscribe\n"
  | .invalidEndpoint .publisher => "Invalid publisher for ivc_unpublish\n"
  | .closeDevice .subscriber => "Failed to close subscriber device"
  | .closeDevice .publisher => "Failed to close publisher device"
  | .remove .subscriber => "Failed to unsubscribe from channel"
  | .remove .publisher => "Failed to unpublish channel"

/-- How a system call ends. -/
inductive SysRet where
  | ok (value : Nat)
  | fails (e : ErrorCode)
  deriving DecidableEq

/-- The value a system call returns. -/
def SysRet.ret : SysRet → Int
  | .ok value => value
  | .fails _ => -1

/-- Accesses to the heap and to `errno`, and calls of the C library.  An
`ioctl` reads its argument and writes it back. -/
inductive Op where
  | malloc
  | free (p : Ptr)
  | loadManager (p : Ptr)
  | storeManager (p : Ptr) (m : Manager)
  | loadEndpoint (k : Kind) (p : Ptr)
  | storeEndpoint (k : Kind) (p : Ptr) (e : Endpoint)
  | openFile (path : List UInt8)
  | ioctl (fd : Int) (request : Request) (arg : Arg)
  | close (fd : Int)
  | perror (message : Message)
  | fprintf (message : Message)
  | loadErrno
  | storeErrno (e : Int32)
  deriving DecidableEq

@[reducible] def libc : Iface where
  Op := Op
  Res
    | .malloc => Ptr
    | .loadManager _ => Manager
    | .loadEndpoint _ _ => Endpoint
    | .openFile _ | .close _ => SysRet
    | .ioctl _ _ _ => SysRet × Arg
    | .loadErrno => Int32
    | _ => Unit

abbrev lib (o : Op) : Prog libc (libc.Res o) := op (I := libc) o

/-- The error of a system call that has failed is in `errno`. -/
def SysRet.Reported (r : SysRet) (s : State) : Prop := ∀ e, r = .fails e → s.errno = e

/-- A system call that fails sets `errno`; one that does not may change it. -/
def SysRet.Leaves (r : SysRet) (s s' : State) : Prop := s'.heap = s.heap ∧ r.Reported s'

/-- What the calls do.  Nothing is said of an access to memory that is not
allocated. -/
def Does : (o : Op) → State → libc.Res o → State → Prop
  | .malloc, s, p, s' =>
      (p = 0 ∧ s'.heap = s.heap) ∨
        (p ≠ 0 ∧ s.heap p = none ∧ ∃ b, s'.heap = Function.update s.heap p (some b))
  | .free p, s, _, s' => s.heap p ≠ none → s'.heap = Function.update s.heap p none
  | .loadManager p, s, m, s' => ∀ m', s.heap p = some (.manager m') → m = m' ∧ s' = s
  | .storeManager p m, s, _, s' =>
      s.heap p ≠ none → s' = { s with heap := Function.update s.heap p (some (.manager m)) }
  | .loadEndpoint k p, s, e, s' => ∀ e', s.heap p = some (.endpoint k e') → e = e' ∧ s' = s
  | .storeEndpoint k p e, s, _, s' =>
      s.heap p ≠ none → s' = { s with heap := Function.update s.heap p (some (.endpoint k e)) }
  | .openFile _, s, r, s' => r.Leaves s s'
  -- The driver fills in the name of the device and leaves the channel as it is.
  | .ioctl _ _ arg, s, r, s' => r.2.channel = arg.channel ∧ r.1.Leaves s s'
  | .close _, s, r, s' => r.Leaves s s'
  | .perror _, s, _, s' => s'.heap = s.heap
  | .fprintf _, s, _, s' => s'.heap = s.heap
  | .loadErrno, s, e, s' => e = s.errno ∧ s' = s
  | .storeErrno e, s, _, s' => s' = { s with errno := e }

/-! ## the programs -/

/-- `ivc_manager_is_valid` -/
def ivcManagerIsValid (manager : Ptr) : Prog libc Bool :=
  if manager = 0 then pure false
  else do
    let m ← lib (.loadManager manager)
    pure (decide (m.fd ≥ 0))

/-- `ivc_manager_release_endpoint` -/
def ivcManagerReleaseEndpoint (manager : Ptr) (operation : String) : Prog libc Int :=
  let underflow : Prog libc Int := do
    lib (.storeErrno EINVAL)
    lib (.fprintf (.underflow operation))
    pure (-1)
  if manager = 0 then underflow
  else do
    let m ← lib (.loadManager manager)
    if m.activeEndpoints = 0 then underflow
    else
      lib (.storeManager manager { m with activeEndpoints := m.activeEndpoints - 1 })
      pure 0

/-- `IVC_DEV_PATH` -/
def ivcDevPath : List UInt8 := "/dev/axivc".toUTF8.toList

/-- `ivc_open_manager` -/
def ivcOpenManager : Prog libc Ptr := do
  let manager : Ptr ← lib .malloc
  if manager = 0 then
    lib (.perror .allocManager)
    pure 0
  else
    let opened : SysRet ← lib (.openFile ivcDevPath)
    lib (.storeManager manager ⟨opened.ret, 0⟩)
    if opened.ret < 0 then
      let openErrno ← lib .loadErrno
      lib (.perror .openManager)
      lib (.free manager)
      lib (.storeErrno openErrno)
      pure 0
    else
      pure manager

/-- `if (failed && !saved_errno) saved_errno = errno;` -/
def keepFirst (failed : Bool) (savedErrno : Int32) : Prog libc Int32 :=
  if failed && savedErrno = 0 then lib .loadErrno else pure savedErrno

/-- A call that has failed: its error is saved, unless there is one already,
and its message printed. -/
def reportFailure (r : SysRet) (savedErrno : Int32) (message : Message) : Prog libc Int32 :=
  if r.ret < 0 then do
    let savedErrno ← keepFirst true savedErrno
    lib (.perror message)
    pure savedErrno
  else
    pure savedErrno

/-- The end of a call that reports the error it has saved. -/
def returnSaved (savedErrno : Int32) : Prog libc Int :=
  if savedErrno = 0 then pure 0
  else do
    lib (.storeErrno savedErrno)
    pure (-1)

/-- `ivc_close_manager` -/
def ivcCloseManager (manager : Ptr) : Prog libc Int := do
  if !(← ivcManagerIsValid manager) then
    lib (.storeErrno EINVAL)
    lib (.fprintf .invalidClose)
    pure (-1)
  else
    let m ← lib (.loadManager manager)
    if m.activeEndpoints ≠ 0 then
      lib (.storeErrno EBUSY)
      lib (.fprintf (.activeEndpoints m.activeEndpoints))
      pure (-1)
    else
      -- Linux releases the descriptor before reporting a late close error, so
      -- the manager allocation is consumed on every non-busy close attempt.
      let closed ← lib (.close m.fd)
      let closeErrno ← reportFailure closed 0 .closeManager
      lib (.free manager)
      returnSaved closeErrno

namespace Kind

/-- `IVC_SUBSCRIBE_CHANNEL` or `IVC_PUBLISH_CHANNEL` -/
def create : Kind → Request
  | .subscriber => .subscribeChannel
  | .publisher => .publishChannel

/-- `IVC_UNSUBSCRIBE_CHANNEL` or `IVC_UNPUBLISH_CHANNEL` -/
def remove : Kind → Request
  | .subscriber => .unsubscribeChannel
  | .publisher => .unpublishChannel

/-- The name of the teardown. -/
def operation : Kind → String
  | .subscriber => "unsubscribe"
  | .publisher => "unpublish"

end Kind

/-- A message where a call has failed. -/
def perrorOn (r : SysRet) (message : Message) : Prog libc Unit :=
  if r.ret < 0 then lib (.perror message) else pure ()

/-- `ioctl(fd, request, &endpoint->arg)` -/
def ioctlArg (k : Kind) (fd : Int) (request : Request) (endpoint : Ptr) : Prog libc SysRet := do
  let e : Endpoint ← lib (.loadEndpoint k endpoint)
  let answer : SysRet × Arg ← lib (.ioctl fd request e.arg)
  lib (.storeEndpoint k endpoint { e with arg := answer.2 })
  pure answer.1

/-- `device_name` as the path `open` reads. -/
def DeviceName.path (name : DeviceName) : List UInt8 := name.toList.takeWhile (· ≠ 0)

/-- The device of an endpoint that the driver has created; the channel is given
back when it does not open. -/
def openDevice (k : Kind) (manager endpoint : Ptr) : Prog libc Ptr := do
  let e ← lib (.loadEndpoint k endpoint)
  let opened : SysRet ← lib (.openFile (DeviceName.path e.arg.deviceName))
  lib (.storeEndpoint k endpoint { e with fd := opened.ret })
  if opened.ret < 0 then
    let openErrno ← lib .loadErrno
    lib (.perror (.openDevice k))
    let m ← lib (.loadManager manager)
    let removed ← ioctlArg k m.fd k.remove endpoint
    perrorOn removed (.rollback k)
    lib (.free endpoint)
    lib (.storeErrno openErrno)
    pure 0
  else
    let m ← lib (.loadManager manager)
    lib (.storeManager manager { m with activeEndpoints := m.activeEndpoints + 1 })
    pure endpoint

/-- The common text of `ivc_subscribe` and `ivc_publish`. -/
def openEndpoint (k : Kind) (manager : Ptr) (channel : Channel) : Prog libc Ptr := do
  if !(← ivcManagerIsValid manager) then
    lib (.storeErrno EINVAL)
    lib (.fprintf (.invalidManager k))
    pure 0
  else
    let endpoint : Ptr ← lib .malloc
    if endpoint = 0 then
      lib (.perror (.alloc k))
      pure 0
    else
      -- `fd` is not set before the device has been opened.
      lib (.storeEndpoint k endpoint ⟨manager, ⟨channel, .replicate _ 0⟩, 0, 0, 0⟩)
      let m ← lib (.loadManager manager)
      let created ← ioctlArg k m.fd k.create endpoint
      if created.ret < 0 then
        let createErrno ← lib .loadErrno
        lib (.perror (.create k))
        lib (.free endpoint)
        lib (.storeErrno createErrno)
        pure 0
      else
        openDevice k manager endpoint

/-- `ivc_subscribe` -/
def ivcSubscribe (manager : Ptr) (publisherId channelKey : UInt64) : Prog libc Ptr :=
  openEndpoint .subscriber manager (.subscribed publisherId channelKey)

/-- `ivc_publish` -/
def ivcPublish (manager : Ptr) (channelKey channelSize : UInt64) : Prog libc Ptr :=
  openEndpoint .publisher manager (.published channelKey channelSize)

/-- The common text of `ivc_unsubscribe` and `ivc_unpublish`. -/
def closeEndpoint (k : Kind) (endpoint : Ptr) : Prog libc Int :=
  if endpoint = 0 then do
    lib (.storeErrno EINVAL)
    lib (.fprintf (.invalidEndpoint k))
    pure (-1)
  else do
    -- Consume the endpoint only after attempting every independent cleanup
    -- step.  Preserve the first error because it is closest to the root cause.
    let e ← lib (.loadEndpoint k endpoint)
    let closed ← lib (.close e.fd)
    let savedErrno ← reportFailure closed 0 (.closeDevice k)
    let e ← lib (.loadEndpoint k endpoint)
    let m ← lib (.loadManager e.manager)
    let removed ← ioctlArg k m.fd k.remove endpoint
    let savedErrno ← reportFailure removed savedErrno (.remove k)
    let e ← lib (.loadEndpoint k endpoint)
    let released ← ivcManagerReleaseEndpoint e.manager k.operation
    let savedErrno ← keepFirst (released < 0) savedErrno
    lib (.free endpoint)
    returnSaved savedErrno

/-- `ivc_unsubscribe` -/
def ivcUnsubscribe (subscriber : Ptr) : Prog libc Int := closeEndpoint .subscriber subscriber

/-- `ivc_unpublish` -/
def ivcUnpublish (publisher : Ptr) : Prog libc Int := closeEndpoint .publisher publisher

/-! ## what a call does -/

/-- An access or a call with an effect outside the caller's own data. -/
def Op.isEffect : Op → Bool
  | .free _ | .storeManager _ _ | .openFile _ | .ioctl _ _ _ | .close _ | .fprintf _ | .storeErrno _ => true
  | _ => false

/-- The effects of a run, in their order. -/
def effects (tr : List libc.Event) : List libc.Event := tr.filter fun e => e.1.isEffect

/-- One endpoint more. -/
def Manager.retain (m : Manager) : Manager := { m with activeEndpoints := m.activeEndpoints + 1 }

/-- One endpoint less. -/
def Manager.release (m : Manager) : Manager := { m with activeEndpoints := m.activeEndpoints - 1 }

section Rules

variable {α : Type} {s t : State} {tr : List libc.Event} {x : Option α} {p : Ptr} {k : Kind} {m : Manager} {e : Endpoint}

theorem Ran.of_loadManager {f : Manager → Prog libc α} (h : (lib (.loadManager p) >>= f).Ran Does s tr x t)
    (hp : s.heap p = some (.manager m)) : ∃ tr', effects tr = effects tr' ∧ (f m).Ran Does s tr' x t := by
  obtain ⟨m', u, tr', hdo, hrest, rfl⟩ := h
  obtain ⟨rfl, rfl⟩ := hdo m hp
  exact ⟨tr', rfl, hrest⟩

theorem Ran.of_loadEndpoint {f : Endpoint → Prog libc α} (h : (lib (.loadEndpoint k p) >>= f).Ran Does s tr x t)
    (hp : s.heap p = some (.endpoint k e)) : ∃ tr', effects tr = effects tr' ∧ (f e).Ran Does s tr' x t := by
  obtain ⟨e', u, tr', hdo, hrest, rfl⟩ := h
  obtain ⟨rfl, rfl⟩ := hdo e hp
  exact ⟨tr', rfl, hrest⟩

theorem Ran.of_storeManager {f : Unit → Prog libc α} (h : (lib (.storeManager p m) >>= f).Ran Does s tr x t)
    (hp : s.heap p ≠ none) : ∃ u tr', effects tr = ⟨.storeManager p m, ()⟩ :: effects tr' ∧
      u.heap = Function.update s.heap p (some (.manager m)) ∧ (f ()).Ran Does u tr' x t := by
  obtain ⟨_, u, tr', hdo, hrest, rfl⟩ := h
  exact ⟨u, tr', rfl, by rw [hdo hp], hrest⟩

theorem Ran.of_storeEndpoint {f : Unit → Prog libc α} (h : (lib (.storeEndpoint k p e) >>= f).Ran Does s tr x t)
    (hp : s.heap p ≠ none) : ∃ u tr', effects tr = effects tr' ∧ u.errno = s.errno ∧
      u.heap = Function.update s.heap p (some (.endpoint k e)) ∧ (f ()).Ran Does u tr' x t := by
  obtain ⟨_, u, tr', hdo, hrest, rfl⟩ := h
  exact ⟨u, tr', rfl, by rw [hdo hp], by rw [hdo hp], hrest⟩

theorem Ran.of_free {f : Unit → Prog libc α} (h : (lib (.free p) >>= f).Ran Does s tr x t) (hp : s.heap p ≠ none) :
    ∃ u tr', effects tr = ⟨.free p, ()⟩ :: effects tr' ∧ u.heap = Function.update s.heap p none ∧
      (f ()).Ran Does u tr' x t := by
  obtain ⟨_, u, tr', hdo, hrest, rfl⟩ := h
  exact ⟨u, tr', rfl, hdo hp, hrest⟩

theorem Ran.of_perror {message : Message} {f : Unit → Prog libc α} (h : (lib (.perror message) >>= f).Ran Does s tr x t) :
    ∃ u tr', effects tr = effects tr' ∧ u.heap = s.heap ∧ (f ()).Ran Does u tr' x t := by
  obtain ⟨_, u, tr', hdo, hrest, rfl⟩ := h
  exact ⟨u, tr', rfl, hdo, hrest⟩

theorem Ran.of_loadErrno {f : Int32 → Prog libc α} (h : (lib .loadErrno >>= f).Ran Does s tr x t) :
    ∃ tr', effects tr = effects tr' ∧ (f s.errno).Ran Does s tr' x t := by
  obtain ⟨_, u, tr', ⟨rfl, rfl⟩, hrest, rfl⟩ := h
  exact ⟨tr', rfl, hrest⟩

theorem Ran.of_storeErrno {c : Int32} {f : Unit → Prog libc α} (h : (lib (.storeErrno c) >>= f).Ran Does s tr x t) :
    ∃ tr', effects tr = ⟨.storeErrno c, ()⟩ :: effects tr' ∧ (f ()).Ran Does { s with errno := c } tr' x t := by
  obtain ⟨_, u, tr', rfl, hrest, rfl⟩ := h
  exact ⟨tr', rfl, hrest⟩

/-- `open` and `close`. -/
theorem Ran.of_openFile {path : List UInt8} {f : SysRet → Prog libc α} (h : (lib (.openFile path) >>= f).Ran Does s tr x t) :
    ∃ r u tr', effects tr = ⟨.openFile path, r⟩ :: effects tr' ∧ r.Leaves s u ∧ (f r).Ran Does u tr' x t := by
  obtain ⟨r, u, tr', hdo, hrest, rfl⟩ := h
  exact ⟨r, u, tr', rfl, hdo, hrest⟩

theorem Ran.of_close {fd : Int} {f : SysRet → Prog libc α} (h : (lib (.close fd) >>= f).Ran Does s tr x t) :
    ∃ r u tr', effects tr = ⟨.close fd, r⟩ :: effects tr' ∧ r.Leaves s u ∧ (f r).Ran Does u tr' x t := by
  obtain ⟨r, u, tr', hdo, hrest, rfl⟩ := h
  exact ⟨r, u, tr', rfl, hdo, hrest⟩

/-- `malloc` returns `NULL` or memory that was free. -/
theorem Ran.of_malloc {f : Ptr → Prog libc α} (h : (lib .malloc >>= f).Ran Does s tr x t) :
    ∃ p u tr', effects tr = effects tr' ∧ (f p).Ran Does u tr' x t ∧
      ((p = 0 ∧ u.heap = s.heap) ∨ (p ≠ 0 ∧ s.heap p = none ∧ ∃ b, u.heap = Function.update s.heap p (some b))) := by
  obtain ⟨p, u, tr', hdo, hrest, rfl⟩ := h
  exact ⟨p, u, tr', rfl, hrest, hdo⟩

theorem Ran.of_isValid {f : Bool → Prog libc α} (h : (ivcManagerIsValid p >>= f).Ran Does s tr x t) (hne : p ≠ 0)
    (hp : s.heap p = some (.manager m)) (hfd : 0 ≤ m.fd) :
    ∃ tr', effects tr = effects tr' ∧ (f true).Ran Does s tr' x t := by
  rw [ivcManagerIsValid, if_neg hne, Prog.bind_assoc] at h
  obtain ⟨tr', htr, hrest⟩ := Ran.of_loadManager h hp
  rw [decide_eq_true hfd] at hrest
  exact ⟨tr', htr, hrest⟩

theorem Ran.of_ioctlArg {fd : Int} {request : Request} {f : SysRet → Prog libc α}
    (h : (ioctlArg k fd request p >>= f).Ran Does s tr x t) (hp : s.heap p = some (.endpoint k e)) :
    ∃ r arg u tr', effects tr = ⟨.ioctl fd request e.arg, (r, arg)⟩ :: effects tr' ∧ arg.channel = e.arg.channel ∧
      u.heap = Function.update s.heap p (some (.endpoint k { e with arg := arg })) ∧
        r.Reported u ∧ (f r).Ran Does u tr' x t := by
  rw [ioctlArg, Prog.bind_assoc] at h
  obtain ⟨tr₁, htr₁, hrest⟩ := Ran.of_loadEndpoint h hp
  obtain ⟨⟨r, arg⟩, u, tr₂, ⟨hchannel, hheap, herrno⟩, hrest, rfl⟩ := hrest
  obtain ⟨v, tr₃, htr₃, hv, hstored, hrest⟩ := Ran.of_storeEndpoint hrest (by rw [hheap, hp]; simp)
  refine ⟨r, arg, v, tr₃, ?_, hchannel, ?_, ?_, hrest⟩
  · rw [htr₁, ← htr₃]
    rfl
  · rw [hstored, hheap]
  · intro c hc
    rw [hv, herrno c hc]

/-- The number in `errno` after a system call that fails, `0` otherwise. -/
def SysRet.code : SysRet → Int32
  | .ok _ => 0
  | .fails c => c

theorem Ran.of_keepFirst {savedErrno : Int32} {f : Int32 → Prog libc α}
    (h : (keepFirst true savedErrno >>= f).Ran Does s tr x t) :
    ∃ tr', effects tr = effects tr' ∧ (f (if savedErrno = 0 then s.errno else savedErrno)).Ran Does s tr' x t := by
  rw [keepFirst] at h
  by_cases hzero : savedErrno = 0
  · rw [if_pos (by simp [hzero])] at h
    rw [if_pos hzero]
    exact Ran.of_loadErrno h
  · rw [if_neg (by simp [hzero])] at h
    rw [if_neg hzero]
    exact ⟨tr, rfl, h⟩

theorem Ran.of_perrorOn {r : SysRet} {message : Message} {f : Unit → Prog libc α}
    (h : (perrorOn r message >>= f).Ran Does s tr x t) :
    ∃ u tr', effects tr = effects tr' ∧ u.heap = s.heap ∧ (f ()).Ran Does u tr' x t := by
  rw [perrorOn] at h
  split at h
  · exact Ran.of_perror h
  · exact ⟨s, tr, rfl, rfl, h⟩

theorem Ran.of_reportFailure {r : SysRet} {savedErrno : Int32} {message : Message} {f : Int32 → Prog libc α}
    (h : (reportFailure r savedErrno message >>= f).Ran Does s tr x t) (herrno : r.Reported s) :
    ∃ u tr', effects tr = effects tr' ∧ u.heap = s.heap ∧
      (f (if savedErrno = 0 then r.code else savedErrno)).Ran Does u tr' x t := by
  cases r with
  | ok value =>
      rw [reportFailure, if_neg (by simp [SysRet.ret])] at h
      refine ⟨s, tr, rfl, rfl, ?_⟩
      have hsame : (if savedErrno = 0 then 0 else savedErrno) = savedErrno := by
        split
        · next hzero => exact hzero.symm
        · rfl
      rw [SysRet.code, hsame]
      exact h
  | fails c =>
      rw [reportFailure, if_pos (by simp [SysRet.ret]), Prog.bind_assoc] at h
      rw [SysRet.code, ← herrno c rfl]
      obtain ⟨tr₁, htr₁, hrest⟩ := Ran.of_keepFirst h
      obtain ⟨u, tr₂, htr₂, hheap, hrest⟩ := Ran.of_perror hrest
      exact ⟨u, tr₂, htr₁.trans htr₂, hheap, hrest⟩

/-- A count that is not `0` is released. -/
theorem Ran.of_releaseEndpoint {operation : String} {f : Int → Prog libc α}
    (h : (ivcManagerReleaseEndpoint p operation >>= f).Ran Does s tr x t) (hne : p ≠ 0)
    (hp : s.heap p = some (.manager m)) (hcount : m.activeEndpoints ≠ 0) :
    ∃ u tr', effects tr = ⟨.storeManager p m.release, ()⟩ :: effects tr' ∧
      u.heap = Function.update s.heap p (some (.manager m.release)) ∧ (f 0).Ran Does u tr' x t := by
  rw [ivcManagerReleaseEndpoint, if_neg hne, Prog.bind_assoc] at h
  obtain ⟨tr₁, htr₁, hrest⟩ := Ran.of_loadManager h hp
  rw [if_neg hcount] at hrest
  obtain ⟨u, tr₂, htr₂, hu, hrest⟩ := Ran.of_storeManager hrest (by rw [hp]; simp)
  exact ⟨u, tr₂, htr₁.trans htr₂, hu, hrest⟩

end Rules

/-! ## opening an endpoint -/

/-- The argument `ivc_subscribe` and `ivc_publish` begin with. -/
def Channel.arg (channel : Channel) : Arg := ⟨channel, .replicate _ 0⟩

/-- The ways `ivc_subscribe` and `ivc_publish` end: their effects, what they
return and what they leave. -/
inductive Opened (k : Kind) (manager : Ptr) (m : Manager) (channel : Channel) (s : State) :
    List libc.Event → Ptr → State → Prop where
  | noMemory {t : State} (hheap : t.heap = s.heap) : Opened k manager m channel s [] 0 t
  | refused {t : State} (endpoint : Ptr) (c : ErrorCode) (arg : Arg) (hheap : t.heap = s.heap) (herrno : t.errno = c) :
      Opened k manager m channel s
        [⟨.ioctl m.fd k.create channel.arg, (.fails c, arg)⟩, ⟨.free endpoint, ()⟩, ⟨.storeErrno c, ()⟩] 0 t
  | notOpened {t : State} (endpoint : Ptr) (value : Nat) (arg : Arg) (c : ErrorCode) (r : SysRet × Arg)
      (hchannel : arg.channel = channel) (hheap : t.heap = s.heap) (herrno : t.errno = c) :
      Opened k manager m channel s
        [⟨.ioctl m.fd k.create channel.arg, (.ok value, arg)⟩, ⟨.openFile (DeviceName.path arg.deviceName), .fails c⟩,
          ⟨.ioctl m.fd k.remove arg, r⟩, ⟨.free endpoint, ()⟩, ⟨.storeErrno c, ()⟩] 0 t
  | opened {t : State} (endpoint : Ptr) (value fd : Nat) (e : Endpoint) (hne : endpoint ≠ 0)
      (hfree : s.heap endpoint = none) (hmanager : e.manager = manager) (hchannel : e.arg.channel = channel)
      (hfd : e.fd = fd)
      (hheap : t.heap = Function.update (Function.update s.heap endpoint (some (.endpoint k e))) manager
        (some (.manager m.retain))) :
      Opened k manager m channel s
        [⟨.ioctl m.fd k.create channel.arg, (.ok value, e.arg)⟩,
          ⟨.openFile (DeviceName.path e.arg.deviceName), .ok fd⟩, ⟨.storeManager manager m.retain, ()⟩] endpoint t

theorem update_free {heap : Ptr → Option Block} {p : Ptr} (h : heap p = none) (b : Option Block) :
    Function.update (Function.update heap p b) p none = heap := by
  rw [Function.update_idem, ← h, Function.update_eq_self]

section Opening

variable {k : Kind} {manager endpoint : Ptr} {m : Manager} {e : Endpoint} {channel : Channel} {s t : State}
  {tr : List libc.Event} {x : Option Ptr}

/-- The device does not open, and the channel is given back; or it opens, and
the endpoint is counted. -/
theorem ran_openDevice (hm : s.heap manager = some (.manager m)) (he : s.heap endpoint = some (.endpoint k e))
    (h : (openDevice k manager endpoint).Ran Does s tr x t) :
    (∃ (c : ErrorCode) (r : SysRet × Arg), x = some 0 ∧ t.errno = c ∧ t.heap = Function.update s.heap endpoint none ∧
      effects tr = [⟨.openFile (DeviceName.path e.arg.deviceName), .fails c⟩, ⟨.ioctl m.fd k.remove e.arg, r⟩,
        ⟨.free endpoint, ()⟩, ⟨.storeErrno c, ()⟩]) ∨
    ∃ fd : Nat, x = some endpoint ∧
      t.heap = Function.update (Function.update s.heap endpoint (some (.endpoint k { e with fd := fd }))) manager
        (some (.manager m.retain)) ∧
      effects tr = [⟨.openFile (DeviceName.path e.arg.deviceName), .ok fd⟩, ⟨.storeManager manager m.retain, ()⟩] := by
  have hne : manager ≠ endpoint := by
    rintro rfl
    rw [hm] at he
    cases he
  rw [openDevice] at h
  obtain ⟨tr₁, htr₁, h⟩ := Ran.of_loadEndpoint h he
  obtain ⟨r, u, tr₂, htr₂, ⟨hu, herrno⟩, h⟩ := Ran.of_openFile h
  obtain ⟨u', tr₃, htr₃, herrno', hu', h⟩ := Ran.of_storeEndpoint h (by rw [hu, he]; simp)
  rw [hu] at hu'
  rw [htr₁, htr₂, htr₃]
  cases r with
  | fails c =>
      left
      rw [if_pos (by simp [SysRet.ret])] at h
      obtain ⟨tr₄, htr₄, h⟩ := Ran.of_loadErrno h
      obtain ⟨v, tr₅, htr₅, hv, h⟩ := Ran.of_perror h
      obtain ⟨tr₆, htr₆, h⟩ := Ran.of_loadManager h (by rw [hv, hu', Function.update_of_ne hne, hm])
      obtain ⟨r, arg, w, tr₇, htr₇, -, hw, -, h⟩ := Ran.of_ioctlArg h (by rw [hv, hu', Function.update_self])
      obtain ⟨w', tr₈, htr₈, hw', h⟩ := Ran.of_perrorOn h
      obtain ⟨y, tr₉, htr₉, hy, h⟩ := Ran.of_free h (by rw [hw', hw, Function.update_self]; simp)
      obtain ⟨tr₀, htr₀, rfl, rfl, rfl⟩ := Ran.of_storeErrno h
      refine ⟨c, (r, arg), rfl, herrno'.trans (herrno c rfl), ?_, ?_⟩
      · rw [hy, hw', hw, hv, hu', Function.update_idem, Function.update_idem]
      · rw [htr₄, htr₅, htr₆, htr₇, htr₈, htr₉, htr₀, herrno', herrno c rfl]
        rfl
  | ok fd =>
      right
      rw [if_neg (by simp [SysRet.ret])] at h
      obtain ⟨tr₄, htr₄, h⟩ := Ran.of_loadManager h (by rw [hu', Function.update_of_ne hne, hm])
      obtain ⟨v, tr₅, htr₅, hv, rfl, rfl, rfl⟩ :=
        Ran.of_storeManager h (by rw [hu', Function.update_of_ne hne, hm]; simp)
      refine ⟨fd, rfl, ?_, ?_⟩
      · rw [hv, hu']
        rfl
      · rw [htr₄, htr₅]
        rfl

/-- **Everything `ivc_subscribe` and `ivc_publish` can do** on a manager that
has not been closed. -/
theorem opened_of_ran (hne : manager ≠ 0) (hm : s.heap manager = some (.manager m)) (hfd : 0 ≤ m.fd)
    (h : (openEndpoint k manager channel).Ran Does s tr x t) :
    ∃ endpoint, x = some endpoint ∧ Opened k manager m channel s (effects tr) endpoint t := by
  rw [openEndpoint] at h
  obtain ⟨tr₁, htr₁, h⟩ := Ran.of_isValid h hne hm hfd
  rw [if_neg (by simp)] at h
  obtain ⟨endpoint, u, tr₂, htr₂, h, ⟨rfl, hu⟩ | ⟨hendpoint, hfree, b, hu⟩⟩ := Ran.of_malloc h
  · obtain ⟨v, tr₃, htr₃, hv, rfl, rfl, rfl⟩ := Ran.of_perror h
    rw [htr₁, htr₂, htr₃]
    exact ⟨0, rfl, .noMemory (hv.trans hu)⟩
  · rw [if_neg hendpoint] at h
    have hother : manager ≠ endpoint := by
      rintro rfl
      rw [hm] at hfree
      cases hfree
    obtain ⟨u', tr₃, htr₃, -, hu', h⟩ := Ran.of_storeEndpoint h (by rw [hu, Function.update_self]; simp)
    rw [hu, Function.update_idem] at hu'
    obtain ⟨tr₄, htr₄, h⟩ := Ran.of_loadManager h (by rw [hu', Function.update_of_ne hother, hm])
    obtain ⟨r, arg, v, tr₅, htr₅, hchannel, hv, herrno, h⟩ := Ran.of_ioctlArg h (by rw [hu', Function.update_self])
    rw [hu', Function.update_idem] at hv
    rw [htr₁, htr₂, htr₃, htr₄, htr₅]
    cases r with
    | fails c =>
        rw [if_pos (by simp [SysRet.ret])] at h
        obtain ⟨tr₆, htr₆, h⟩ := Ran.of_loadErrno h
        obtain ⟨w, tr₇, htr₇, hw, h⟩ := Ran.of_perror h
        obtain ⟨y, tr₈, htr₈, hy, h⟩ := Ran.of_free h (by rw [hw, hv, Function.update_self]; simp)
        obtain ⟨tr₉, htr₉, rfl, rfl, rfl⟩ := Ran.of_storeErrno h
        rw [htr₆, htr₇, htr₈, htr₉, herrno c rfl]
        refine ⟨0, rfl, .refused endpoint c arg ?_ rfl⟩
        rw [hy, hw, hv, update_free hfree]
    | ok value =>
        rw [if_neg (by simp [SysRet.ret])] at h
        obtain ⟨c, r, rfl, hc, ht, htr⟩ | ⟨fd, rfl, ht, htr⟩ :=
          ran_openDevice (by rw [hv, Function.update_of_ne hother, hm]) (by rw [hv, Function.update_self]) h
        · rw [htr]
          refine ⟨0, rfl, .notOpened endpoint value arg c r hchannel ?_ hc⟩
          rw [ht, hv, update_free hfree]
        · rw [htr]
          refine ⟨endpoint, rfl, .opened endpoint value fd ⟨manager, arg, fd, 0, 0⟩ hendpoint hfree rfl hchannel rfl ?_⟩
          rw [ht, hv, Function.update_idem]

end Opening

/-! ## errors that are saved and reported -/

/-- The error of the first call that has failed. -/
def firstFailure : List SysRet → Option ErrorCode
  | [] => none
  | .ok _ :: rs => firstFailure rs
  | .fails c :: _ => some c

/-- The variable the error is saved in. -/
def savedErrno : Option ErrorCode → Int32
  | none => 0
  | some c => c

/-- What a call returns that reports an error, or that there is none. -/
def Reports : Option ErrorCode → Int → State → Prop
  | none, status, _ => status = 0
  | some c, status, t => status = -1 ∧ t.errno = c

/-- The last effect of such a call. -/
def report : Option ErrorCode → List libc.Event
  | none => []
  | some c => [⟨.storeErrno c, ()⟩]

theorem code_eq (r : SysRet) : r.code = savedErrno (firstFailure [r]) := by
  cases r <;> rfl

/-- The second of two calls that may fail. -/
theorem code_eq_of_two (r r' : SysRet) :
    (if r.code = 0 then r'.code else r.code) = savedErrno (firstFailure [r, r']) := by
  cases r with
  | ok value => exact code_eq r'
  | fails c => exact if_neg c.2

theorem Ran.of_returnSaved {s t : State} {tr : List libc.Event} {x : Option Int} {c : Option ErrorCode}
    (h : (returnSaved (savedErrno c)).Ran Does s tr x t) :
    t.heap = s.heap ∧ effects tr = report c ∧ ∃ status, x = some status ∧ Reports c status t := by
  rw [returnSaved] at h
  cases c with
  | none =>
      obtain ⟨rfl, rfl, rfl⟩ := h
      exact ⟨rfl, rfl, 0, rfl, rfl⟩
  | some c =>
      rw [savedErrno, if_neg c.2] at h
      obtain ⟨tr', htr, rfl, rfl, rfl⟩ := Ran.of_storeErrno h
      exact ⟨rfl, htr, -1, rfl, rfl, rfl⟩

/-! ## tearing an endpoint down -/

/-- How `ivc_unsubscribe` and `ivc_unpublish` end. -/
inductive TornDown (k : Kind) (endpoint : Ptr) (e : Endpoint) (m : Manager) (s : State) :
    List libc.Event → Int → State → Prop where
  | intro {status : Int} {t : State} (closed removed : SysRet) (arg : Arg)
      (hreports : Reports (firstFailure [closed, removed]) status t)
      (hheap : t.heap = Function.update (Function.update s.heap e.manager (some (.manager m.release))) endpoint none) :
      TornDown k endpoint e m s
        ([⟨.close e.fd, closed⟩, ⟨.ioctl m.fd k.remove e.arg, (removed, arg)⟩, ⟨.storeManager e.manager m.release, ()⟩,
          ⟨.free endpoint, ()⟩] ++ report (firstFailure [closed, removed])) status t

/-- **Everything `ivc_unsubscribe` and `ivc_unpublish` do** to an endpoint that
is counted. -/
theorem tornDown_of_ran {k : Kind} {endpoint : Ptr} {m : Manager} {e : Endpoint} {s t : State} {tr : List libc.Event}
    {x : Option Int} (hendpoint : endpoint ≠ 0) (he : s.heap endpoint = some (.endpoint k e)) (hmanager : e.manager ≠ 0)
    (hm : s.heap e.manager = some (.manager m)) (hcount : m.activeEndpoints ≠ 0)
    (h : (closeEndpoint k endpoint).Ran Does s tr x t) :
    ∃ status, x = some status ∧ TornDown k endpoint e m s (effects tr) status t := by
  have hne : e.manager ≠ endpoint := by
    intro heq
    rw [heq, he] at hm
    cases hm
  rw [closeEndpoint, if_neg hendpoint] at h
  obtain ⟨tr₁, htr₁, h⟩ := Ran.of_loadEndpoint h he
  obtain ⟨closed, u₁, tr₂, htr₂, ⟨hu₁, herrno⟩, h⟩ := Ran.of_close h
  obtain ⟨u₂, tr₃, htr₃, hu₂, h⟩ := Ran.of_reportFailure h herrno
  obtain ⟨tr₄, htr₄, h⟩ := Ran.of_loadEndpoint h (by rw [hu₂, hu₁, he])
  obtain ⟨tr₅, htr₅, h⟩ := Ran.of_loadManager h (by rw [hu₂, hu₁, hm])
  obtain ⟨removed, arg, u₃, tr₆, htr₆, -, hu₃, herrno, h⟩ := Ran.of_ioctlArg h (by rw [hu₂, hu₁, he])
  rw [hu₂, hu₁] at hu₃
  obtain ⟨u₄, tr₇, htr₇, hu₄, h⟩ := Ran.of_reportFailure h herrno
  obtain ⟨tr₈, htr₈, h⟩ := Ran.of_loadEndpoint h (by rw [hu₄, hu₃, Function.update_self])
  obtain ⟨u₅, tr₉, htr₉, hu₅, h⟩ :=
    Ran.of_releaseEndpoint h hmanager (by rw [hu₄, hu₃, Function.update_of_ne hne, hm]) hcount
  obtain ⟨u₆, tr₀, htr₀, hu₆, h⟩ := Ran.of_free h
    (by rw [hu₅, Function.update_of_ne hne.symm, hu₄, hu₃, Function.update_self]; simp)
  rw [if_pos rfl, code_eq_of_two] at h
  obtain ⟨hheap, htr, status, rfl, hreports⟩ := Ran.of_returnSaved h
  refine ⟨status, rfl, ?_⟩
  rw [htr₁, htr₂, htr₃, htr₄, htr₅, htr₆, htr₇, htr₈, htr₉, htr₀, htr]
  refine .intro closed removed arg hreports ?_
  rw [hheap, hu₆, hu₅, hu₄, hu₃, Function.update_comm hne, Function.update_idem, Function.update_comm hne.symm]

/-! ## closing the manager -/

/-- The ways `ivc_close_manager` ends. -/
inductive Closed (manager : Ptr) (m : Manager) (s : State) : List libc.Event → Int → State → Prop where
  | busy {t : State} (hcount : m.activeEndpoints ≠ 0) (hheap : t.heap = s.heap) :
      Closed manager m s [⟨.storeErrno EBUSY, ()⟩, ⟨.fprintf (.activeEndpoints m.activeEndpoints), ()⟩] (-1) t
  | closed {status : Int} {t : State} (r : SysRet) (hcount : m.activeEndpoints = 0)
      (hreports : Reports (firstFailure [r]) status t) (hheap : t.heap = Function.update s.heap manager none) :
      Closed manager m s ([⟨.close m.fd, r⟩, ⟨.free manager, ()⟩] ++ report (firstFailure [r])) status t

/-- **Everything `ivc_close_manager` can do** to a manager that has not been
closed. -/
theorem closed_of_ran {manager : Ptr} {m : Manager} {s t : State} {tr : List libc.Event} {x : Option Int}
    (hne : manager ≠ 0) (hm : s.heap manager = some (.manager m)) (hfd : 0 ≤ m.fd)
    (h : (ivcCloseManager manager).Ran Does s tr x t) : ∃ status, x = some status ∧ Closed manager m s (effects tr) status t := by
  rw [ivcCloseManager] at h
  obtain ⟨tr₁, htr₁, h⟩ := Ran.of_isValid h hne hm hfd
  rw [if_neg (by simp)] at h
  obtain ⟨tr₂, htr₂, h⟩ := Ran.of_loadManager h hm
  rw [htr₁, htr₂]
  split at h
  · next hcount =>
    obtain ⟨tr₃, htr₃, h⟩ := Ran.of_storeErrno h
    obtain ⟨_, u, tr₄, hu, ⟨rfl, rfl, rfl⟩, rfl⟩ := h
    rw [htr₃]
    exact ⟨-1, rfl, .busy hcount hu⟩
  · next hcount =>
    obtain ⟨r, u₁, tr₃, htr₃, ⟨hu₁, herrno⟩, h⟩ := Ran.of_close h
    obtain ⟨u₂, tr₄, htr₄, hu₂, h⟩ := Ran.of_reportFailure h herrno
    obtain ⟨u₃, tr₅, htr₅, hu₃, h⟩ := Ran.of_free h (by rw [hu₂, hu₁, hm]; simp)
    rw [if_pos rfl, code_eq] at h
    obtain ⟨hheap, htr, status, rfl, hreports⟩ := Ran.of_returnSaved h
    refine ⟨status, rfl, ?_⟩
    rw [htr₃, htr₄, htr₅, htr]
    exact .closed r (Decidable.of_not_not hcount) hreports (by rw [hheap, hu₃, hu₂, hu₁])

/-! ## opening the manager -/

/-- A manager that has been opened counts no endpoint. -/
theorem ran_ivcOpenManager {manager : Ptr} {s t : State} {tr : List libc.Event} (hne : manager ≠ 0)
    (h : ivcOpenManager.Ran Does s tr (some manager) t) : ∃ fd : Nat, t.heap manager = some (.manager ⟨fd, 0⟩) := by
  rw [ivcOpenManager] at h
  obtain ⟨p, u, tr₁, -, h, ⟨rfl, -⟩ | ⟨hp, -, b, hu⟩⟩ := Ran.of_malloc h
  · obtain ⟨v, tr₂, -, -, -, hret, -⟩ := Ran.of_perror h
    cases hret
    exact absurd rfl hne
  · rw [if_neg hp] at h
    obtain ⟨r, v, tr₂, -, ⟨hv, -⟩, h⟩ := Ran.of_openFile h
    obtain ⟨w, tr₃, -, hw, h⟩ := Ran.of_storeManager h (by rw [hv, hu, Function.update_self]; simp)
    cases r with
    | ok fd =>
        rw [if_neg (by simp [SysRet.ret])] at h
        obtain ⟨-, hret, rfl⟩ := h
        cases hret
        exact ⟨fd, by rw [hw, Function.update_self]; rfl⟩
    | fails c =>
        rw [if_pos (by simp [SysRet.ret])] at h
        obtain ⟨tr₄, -, h⟩ := Ran.of_loadErrno h
        obtain ⟨y, tr₅, -, hy, h⟩ := Ran.of_perror h
        obtain ⟨z, tr₆, -, -, h⟩ := Ran.of_free h (by rw [hy, hw, Function.update_self]; simp)
        obtain ⟨tr₇, -, -, hret, -⟩ := Ran.of_storeErrno h
        cases hret
        exact absurd rfl hne

end Ulib

end Axivc
