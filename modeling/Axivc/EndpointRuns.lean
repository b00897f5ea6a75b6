import Axivc.Lib.Monitor
import Axivc.Endpoint

/-!
# Axivc.EndpointRuns

Runs of any number of calls on an endpoint, with a log of what each did.

The two halves of an endpoint are two records under two locks, so a run of
the endpoint is a run of `sendMachine` next to a run of `recvMachine`.  Ring
operations, user copies, clock and sleeps are answered by the world as it
likes.  A `CallLog` keeps what the properties of whole runs are about: the
half as the call found it, the slots it pushed, whether it has moved a cursor
without notifying the publisher since, and whether a sleep of it was
interrupted.
-/

namespace Axivc

open Prog Rely

/-- A half of an endpoint, and whether a sleep of any call on it has been
interrupted so far. -/
structure HalfState (S : Type) where
  half : S
  signalled : Bool

/-- What a call on a half has done and seen. -/
structure CallLog (Call S : Type) where
  call : Call
  /-- the half when the call obtained the lock -/
  found : Option (HalfState S)
  /-- slots pushed -/
  pushed : List Slot
  /-- whether a slot was pushed or popped after the latest notification -/
  pending : Bool
  /-- whether `msleep_interruptible` returned nonzero -/
  interrupted : Bool

namespace CallLog

variable {Call S : Type}

/-- A call that has just begun. -/
def fresh (call : Call) : CallLog Call S := ⟨call, none, [], false, false⟩

/-- The call pushed `slots`. -/
def push (g : CallLog Call S) (slots : List Slot) : CallLog Call S :=
  { g with pushed := g.pushed ++ slots, pending := g.pending || !slots.isEmpty }

/-- The call went through `axivc_notify_publisher`. -/
def notify (g : CallLog Call S) (target : NotifyTarget) : CallLog Call S :=
  if target.notifyPublisher then { g with pending := false } else g

/-- An endpoint that notifies has nothing left to announce. -/
def Announced (target : NotifyTarget) (g : CallLog Call S) : Prop :=
  target.notifyPublisher = true → g.pending = false

theorem announced_notify (g : CallLog Call S) (target : NotifyTarget) : Announced target (g.notify target) := by
  intro h
  simp [notify, h]

@[simp] theorem push_nil (g : CallLog Call S) : g.push [] = g := by simp [push]

theorem push_append (g : CallLog Call S) (slots slots' : List Slot) :
    (g.push slots).push slots' = g.push (slots ++ slots') := by
  cases slots <;> simp [push]

@[simp] theorem notify_call (g : CallLog Call S) (target : NotifyTarget) : (g.notify target).call = g.call := by
  unfold notify
  split <;> rfl

@[simp] theorem notify_found (g : CallLog Call S) (target : NotifyTarget) : (g.notify target).found = g.found := by
  unfold notify
  split <;> rfl

@[simp] theorem notify_pushed (g : CallLog Call S) (target : NotifyTarget) :
    (g.notify target).pushed = g.pushed := by
  unfold notify
  split <;> rfl

@[simp] theorem notify_interrupted (g : CallLog Call S) (target : NotifyTarget) :
    (g.notify target).interrupted = g.interrupted := by
  unfold notify
  split <;> rfl

end CallLog

/-! ## the machines -/

/-- An endpoint half under its mutex, and what a call logs.  A notification
counts when it is for the endpoint's publisher and key. -/
def endpointMonitor (Call S : Type) (target : NotifyTarget) :
    Monitor (endpointIface ringIface S) (HalfState S) (CallLog Call S) where
  takes
    | .mutexLockInterruptible, .ok () => true
    | _, _ => false
  gives
    | .mutexUnlock => true
    | _ => false
  allows
    | .mutexLockInterruptible, _, r => r = .error .EINTR ∨ r = .ok ()
    | .load, s, r => r = s.half
    | .copyFromUser _ len, _, r => r ≤ len
    | .copyToUser _ bytes, _, r => r ≤ bytes.length
    | _, _, _ => True
  act
    | .store half, _, s => { s with half := half }
    | .msleepInterruptible _, r, s => { s with signalled := s.signalled || r != 0 }
    | _, _, s => s
  note
    | .mutexLockInterruptible, .ok (), s, g => { g with found := some s }
    | .ring (.push slot), true, _, g => g.push [slot]
    | .ring .pop, _, _, g => { g with pending := true }
    | .hvcNotifyChannel publisherId key targetId, _, _, g =>
        if publisherId = target.publisherId ∧ key = target.key ∧ targetId = target.publisherId then
          { g with pending := false }
        else g
    | .msleepInterruptible _, r, _, g => { g with interrupted := g.interrupted || r != 0 }
    | _, _, _, g => g

/-- The arguments of `axivc_send_message`; a size fits in `size_t`. -/
structure SendArgs where
  iterations : Nat
  buf : List UInt8
  fits : buf.length < 2 ^ 64

/-- The arguments of `axivc_recv_message`. -/
structure RecvArgs where
  iterations : Nat
  count : UInt64

/-- Any number of `axivc_send_message` calls on an endpoint. -/
def sendMachine (target : NotifyTarget) :
    Machine Nat (endpointIface ringIface Transmit) (Guarded (HalfState Transmit) (CallLog SendArgs Transmit))
      SendArgs (Except Errno Nat) :=
  (endpointMonitor SendArgs Transmit target).machine
    (fun call => sendMessage atomicRing target call.iterations call.buf) .fresh

/-- Any number of `axivc_recv_message` calls on an endpoint. -/
def recvMachine (target : NotifyTarget) :
    Machine Nat (endpointIface ringIface Receiver) (Guarded (HalfState Receiver) (CallLog RecvArgs Receiver))
      RecvArgs (Except Errno Nat) :=
  (endpointMonitor RecvArgs Receiver target).machine
    (fun call => recvMessage atomicRing target call.iterations call.count) .fresh

/-- Unlocking gives the lock back and touches nothing. -/
theorem endpoint_unlock {Call S : Type} {target : NotifyTarget} :
    (endpointMonitor Call S target).gives .mutexUnlock = true ∧
      (∀ r, (endpointMonitor Call S target).takes .mutexUnlock r = false) ∧
      ∀ r h, (endpointMonitor Call S target).act .mutexUnlock r h = h :=
  ⟨rfl, fun _ => rfl, fun _ _ => rfl⟩

/-! ## within the lock -/

/-- A call that sleeps, or waits for the lock, has announced what it did. -/
def SleepsAnnounced {Call S : Type} (target : NotifyTarget) : EndpointOp ringIface S → CallLog Call S → Prop
  | .msleep _, g | .msleepInterruptible _, g | .mutexLockInterruptible, g => g.Announced target
  | _, _ => True

/-- The view from within the lock. -/
abbrev endpointView (Call S : Type) (target : NotifyTarget) :
    View (endpointIface ringIface S) (HalfState S × CallLog Call S) :=
  (endpointMonitor Call S target).inside (SleepsAnnounced target)

section Inside

variable {Call S α : Type} {target : NotifyTarget} {s : HalfState S} {g : CallLog Call S}
  {post : α → HalfState S × CallLog Call S → Prop}

/-- Nothing interferes: a program may start from what is known. -/
theorem endpoint_ret {a : α} (h : post a (s, g)) : (endpointView Call S target).Safe post (.ret a) (s, g) := by
  rintro _ rfl -
  exact h

/-- One operation within the lock. -/
theorem endpoint_act {o : EndpointOp ringIface S} {k : (endpointIface ringIface S).Res o →
      Prog (endpointIface ringIface S) α} (hgives : (endpointMonitor Call S target).gives o = false)
    (hpre : SleepsAnnounced target o g)
    (hk : ∀ r, (endpointMonitor Call S target).allows o s r → (endpointView Call S target).Safe post (k r)
      ((endpointMonitor Call S target).act o r s, (endpointMonitor Call S target).note o r s g)) :
    (endpointView Call S target).Safe post (.act o k) (s, g) := by
  rintro _ rfl -
  refine ⟨⟨hgives, hpre⟩, ?_⟩
  rintro r _ ⟨hallowed, -, rfl⟩
  exact ⟨trivial, trivial, hk r hallowed⟩

/-- One operation, and what is done with its answer. -/
theorem endpoint_op {o : EndpointOp ringIface S} {f : (endpointIface ringIface S).Res o →
      Prog (endpointIface ringIface S) α} (hgives : (endpointMonitor Call S target).gives o = false)
    (hpre : SleepsAnnounced target o g)
    (hf : ∀ r, (endpointMonitor Call S target).allows o s r → (endpointView Call S target).Safe post (f r)
      ((endpointMonitor Call S target).act o r s, (endpointMonitor Call S target).note o r s g)) :
    (endpointView Call S target).Safe post (kernel o >>= f) (s, g) :=
  endpoint_act hgives hpre hf

/-- Reading the record. -/
theorem endpoint_load {f : S → Prog (endpointIface ringIface S) α}
    (hf : (endpointView Call S target).Safe post (f s.half) (s, g)) :
    (endpointView Call S target).Safe post (kernel .load >>= f) (s, g) := by
  refine endpoint_op rfl trivial fun half hhalf => ?_
  obtain rfl := hhalf
  exact hf

/-- Copying a chunk in. -/
theorem endpoint_copyFromUser {offset len : Nat} {f : Nat → Prog (endpointIface ringIface S) α}
    (hf : ∀ uncopied, (endpointView Call S target).Safe post (f uncopied) (s, g)) :
    (endpointView Call S target).Safe post (kernel (.copyFromUser offset len) >>= f) (s, g) :=
  endpoint_op rfl trivial fun uncopied _ => hf uncopied

/-- Copying a fragment out, or none. -/
theorem endpoint_copyAnyToUser {offset : Nat} {bytes : List UInt8} {f : Nat → Prog (endpointIface ringIface S) α}
    (hf : ∀ uncopied, (endpointView Call S target).Safe post (f uncopied) (s, g)) :
    (endpointView Call S target).Safe post (copyAnyToUser offset bytes >>= f) (s, g) := by
  unfold copyAnyToUser
  split
  · exact endpoint_op rfl trivial fun uncopied _ => hf uncopied
  · exact hf 0

/-- Reading the clock. -/
theorem endpoint_jiffies {f : UInt64 → Prog (endpointIface ringIface S) α}
    (hf : ∀ now, (endpointView Call S target).Safe post (f now) (s, g)) :
    (endpointView Call S target).Safe post (kernel .jiffies >>= f) (s, g) :=
  endpoint_op rfl trivial fun now _ => hf now

/-- An interruptible sleep. -/
theorem endpoint_msleepInterruptible {ms : Nat} {f : Nat → Prog (endpointIface ringIface S) α}
    (ha : g.Announced target)
    (hf : ∀ left : Nat, (endpointView Call S target).Safe post (f left)
      ({ s with signalled := s.signalled || left != 0 }, { g with interrupted := g.interrupted || left != 0 })) :
    (endpointView Call S target).Safe post (kernel (.msleepInterruptible ms) >>= f) (s, g) :=
  endpoint_op rfl ha fun left _ => hf left

theorem endpoint_notifyPublisher {k : Unit → Prog (endpointIface ringIface S) α}
    (hk : (endpointView Call S target).Safe post (k ()) (s, g.notify target)) :
    (endpointView Call S target).Safe post (notifyPublisher target >>= k) (s, g) := by
  unfold notifyPublisher
  unfold CallLog.notify at hk
  split
  · next hn =>
      rw [if_pos hn] at hk
      refine endpoint_act rfl trivial fun r _ => ?_
      have hnote : (endpointMonitor Call S target).note
          (.hvcNotifyChannel target.publisherId target.key target.publisherId) r s g =
          { g with pending := false } := if_pos ⟨rfl, rfl, rfl⟩
      rw [hnote]
      exact hk
  · next hn =>
      rw [if_neg hn] at hk
      exact hk

theorem endpoint_deadlineAfter {ms : Nat} {k : UInt64 → Prog (endpointIface ringIface S) α}
    (hk : ∀ deadline, (endpointView Call S target).Safe post (k deadline) (s, g)) :
    (endpointView Call S target).Safe post (deadlineAfter ms >>= k) (s, g) :=
  endpoint_act rfl trivial fun _ _ => endpoint_act rfl trivial fun _ _ => hk _

/-- After an attempt that moved slots the publisher has been notified. -/
theorem endpoint_afterProgress {slots : Nat} {deadline : UInt64} {k : UInt64 → Prog (endpointIface ringIface S) α}
    (hk : ∀ deadline, (endpointView Call S target).Safe post (k deadline)
      (s, if slots ≠ 0 then g.notify target else g)) :
    (endpointView Call S target).Safe post (afterProgress target slots deadline >>= k) (s, g) := by
  unfold afterProgress
  split
  · next hslots =>
      rw [Prog.bind_assoc]
      refine endpoint_deadlineAfter fun deadline => ?_
      rw [Prog.bind_assoc]
      refine endpoint_notifyPublisher ?_
      have hnext := hk deadline
      rw [if_pos hslots] at hnext
      exact hnext
  · next hslots =>
      have hnext := hk deadline
      rw [if_neg hslots] at hnext
      exact hnext

end Inside

/-! ## worlds that always answer the same -/

/-- Answers of the world: whether a push finds room, what a peek finds, and
what an interruptible sleep has left.  Locks are free, copies succeed, and the
clock stands still before every deadline. -/
structure World where
  room : Bool
  found : Option Slot
  left : Nat

namespace World

variable {Call S : Type}

/-- The answer to an operation. -/
def answer (w : World) (s : Guarded (HalfState S) (CallLog Call S)) :
    (o : EndpointOp ringIface S) → (endpointIface ringIface S).Res o
  | .mutexLockInterruptible => if s.owner = none then .ok () else .error .EINTR
  | .load => s.record.half
  | .ring (.push _) => w.room
  | .ring .peek => w.found
  | .msleepInterruptible _ => w.left
  | .copyFromUser _ _ | .copyToUser _ _ => (0 : Nat)
  | .msecsToJiffies _ => (1 : UInt64)
  | .jiffies | .hvcNotifyChannel _ _ _ => (0 : UInt64)
  | .ring .pop | .mutexUnlock | .store _ | .msleep _ => ()

/-- An operation of call `i` in this world. -/
def perform (w : World) (target : NotifyTarget) (i : Nat) (o : EndpointOp ringIface S)
    (s : Guarded (HalfState S) (CallLog Call S)) :
    (endpointIface ringIface S).Res o × Guarded (HalfState S) (CallLog Call S) :=
  (w.answer s o, (endpointMonitor Call S target).after i o (w.answer s o) s)

theorem exec_perform (w : World) (target : NotifyTarget) (i : Nat) (o : EndpointOp ringIface S)
    (s : Guarded (HalfState S) (CallLog Call S)) :
    (endpointMonitor Call S target).Exec i o s (w.perform target i o s).1 (w.perform target i o s).2 := by
  refine ⟨?_, fun htakes => ?_, rfl⟩
  · cases o with
    | mutexLockInterruptible =>
        change w.answer s .mutexLockInterruptible = _ ∨ w.answer s .mutexLockInterruptible = _
        rw [answer]
        split
        · exact .inr rfl
        · exact .inl rfl
    | load => rfl
    | copyFromUser => exact Nat.zero_le _
    | copyToUser => exact Nat.zero_le _
    | _ => trivial
  · cases o with
    | mutexLockInterruptible =>
        by_contra hne
        have hanswer : w.answer s (.mutexLockInterruptible : EndpointOp ringIface S) = .error .EINTR := if_neg hne
        have hfalse : (endpointMonitor Call S target).takes .mutexLockInterruptible (.error .EINTR) = true :=
          hanswer ▸ htakes
        cases hfalse
    | _ => cases htakes

end World

end Axivc
