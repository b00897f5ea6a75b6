import Axivc.Receiver
import Axivc.Sender

/-!
# Axivc.Endpoint

The device adapter of `ivc.c`: one `write(2)` is one message sent, one
`read(2)` is one message received.

`axivc_send_message` works on the transmitting half of an endpoint and
`axivc_recv_message` on the receiving half; the halves share nothing, each
has a mutex of its own.  What the two functions ask of the kernel and of the
hypervisor are the operations `EndpointOp`; when a lock is obtained, whether a
user page faults, what time it is and whether a sleep is interrupted are
answers of the world.  The ring is a parameter, as in `message.c`.

The polling loops have no bound of their own: they take the number of
iterations they are granted.
-/

namespace Axivc

open Prog

/-- `AXIVC_TRANSFER_TIMEOUT_MS` -/
def transferTimeoutMs : Nat := 30000

/-- `AXIVC_POLL_INTERVAL_MS` -/
def pollIntervalMs : Nat := 10

/-- The operations of an endpoint half with the record `S`, over a ring with
the operations of `R`. -/
inductive EndpointOp (R : Iface) (S : Type) where
  | ring (o : R.Op)
  | mutexLockInterruptible
  | mutexUnlock
  | load
  | store (half : S)
  | copyFromUser (offset len : Nat)
  | copyToUser (offset : Nat) (bytes : List UInt8)
  | jiffies
  | msecsToJiffies (ms : Nat)
  | msleep (ms : Nat)
  | msleepInterruptible (ms : Nat)
  | hvcNotifyChannel (publisherId key targetId : UInt64)

/-- The interface of an endpoint half.  The user copies answer the number of
bytes they could not copy, an interruptible sleep the time it had left. -/
@[reducible] def endpointIface (R : Iface) (S : Type) : Iface where
  Op := EndpointOp R S
  Res
    | .ring o => R.Res o
    | .mutexLockInterruptible => Except Errno Unit
    | .load => S
    | .copyFromUser _ _ | .copyToUser _ _ | .msleepInterruptible _ => Nat
    | .jiffies | .msecsToJiffies _ | .hvcNotifyChannel _ _ _ => UInt64
    | _ => Unit

/-- Whom an endpoint notifies, and whether it does. -/
structure NotifyTarget where
  notifyPublisher : Bool
  publisherId : UInt64
  key : UInt64

/-- `time_after_eq`, on a wrapping clock. -/
def timeAfterEq (a b : UInt64) : Bool := (a - b).toNat < 2 ^ 63

section Services

variable {R : Iface} {S : Type}

/-- One operation as a program. -/
abbrev kernel (o : EndpointOp R S) : Prog (endpointIface R S) ((endpointIface R S).Res o) :=
  op (I := endpointIface R S) o

/-- A ring whose operations are single steps. -/
def atomicRing : RingImpl (endpointIface ringIface S) :=
  fun o => op (I := endpointIface ringIface S) (.ring o)

/-- `axivc_notify_publisher`; a failed notification is only logged. -/
def notifyPublisher (target : NotifyTarget) : Prog (endpointIface R S) Unit :=
  if target.notifyPublisher then do
    let _err : UInt64 ← kernel (.hvcNotifyChannel target.publisherId target.key target.publisherId)
    pure ()
  else
    pure ()

/-- `jiffies + msecs_to_jiffies(ms)` -/
def deadlineAfter (ms : Nat) : Prog (endpointIface R S) UInt64 := do
  let now : UInt64 ← kernel .jiffies
  let span : UInt64 ← kernel (.msecsToJiffies ms)
  pure (now + span)

/-- After an attempt that moved slots: a new deadline, and a notification. -/
def afterProgress (target : NotifyTarget) (slots : Nat) (deadline : UInt64) :
    Prog (endpointIface R S) UInt64 :=
  if slots ≠ 0 then do
    let deadline ← deadlineAfter transferTimeoutMs
    notifyPublisher target
    pure deadline
  else
    pure deadline

/-- `chunk && copy_from_user(.., chunk)` -/
def copyAnyFromUser (offset len : Nat) : Prog (endpointIface R S) Nat :=
  if len ≠ 0 then kernel (.copyFromUser offset len) else pure 0

/-- `written && copy_to_user(.., written)` -/
def copyAnyToUser (offset : Nat) (bytes : List UInt8) : Prog (endpointIface R S) Nat :=
  if bytes.length ≠ 0 then kernel (.copyToUser offset bytes) else pure 0

end Services

/-! ## sending -/

/-- The transmitting half of `struct axivc_endpoint`; a `tx_error` of 0 is
`none`. -/
structure Transmit where
  tx : Sender
  txError : Option Errno

/-- `axivc_endpoint_init`, the transmitting half. -/
def transmitInit : Transmit := ⟨messageSenderInit, none⟩

section Send

variable {R : Iface} (ring : RingImpl (endpointIface R Transmit))

/-- A call on the sender of the endpoint. -/
def onSender {α : Type} (f : Sender → Prog (endpointIface R Transmit) (Sender × α)) :
    Prog (endpointIface R Transmit) α := do
  let half : Transmit ← kernel .load
  let (tx, a) ← f half.tx
  kernel (.store { half with tx := tx })
  pure a

theorem onSender_pure {α : Type} (g : Sender → Sender × α) :
    onSender (R := R) (fun tx => pure (g tx)) = .act .load fun half =>
      .act (.store { half with tx := (g half.tx).1 }) fun _ => .ret (g half.tx).2 := rfl

/-- The loop of `axivc_abort_send`. -/
def abortLoop (target : NotifyTarget) (deadline : UInt64) :
    Nat → Prog (endpointIface R Transmit) (Except Errno Unit)
  | 0 => .spin
  | iterations + 1 => do
      match ← onSender (messageTryAbort ring) with
      | .error .EAGAIN =>
          -- A full ring is the normal reason an in-flight send failed. Keep
          -- retrying so a peer which resumes can observe ABORT.
          notifyPublisher target
          let now : UInt64 ← kernel .jiffies
          if timeAfterEq now deadline then
            pure (.error .EAGAIN)
          else do
            kernel (.msleep pollIntervalMs)
            abortLoop target deadline iterations
      | result => pure result

/-- `axivc_abort_send` -/
def abortSend (target : NotifyTarget) (iterations : Nat) : Prog (endpointIface R Transmit) Unit := do
  let deadline ← deadlineAfter transferTimeoutMs
  let half : Transmit ← kernel .load
  let published := half.tx.publishedAny
  match ← abortLoop ring target deadline iterations with
  | .ok () => if published then notifyPublisher target else pure ()
  | .error e =>
      if e ≠ .ENOMSG then do
        let half : Transmit ← kernel .load
        kernel (.store { half with txError := some .EPIPE })
      else
        pure ()

/-- The loop of `axivc_send_message`. -/
def sendLoop (target : NotifyTarget) (buf : List UInt8) (sent : Nat) (deadline : UInt64) :
    Nat → Prog (endpointIface R Transmit) (Except Errno Nat)
  | 0 => .spin
  | iterations + 1 => do
      let chunk := min fragmentCapacity (buf.length - sent)
      let uncopied ← copyAnyFromUser sent chunk
      if uncopied ≠ 0 then
        pure (.error .EFAULT)
      else do
        match ← onSender fun tx => messageTryWrite ring tx ((buf.drop sent).take chunk) with
        | .error e => pure (.error e)
        | .ok progress =>
            let deadline ← afterProgress target progress.publishedSlots deadline
            if progress.complete then
              pure (.ok buf.length)
            else if progress.publishedSlots ≠ 0 then
              sendLoop target buf (sent + progress.consumed) deadline iterations
            else do
              let now : UInt64 ← kernel .jiffies
              if timeAfterEq now deadline then
                pure (.error .ETIMEDOUT)
              else do
                let left : Nat ← kernel (.msleepInterruptible pollIntervalMs)
                if left ≠ 0 then
                  pure (.error .ERESTARTSYS)
                else
                  sendLoop target buf (sent + progress.consumed) deadline iterations

/-- `axivc_send_message` between lock and unlock. -/
def sendLocked (target : NotifyTarget) (iterations : Nat) (buf : List UInt8) :
    Prog (endpointIface R Transmit) (Except Errno Nat) := do
  let half : Transmit ← kernel .load
  match half.txError with
  | some e => pure (.error e)
  | none =>
      match ← onSender fun tx => pure (messageStart tx (.ofNat buf.length)) with
      | .error e => pure (.error e)
      | .ok () =>
          let deadline ← deadlineAfter transferTimeoutMs
          match ← sendLoop ring target buf 0 deadline iterations with
          | .ok count => pure (.ok count)
          | .error e => do
              abortSend ring target iterations
              pure (.error e)

/-- `axivc_send_message`; `buf` is what the `count` bytes of user memory hold. -/
def sendMessage (target : NotifyTarget) (iterations : Nat) (buf : List UInt8) :
    Prog (endpointIface R Transmit) (Except Errno Nat) :=
  -- POSIX read/write cannot distinguish an empty logical message from "no
  -- data".
  if buf.length = 0 then
    pure (.error .EOPNOTSUPP)
  else do
    match ← kernel .mutexLockInterruptible with
    | .error e => pure (.error e)
    | .ok () => do
        let result ← sendLocked ring target iterations buf
        kernel .mutexUnlock
        pure result

end Send

/-! ## receiving -/

section Receive

variable {R : Iface} (ring : RingImpl (endpointIface R Receiver))

/-- A call on the receiver of the endpoint. -/
def onReceiver {α : Type} (f : Receiver → Prog (endpointIface R Receiver) (Receiver × α)) :
    Prog (endpointIface R Receiver) α := do
  let rx : Receiver ← kernel .load
  let (rx', a) ← f rx
  kernel (.store rx')
  pure a

/-- Give up in the middle of a message. -/
def poison (e : Errno) : Prog (endpointIface R Receiver) (Except Errno Nat) :=
  onReceiver fun rx => pure (messageReceiverPoison rx e, .error e)

/-- The rest of an iteration of the loop of `axivc_recv_message`, after a read
that made `progress`; `messageLen` is `meta.len`, and `again` goes on with the
loop. -/
def recvProgress (target : NotifyTarget) (messageLen : UInt64) (received : Nat) (deadline : UInt64)
    (progress : ReceiveProgress) (again : Nat → UInt64 → Prog (endpointIface R Receiver) (Except Errno Nat)) :
    Prog (endpointIface R Receiver) (Except Errno Nat) := do
  let deadline ← afterProgress target progress.consumedSlots deadline
  let uncopied ← copyAnyToUser received progress.output
  if uncopied ≠ 0 then
    poison .EFAULT
  else if progress.complete then
    -- Consume a valid transport-level empty message so it cannot block the
    -- ring, but report that its boundary cannot be represented.
    pure (if messageLen = 0 then .error .EOPNOTSUPP else .ok (received + progress.output.length))
  else if progress.consumedSlots ≠ 0 then
    again (received + progress.output.length) deadline
  else do
    let now : UInt64 ← kernel .jiffies
    if timeAfterEq now deadline then
      poison .ETIMEDOUT
    else do
      let left : Nat ← kernel (.msleepInterruptible pollIntervalMs)
      if left ≠ 0 then
        poison .ERESTARTSYS
      else
        again (received + progress.output.length) deadline

/-- The loop of `axivc_recv_message`. -/
def recvLoop (target : NotifyTarget) (messageLen : UInt64) (received : Nat) (deadline : UInt64) :
    Nat → Prog (endpointIface R Receiver) (Except Errno Nat)
  | 0 => .spin
  | iterations + 1 => do
      match ← onReceiver fun rx => messageTryRead ring rx fragmentCapacity with
      | .error e =>
          -- A slot carrying a valid ABORT frame was consumed even though the
          -- message API reports it as an error.
          if e = .ECONNRESET then do
            notifyPublisher target
            pure (.error e)
          else
            pure (.error e)
      | .ok progress =>
          recvProgress target messageLen received deadline progress fun received deadline =>
            recvLoop target messageLen received deadline iterations

/-- `axivc_recv_message` between lock and unlock. -/
def recvLocked (target : NotifyTarget) (iterations : Nat) (count : UInt64) :
    Prog (endpointIface R Receiver) (Except Errno Nat) := do
  match ← onReceiver (messagePeekMeta ring) with
  | .error e => pure (.error e)
  | .ok none => pure (.ok 0)
  | .ok (some found) =>
      if found.len > count then
        pure (.error .EMSGSIZE)
      else do
        let deadline ← deadlineAfter transferTimeoutMs
        recvLoop ring target found.len 0 deadline iterations

/-- `axivc_recv_message` -/
def recvMessage (target : NotifyTarget) (iterations : Nat) (count : UInt64) :
    Prog (endpointIface R Receiver) (Except Errno Nat) :=
  if count = 0 then
    pure (.ok 0)
  else do
    match ← kernel .mutexLockInterruptible with
    | .error e => pure (.error e)
    | .ok () => do
        let result ← recvLocked ring target iterations count
        kernel .mutexUnlock
        pure result

end Receive

end Axivc
