import Axivc.Lib.Rely
import Axivc.Frame
import Axivc.Ring

/-!
# Axivc.Receiver

The receiving half of the message engine (`message.c`).

The receiver peeks a slot, decodes and validates it against its state, and
only then pops it.  `examine` is the decision on one slot; what a call has
consumed is a run of accepted slots (`Takes`), and `ReadResult` says for each
way a call can end which slots it consumed, what it saw at the head of the
ring when it stopped, and what it left in the record.

As for the sender, the ring is a parameter.  `PopLog` is what the proofs ask
of the world around it: that popped slots are the ones last peeked.
-/

namespace Axivc

open Prog Rely

/-- `enum axivc_receiver_state`, with the `failed_errno` that is only read in
`AXIVC_RX_FAILED`. -/
inductive ReceiverState where
  | idle
  | receiving
  | failed (failedErrno : Errno)
  deriving DecidableEq

/-- `struct axivc_message_receiver`, less its ring pointer. -/
structure Receiver where
  state : ReceiverState
  active : MessageMeta
  received : UInt64
  deriving DecidableEq

/-- `struct axivc_receive_progress`, with the bytes written to the caller's
buffer in place of their number. -/
structure ReceiveProgress where
  output : List UInt8
  consumedSlots : Nat
  complete : Bool
  deriving DecidableEq

/-- `struct axivc_receive_transition` -/
structure Transition where
  nextState : ReceiverState
  active : MessageMeta
  received : UInt64
  complete : Bool
  aborted : Bool
  deriving DecidableEq

/-- `axivc_message_receiver_init` -/
def messageReceiverInit : Receiver where
  state := .idle
  active := ⟨0, 0⟩
  received := 0

/-- `axivc_message_receiver_poison` -/
def messageReceiverPoison (rx : Receiver) (error : Errno) : Receiver := { rx with state := .failed error }

/-- `axivc_receiver_fail` -/
def receiverFail {α : Type} (rx : Receiver) (error : Errno) : Receiver × Except Errno α :=
  ({ rx with state := .failed error }, .error error)

/-- The switch of `axivc_validate_transition`: the message a frame belongs to
and how much of it has been received. -/
def transitionBase (rx : Receiver) (frame : Frame) : Except Errno (MessageMeta × UInt64) :=
  match rx.state with
  | .idle =>
      if frame.abort || !frame.first then .error .EPROTO
      else .ok (⟨frame.messageId, frame.messageLen⟩, 0)
  | .receiving =>
      if frame.first then .error .EPROTO
      else if frame.messageId ≠ rx.active.id then .error .EPROTO
      else if frame.messageLen ≠ rx.active.len then .error .EPROTO
      else .ok (rx.active, rx.received)
  | .failed failedErrno => .error failedErrno

/-- `axivc_validate_transition` -/
def validateTransition (rx : Receiver) (frame : Frame) : Except Errno Transition :=
  match transitionBase rx frame with
  | .error e => .error e
  | .ok (active, received) =>
      if frame.abort then
        .ok ⟨.idle, active, received, false, true⟩
      else if received > ~~~0 - .ofNat frame.fragment.length then
        .error .EPROTO
      else
        let received := received + .ofNat frame.fragment.length
        if received > active.len then
          .error .EPROTO
        else if frame.last && received ≠ active.len then
          .error .EPROTO
        else
          .ok ⟨if frame.last then .idle else .receiving, active, received, frame.last, false⟩

namespace Receiver

/-- The record after a transition. -/
def commit (rx : Receiver) (transition : Transition) : Receiver :=
  { rx with
    state := transition.nextState
    active := transition.active
    received := transition.received }

/-- The receiver's decision on a slot: decode it, then validate the frame. -/
def examine (rx : Receiver) (slot : Slot) : Except Errno (Frame × Transition) :=
  match decodeFrame slot with
  | .error e => .error e
  | .ok frame =>
      match validateTransition rx frame with
      | .error e => .error e
      | .ok transition => .ok (frame, transition)

end Receiver

section Programs

variable {I : Iface} (ring : RingImpl I)

/-- `axivc_message_peek_meta`; `*available` is whether there is a result. -/
def messagePeekMeta (rx : Receiver) : Prog I (Receiver × Except Errno (Option MessageMeta)) :=
  match rx.state with
  | .failed failedErrno => pure (rx, .error failedErrno)
  | .receiving => pure (rx, .ok (some rx.active))
  | .idle => do
      match ← ring .peek with
      | none => pure (rx, .ok none)
      | some slot =>
          match decodeFrame slot with
          | .error e => pure (receiverFail rx e)
          | .ok frame =>
              if frame.abort || !frame.first then
                pure (receiverFail rx .EPROTO)
              else
                pure (rx, .ok (some ⟨frame.messageId, frame.messageLen⟩))

/-- The loop of `axivc_process_available_slots`, for at most the granted
number of iterations; `output` is what it has written so far. -/
def processLoop (outputLen : Nat) (rx : Receiver) (output : List UInt8) (consumedSlots : Nat) :
    Nat → Prog I (Receiver × Except Errno ReceiveProgress)
  | 0 => .spin
  | iterations + 1 => do
      match ← ring .peek with
      | none => pure (rx, .ok ⟨output, consumedSlots, false⟩)
      | some slot =>
          match decodeFrame slot with
          | .error e =>
              -- Slots already consumed by this call stay consumed; the error
              -- surfaces again on the next call.
              if consumedSlots > 0 then pure (rx, .ok ⟨output, consumedSlots, false⟩)
              else pure (receiverFail rx e)
          | .ok frame =>
              match validateTransition rx frame with
              | .error e =>
                  if consumedSlots > 0 then pure (rx, .ok ⟨output, consumedSlots, false⟩)
                  else pure (receiverFail rx e)
              | .ok transition =>
                  if transition.aborted && consumedSlots > 0 then
                    pure (rx, .ok ⟨output, consumedSlots, false⟩)
                  else if frame.fragment.length > outputLen - output.length then
                    if consumedSlots = 0 then pure (rx, .error .EMSGSIZE)
                    else pure (rx, .ok ⟨output, consumedSlots, false⟩)
                  else do
                    ring .pop
                    let rx := rx.commit transition
                    let output := output ++ frame.fragment
                    if transition.aborted then
                      pure (rx, .error .ECONNRESET)
                    else if transition.complete then
                      pure (rx, .ok ⟨output, consumedSlots + 1, true⟩)
                    else
                      processLoop outputLen rx output (consumedSlots + 1) iterations

/-- `axivc_process_available_slots`; every iteration that does not end the
loop writes at least one byte, so `outputLen + 1` iterations are enough. -/
def processAvailableSlots (rx : Receiver) (outputLen : Nat) :
    Prog I (Receiver × Except Errno ReceiveProgress) :=
  match rx.state with
  | .failed failedErrno => pure (rx, .error failedErrno)
  | _ => processLoop ring outputLen rx [] 0 (outputLen + 1)

/-- `axivc_message_try_read` -/
def messageTryRead (rx : Receiver) (outputLen : Nat) :
    Prog I (Receiver × Except Errno ReceiveProgress) :=
  processAvailableSlots ring rx outputLen

end Programs

/-! ## decisions on one slot -/

theorem transitionBase_idle {rx : Receiver} {frame : Frame} {base : MessageMeta × UInt64}
    (h : rx.state = .idle) :
    transitionBase rx frame = .ok base ↔ frame.abort = false ∧ frame.first = true ∧
      base = (⟨frame.messageId, frame.messageLen⟩, 0) := by
  simp only [transitionBase, h]
  cases frame.abort <;> cases frame.first <;> simp [eq_comm]

theorem transitionBase_receiving {rx : Receiver} {frame : Frame} {base : MessageMeta × UInt64}
    (h : rx.state = .receiving) :
    transitionBase rx frame = .ok base ↔ frame.first = false ∧ frame.messageId = rx.active.id ∧
      frame.messageLen = rx.active.len ∧ base = (rx.active, rx.received) := by
  simp only [transitionBase, h]
  by_cases hid : frame.messageId = rx.active.id <;> by_cases hlen : frame.messageLen = rx.active.len <;>
    cases frame.first <;> simp [hid, hlen, eq_comm]

/-- **Validation**: a frame is accepted when it belongs to a message, and is
that message's ABORT or stays within its length, reaching it exactly at LAST. -/
theorem validateTransition_eq_ok {rx : Receiver} {frame : Frame} {transition : Transition} :
    validateTransition rx frame = .ok transition ↔
      ∃ active received, transitionBase rx frame = .ok (active, received) ∧
        (frame.abort = true ∧ transition = ⟨.idle, active, received, false, true⟩ ∨
          frame.abort = false ∧ received.toNat + frame.fragment.length ≤ active.len.toNat ∧
          (frame.last = true → received.toNat + frame.fragment.length = active.len.toNat) ∧
          transition = ⟨if frame.last then .idle else .receiving, active,
            received + .ofNat frame.fragment.length, frame.last, false⟩) := by
  unfold validateTransition
  cases hbase : transitionBase rx frame with
  | error e => simp
  | ok base =>
      obtain ⟨active, received⟩ := base
      have hfrag := frame.toNat_fragment_length
      have hcap : frame.fragment.length ≤ 232 := frame.fragment_le
      have hr := received.toNat_lt
      have hl := active.len.toNat_lt
      have hmax : (~~~(0 : UInt64) - .ofNat frame.fragment.length).toNat =
          2 ^ 64 - 1 - frame.fragment.length := by
        have hle : UInt64.ofNat frame.fragment.length ≤ ~~~(0 : UInt64) := by
          rw [UInt64.le_iff_toNat_le, show (~~~(0 : UInt64)).toNat = 2 ^ 64 - 1 from rfl]
          have := (UInt64.ofNat frame.fragment.length).toNat_lt
          omega
        rw [UInt64.toNat_sub_of_le _ _ hle, hfrag]
        rfl
      have hadd : (received + .ofNat frame.fragment.length).toNat =
          (received.toNat + frame.fragment.length) % 2 ^ 64 := by rw [UInt64.toNat_add, hfrag]
      have hne : received + .ofNat frame.fragment.length ≠ active.len ↔
          (received.toNat + frame.fragment.length) % 2 ^ 64 ≠ active.len.toNat := by
        rw [← hadd, ne_eq, ne_eq, UInt64.toNat_inj]
      simp only [Except.ok.injEq, Prod.mk.injEq, gt_iff_lt, UInt64.lt_iff_toNat_lt,
        hmax, hadd, hne]
      cases habort : frame.abort with
      | true =>
          constructor
          · rintro ⟨⟩
            exact ⟨active, received, ⟨rfl, rfl⟩, .inl ⟨rfl, rfl⟩⟩
          · rintro ⟨a, r, ⟨rfl, rfl⟩, ⟨-, rfl⟩ | ⟨h, -⟩⟩
            · rfl
            · cases h
      | false =>
          rw [if_neg (by simp)]
          constructor
          · intro h
            split at h
            · cases h
            · split at h
              · cases h
              · split at h
                · cases h
                · next hover hlong hlast =>
                    cases h
                    refine ⟨active, received, ⟨rfl, rfl⟩, .inr ⟨rfl, by omega, fun hl => ?_, rfl⟩⟩
                    simp only [hl, Bool.true_and, decide_eq_true_eq] at hlast
                    omega
          · rintro ⟨a, r, ⟨rfl, rfl⟩, ⟨h, -⟩ | ⟨-, hle, hlast, rfl⟩⟩
            · cases h
            · rw [if_neg (by omega), if_neg (by omega), if_neg]
              rw [Bool.and_eq_true, decide_eq_true_eq]
              rintro ⟨hl, hneq⟩
              have := hlast hl
              omega

namespace Receiver

variable {rx : Receiver} {slot : Slot} {frame : Frame} {transition : Transition} {e : Errno}

theorem examine_eq_ok : rx.examine slot = .ok (frame, transition) ↔
    decodeFrame slot = .ok frame ∧ validateTransition rx frame = .ok transition := by
  unfold examine
  cases decodeFrame slot with
  | error e => simp
  | ok f =>
      dsimp only
      cases hval : validateTransition rx f with
      | error e =>
          simp only [reduceCtorEq, Except.ok.injEq, false_iff, not_and]
          rintro rfl
          simp [hval]
      | ok tr =>
          simp only [Except.ok.injEq, Prod.mk.injEq]
          constructor
          · rintro ⟨rfl, rfl⟩
            exact ⟨rfl, hval⟩
          · rintro ⟨rfl, h⟩
            rw [hval] at h
            exact ⟨rfl, Except.ok.inj h⟩

/-- A failed receiver accepts nothing. -/
theorem examine_failed (h : rx.state = .failed e) (slot : Slot) : ∃ e, rx.examine slot = .error e := by
  unfold examine
  split
  · exact ⟨_, rfl⟩
  · simp [validateTransition, transitionBase, h]

/-- A receiver that accepts a slot has not failed. -/
theorem examine_not_failed (h : rx.examine slot = .ok (frame, transition)) (e : Errno) : rx.state ≠ .failed e := by
  intro hfailed
  obtain ⟨e', he'⟩ := examine_failed hfailed slot
  rw [h] at he'
  cases he'

/-- A message is reset by an ABORT frame. -/
theorem examine_aborted (h : rx.examine slot = .ok (frame, transition)) (hab : transition.aborted = true) :
    frame.abort = true := by
  obtain ⟨active, received, -, ⟨habort, -⟩ | ⟨-, -, -, rfl⟩⟩ := validateTransition_eq_ok.mp (examine_eq_ok.mp h).2
  · exact habort
  · cases hab

/-- A transition that neither completes nor aborts its message wrote at least
one byte. -/
theorem payload_pos_of_continues (h : rx.examine slot = .ok (frame, transition))
    (hc : transition.complete = false) (ha : transition.aborted = false) : 0 < frame.fragment.length := by
  obtain ⟨active, received, -, ⟨-, rfl⟩ | ⟨habort, -, -, rfl⟩⟩ :=
    validateTransition_eq_ok.mp (examine_eq_ok.mp h).2
  · cases ha
  · refine Frame.payload_pos habort fun hlen => ?_
    rw [(Frame.empty_shape habort hlen).2.1] at hc
    cases hc

/-- A frame that is accepted in the middle of a message and does not abort it
carries at least one byte. -/
theorem payload_pos_of_receiving (h : rx.examine slot = .ok (frame, transition)) (hstate : rx.state = .receiving)
    (ha : transition.aborted = false) : 0 < frame.fragment.length := by
  obtain ⟨active, received, hbase, ⟨-, rfl⟩ | ⟨habort, -⟩⟩ := validateTransition_eq_ok.mp (examine_eq_ok.mp h).2
  · cases ha
  · have hfirst := ((transitionBase_receiving hstate).mp hbase).1
    refine Frame.payload_pos habort fun hlen => ?_
    rw [(Frame.empty_shape habort hlen).1] at hfirst
    cases hfirst

/-- A message that goes on is being received. -/
theorem receiving_of_continues (h : rx.examine slot = .ok (frame, transition)) (hc : transition.complete = false)
    (ha : transition.aborted = false) : (rx.commit transition).state = .receiving := by
  obtain ⟨active, received, -, ⟨-, rfl⟩ | ⟨-, -, -, rfl⟩⟩ := validateTransition_eq_ok.mp (examine_eq_ok.mp h).2
  · cases ha
  · have hc : frame.last = false := hc
    simp [commit, hc]

theorem transitionBase_error (hstate : ∀ e, rx.state ≠ .failed e) (h : transitionBase rx frame = .error e) :
    e = .EPROTO := by
  unfold transitionBase at h
  split at h
  · split at h <;> cases h
    rfl
  · split at h
    · cases h; rfl
    · split at h
      · cases h; rfl
      · split at h <;> cases h
        rfl
  · next hfailed => exact absurd hfailed (hstate _)

theorem validateTransition_error (hstate : ∀ e, rx.state ≠ .failed e)
    (h : validateTransition rx frame = .error e) : e = .EPROTO := by
  unfold validateTransition at h
  split at h
  · next hbase =>
      cases h
      exact transitionBase_error hstate hbase
  · by_cases habort : frame.abort = true
    · rw [if_pos habort] at h
      cases h
    · rw [if_neg habort] at h
      split at h
      · cases h; rfl
      · dsimp only at h
        split at h
        · cases h; rfl
        · split at h
          · cases h; rfl
          · cases h

/-- A receiver that has not failed reports protocol errors only. -/
theorem examine_error (hstate : ∀ e, rx.state ≠ .failed e) (h : rx.examine slot = .error e) :
    e = .EPROTO ∨ e = .EPROTONOSUPPORT := by
  unfold examine at h
  split at h
  · next hdec =>
      cases h
      exact decodeFrame_error hdec
  · split at h
    · next hval =>
        cases h
        exact .inl (validateTransition_error hstate hval)
    · cases h

end Receiver

/-! ## what a call consumes -/

/-- `Takes rx bytes slots rx'`: accepting the slots `slots` one after the
other, none of which ends its message, writes `bytes` and leads from `rx` to
`rx'`. -/
inductive Takes (rx : Receiver) : List UInt8 → List Slot → Receiver → Prop where
  | nil : Takes rx [] [] rx
  | snoc {rx' : Receiver} {bytes : List UInt8} {slots : List Slot} {slot : Slot} {frame : Frame}
      {transition : Transition} : Takes rx bytes slots rx' →
      rx'.examine slot = .ok (frame, transition) → transition.complete = false →
      transition.aborted = false →
      Takes rx (bytes ++ frame.fragment) (slots ++ [slot]) (rx'.commit transition)

/-- Without slots nothing happens. -/
theorem Takes.of_nil {rx rx' : Receiver} {bytes : List UInt8} {slots : List Slot}
    (h : Takes rx bytes slots rx') (hslots : slots = []) : bytes = [] ∧ rx' = rx := by
  cases h with
  | nil => exact ⟨rfl, rfl⟩
  | snoc => simp at hslots

/-- An accepted slot does not fail the receiver. -/
theorem Receiver.commit_not_failed {rx : Receiver} {slot : Slot} {frame : Frame} {transition : Transition}
    (h : rx.examine slot = .ok (frame, transition)) (e : Errno) : (rx.commit transition).state ≠ .failed e := by
  obtain ⟨active, received, -, ⟨-, rfl⟩ | ⟨-, -, -, rfl⟩⟩ :=
    validateTransition_eq_ok.mp (Receiver.examine_eq_ok.mp h).2
  · simp [Receiver.commit]
  · simp only [Receiver.commit]
    split <;> simp

theorem Takes.keeps_going {rx rx' : Receiver} {bytes : List UInt8} {slots : List Slot}
    (h : Takes rx bytes slots rx') (hnf : ∀ e, rx.state ≠ .failed e) (e : Errno) :
    rx'.state ≠ .failed e := by
  cases h with
  | nil => exact hnf e
  | snoc _ hex => exact Receiver.commit_not_failed hex e

/-- `ReadResult rx outputLen slots seen rx' result`: what
`axivc_message_try_read` may have done.  It popped `slots`; `seen` is what
its last peek found, if it was not popped. -/
inductive ReadResult (rx : Receiver) (outputLen : Nat) :
    List Slot → Option (Option Slot) → Receiver → Except Errno ReceiveProgress → Prop where
  | failed {e : Errno} {seen : Option (Option Slot)} : rx.state = .failed e →
      ReadResult rx outputLen [] seen rx (.error e)
  | empty {bytes : List UInt8} {slots : List Slot} {rx' : Receiver} :
      (∀ e, rx.state ≠ .failed e) → Takes rx bytes slots rx' →
      ReadResult rx outputLen slots (some none) rx' (.ok ⟨bytes, slots.length, false⟩)
  | deferred {bytes : List UInt8} {slots : List Slot} {rx' : Receiver} {slot : Slot} :
      (∀ e, rx.state ≠ .failed e) → Takes rx bytes slots rx' → slots ≠ [] →
      (∀ frame transition, rx'.examine slot = .ok (frame, transition) →
        transition.aborted = true ∨ frame.fragment.length > outputLen - bytes.length) →
      ReadResult rx outputLen slots (some (some slot)) rx' (.ok ⟨bytes, slots.length, false⟩)
  | complete {bytes : List UInt8} {slots : List Slot} {rx' : Receiver} {slot : Slot} {frame : Frame}
      {transition : Transition} : (∀ e, rx.state ≠ .failed e) → Takes rx bytes slots rx' →
      rx'.examine slot = .ok (frame, transition) → transition.complete = true →
      transition.aborted = false →
      ReadResult rx outputLen (slots ++ [slot]) none (rx'.commit transition)
        (.ok ⟨bytes ++ frame.fragment, slots.length + 1, true⟩)
  | aborted {slot : Slot} {frame : Frame} {transition : Transition} :
      rx.examine slot = .ok (frame, transition) → transition.aborted = true →
      ReadResult rx outputLen [slot] none (rx.commit transition) (.error .ECONNRESET)
  | short {slot : Slot} {frame : Frame} {transition : Transition} :
      rx.examine slot = .ok (frame, transition) → frame.fragment.length > outputLen →
      ReadResult rx outputLen [] (some (some slot)) rx (.error .EMSGSIZE)
  | protocol {slot : Slot} {e : Errno} : (∀ e, rx.state ≠ .failed e) → rx.examine slot = .error e →
      ReadResult rx outputLen [] (some (some slot)) { rx with state := .failed e } (.error e)

/-- A failed receiver keeps returning its error. -/
theorem ReadResult.of_failed {rx rx' : Receiver} {outputLen : Nat} {slots : List Slot}
    {seen : Option (Option Slot)} {result : Except Errno ReceiveProgress} {e : Errno}
    (h : ReadResult rx outputLen slots seen rx' result) (hrx : rx.state = .failed e) :
    slots = [] ∧ rx' = rx ∧ result = .error e := by
  cases h with
  | failed he =>
      rw [hrx] at he
      cases he
      exact ⟨rfl, rfl, rfl⟩
  | empty hstate => exact absurd hrx (hstate e)
  | deferred hstate => exact absurd hrx (hstate e)
  | complete hstate => exact absurd hrx (hstate e)
  | protocol hstate => exact absurd hrx (hstate e)
  | @aborted slot _ _ hok =>
      obtain ⟨e', he'⟩ := Receiver.examine_failed hrx slot
      rw [hok] at he'
      cases he'
  | @short slot _ _ hok =>
      obtain ⟨e', he'⟩ := Receiver.examine_failed hrx slot
      rw [hok] at he'
      cases he'

/-- `PeekResult rx seen rx' result`: what `axivc_message_peek_meta` may have
done. -/
inductive PeekResult (rx : Receiver) :
    Option (Option Slot) → Receiver → Except Errno (Option MessageMeta) → Prop where
  | failed {e : Errno} {seen : Option (Option Slot)} : rx.state = .failed e →
      PeekResult rx seen rx (.error e)
  | receiving {seen : Option (Option Slot)} : rx.state = .receiving →
      PeekResult rx seen rx (.ok (some rx.active))
  | empty : rx.state = .idle → PeekResult rx (some none) rx (.ok none)
  | available {slot : Slot} {frame : Frame} : rx.state = .idle → decodeFrame slot = .ok frame →
      frame.abort = false → frame.first = true →
      PeekResult rx (some (some slot)) rx (.ok (some ⟨frame.messageId, frame.messageLen⟩))
  | protocol {slot : Slot} {e : Errno} : rx.state = .idle → rx.examine slot = .error e →
      PeekResult rx (some (some slot)) { rx with state := .failed e } (.error e)

/-! ## the programs on any ring -/

/-- A world in which the consumer's operations can be followed: `reads s slots
seen t` says that since `s` exactly the slots `slots` were popped, and that
`seen`, if given, is what a peek has found since the last pop. -/
structure PopLog {I : Iface} {σ : Type} (V : View I σ) (ring : RingImpl I)
    (reads : σ → List Slot → Option (Option Slot) → σ → Prop) : Prop where
  stable : ∀ {s slots seen t u}, reads s slots seen t → V.rely t u → V.inv u → reads s slots seen u
  peek : ∀ {s slots seen t}, reads s slots seen t →
    V.Safe (fun found u => reads s slots (some found) u) (ring .peek) t
  pop : ∀ {s slots slot t}, reads s slots (some (some slot)) t →
    V.Safe (fun _ u => reads s (slots ++ [slot]) none u) (ring .pop) t

section OnAnyRing

variable {I : Iface} {σ : Type} {V : View I σ} {ring : RingImpl I}
  {reads : σ → List Slot → Option (Option Slot) → σ → Prop} {s t : σ} {rx : Receiver}

/-- The postcondition that the program popped some more slots and returned as
`Q` says of these slots and of the last peek. -/
def Consumes (reads : σ → List Slot → Option (Option Slot) → σ → Prop) (s : σ) (slots : List Slot)
    {α : Type} (Q : List Slot → Option (Option Slot) → α → Prop) (a : α) (t : σ) : Prop :=
  ∃ more seen, reads s (slots ++ more) seen t ∧ Q more seen a

/-- Returning without another operation. -/
theorem PopLog.safe_ret (hV : PopLog V ring reads) {α : Type} {slots more : List Slot}
    {seen : Option (Option Slot)} {Q : List Slot → Option (Option Slot) → α → Prop} {a : α}
    (hr : reads s (slots ++ more) seen t) (h : Q more seen a) :
    V.Safe (Consumes reads s slots Q) (.ret a) t :=
  fun _ hrely hi => ⟨more, seen, hV.stable hr hrely hi, h⟩

/-- One iteration of the loop, by the decision on the slot it finds. -/
theorem processLoop_succ (outputLen : Nat) (rx : Receiver) (output : List UInt8)
    (consumedSlots iterations : Nat) :
    processLoop ring outputLen rx output consumedSlots (iterations + 1) = (do
      match ← ring .peek with
      | none => pure (rx, .ok ⟨output, consumedSlots, false⟩)
      | some slot =>
          match rx.examine slot with
          | .error e =>
              if consumedSlots > 0 then pure (rx, .ok ⟨output, consumedSlots, false⟩)
              else pure (receiverFail rx e)
          | .ok (frame, transition) =>
              if transition.aborted && consumedSlots > 0 then
                pure (rx, .ok ⟨output, consumedSlots, false⟩)
              else if frame.fragment.length > outputLen - output.length then
                if consumedSlots = 0 then pure (rx, .error .EMSGSIZE)
                else pure (rx, .ok ⟨output, consumedSlots, false⟩)
              else do
                ring .pop
                if transition.aborted then
                  pure (rx.commit transition, .error .ECONNRESET)
                else if transition.complete then
                  pure (rx.commit transition, .ok ⟨output ++ frame.fragment, consumedSlots + 1, true⟩)
                else
                  processLoop ring outputLen (rx.commit transition) (output ++ frame.fragment)
                    (consumedSlots + 1) iterations) := by
  rw [processLoop]
  congr 1
  funext found
  cases found with
  | none => rfl
  | some slot =>
      dsimp only [Receiver.examine]
      cases decodeFrame slot with
      | error e => rfl
      | ok frame =>
          dsimp only
          cases validateTransition rx frame <;> rfl

theorem safe_processLoop (hV : PopLog V ring reads) (hstate : ∀ e, rx.state ≠ .failed e)
    {outputLen : Nat} (iterations : Nat) {slots more : List Slot} {seen : Option (Option Slot)}
    {output : List UInt8} {rx' : Receiver} (hr : reads s (slots ++ more) seen t)
    (htakes : Takes rx output more rx') (hout : output.length ≤ outputLen)
    (hi : outputLen < output.length + iterations) :
    V.Safe (Consumes reads s slots fun more seen r => ReadResult rx outputLen more seen r.1 r.2)
      (processLoop ring outputLen rx' output more.length iterations) t := by
  induction iterations generalizing t more seen output rx' with
  | zero => omega
  | succ iterations ih =>
      rw [processLoop_succ]
      refine View.Safe.bind ((hV.peek hr).mono fun found u _ hu => ?_)
      cases found with
      | none => exact hV.safe_ret hu (.empty hstate htakes)
      | some slot =>
          dsimp only
          -- Once a slot has been consumed, whatever stops the loop is left
          -- for the next call.
          have hdefer (hne : more.length ≠ 0) (h : ∀ frame transition,
              rx'.examine slot = .ok (frame, transition) →
              transition.aborted = true ∨ frame.fragment.length > outputLen - output.length) :
              V.Safe (Consumes reads s slots fun more seen r => ReadResult rx outputLen more seen r.1 r.2)
                (.ret (rx', .ok ⟨output, more.length, false⟩)) u :=
            hV.safe_ret hu (.deferred hstate htakes (by rintro rfl; exact hne rfl) h)
          cases hex : rx'.examine slot with
          | error e =>
              dsimp only
              split
              · exact hdefer (by omega) (by rw [hex]; rintro _ _ ⟨⟩)
              · next hzero =>
                  obtain rfl : more = [] := List.length_eq_zero_iff.mp (by omega)
                  obtain ⟨rfl, rfl⟩ := htakes.of_nil rfl
                  exact hV.safe_ret hu (.protocol hstate hex)
          | ok decision =>
              obtain ⟨frame, transition⟩ := decision
              dsimp only
              split
              · next hab =>
                  rw [Bool.and_eq_true, decide_eq_true_eq] at hab
                  refine hdefer (by omega) ?_
                  rw [hex]
                  rintro _ _ ⟨⟩
                  exact .inl hab.1
              · next hab =>
                  split
                  · next hlong =>
                      split
                      · next hzero =>
                          obtain rfl : more = [] := List.length_eq_zero_iff.mp hzero
                          obtain ⟨rfl, rfl⟩ := htakes.of_nil rfl
                          exact hV.safe_ret hu (.short hex hlong)
                      · next hne =>
                          refine hdefer hne ?_
                          rw [hex]
                          rintro _ _ ⟨⟩
                          exact .inr hlong
                  · next hfits =>
                      refine View.Safe.bind ((hV.pop hu).mono fun _ v _ hv => ?_)
                      rw [List.append_assoc] at hv
                      split
                      · next hab' =>
                          obtain rfl : more = [] := by
                            rw [hab', Bool.true_and, decide_eq_true_eq] at hab
                            exact List.length_eq_zero_iff.mp (by omega)
                          obtain ⟨rfl, rfl⟩ := htakes.of_nil rfl
                          exact hV.safe_ret hv (.aborted hex hab')
                      · next hab' =>
                          rw [Bool.not_eq_true] at hab'
                          split
                          · next hcomplete => exact hV.safe_ret hv (.complete hstate htakes hex hcomplete hab')
                          · next hcont =>
                              rw [Bool.not_eq_true] at hcont
                              have hlen : (more ++ [slot]).length = more.length + 1 := by simp
                              rw [← hlen]
                              have hpos := Receiver.payload_pos_of_continues hex hcont hab'
                              have hsum : (output ++ frame.fragment).length = _ := List.length_append
                              exact ih hv (htakes.snoc hex hcont hab') (by omega) (by omega)

/-- **Reading**, on any ring. -/
theorem safe_messageTryRead (hV : PopLog V ring reads) (outputLen : Nat) {slots : List Slot}
    {seen : Option (Option Slot)} (hr : reads s slots seen t) :
    V.Safe (Consumes reads s slots fun more seen r => ReadResult rx outputLen more seen r.1 r.2)
      (messageTryRead ring rx outputLen) t := by
  rw [← List.append_nil slots] at hr
  rw [messageTryRead, processAvailableSlots]
  cases hstate : rx.state with
  | failed e => exact hV.safe_ret hr (.failed hstate)
  | idle => exact safe_processLoop hV (by simp [hstate]) _ hr .nil (Nat.zero_le _) (by simp)
  | receiving => exact safe_processLoop hV (by simp [hstate]) _ hr .nil (Nat.zero_le _) (by simp)

/-- **Peeking at the next message**, on any ring. -/
theorem safe_messagePeekMeta (hV : PopLog V ring reads) {slots : List Slot}
    {seen : Option (Option Slot)} (hr : reads s slots seen t) :
    V.Safe (fun r u => ∃ seen, reads s slots seen u ∧ PeekResult rx seen r.1 r.2)
      (messagePeekMeta ring rx) t := by
  have hret {a : Receiver × Except Errno (Option MessageMeta)} {seen : Option (Option Slot)} {u : σ}
      (hu : reads s slots seen u) (h : PeekResult rx seen a.1 a.2) :
      V.Safe (fun r u => ∃ seen, reads s slots seen u ∧ PeekResult rx seen r.1 r.2) (.ret a) u :=
    fun v hrely hi => ⟨seen, hV.stable hu hrely hi, h⟩
  rw [messagePeekMeta]
  cases hstate : rx.state with
  | failed e => exact hret hr (.failed hstate)
  | receiving => exact hret hr (.receiving hstate)
  | idle =>
      refine View.Safe.bind ((hV.peek hr).mono fun found u _ hu => ?_)
      cases found with
      | none => exact hret hu (.empty hstate)
      | some slot =>
          dsimp only
          cases hdec : decodeFrame slot with
          | error e => exact hret hu (.protocol hstate (by simp [Receiver.examine, hdec]))
          | ok frame =>
              dsimp only
              split
              · next hbad =>
                  refine hret hu (.protocol hstate ?_)
                  simp [Receiver.examine, hdec, validateTransition, transitionBase, hstate, hbad]
              · next hgood =>
                  rw [Bool.or_eq_true, not_or, Bool.not_eq_true, Bool.not_eq_true'] at hgood
                  exact hret hu (.available hstate hdec hgood.1 (by simpa using hgood.2))

/-! ## the calls return -/

theorem processLoop_returns (hring : ∀ o, (ring o).Returns) {outputLen : Nat} (iterations : Nat)
    {rx : Receiver} {output : List UInt8} {consumedSlots : Nat}
    (h : outputLen < output.length + iterations) (hout : output.length ≤ outputLen) :
    (processLoop ring outputLen rx output consumedSlots iterations).Returns := by
  induction iterations generalizing rx output consumedSlots with
  | zero => omega
  | succ iterations ih =>
      rw [processLoop_succ]
      refine (hring _).bind fun found => ?_
      cases found with
      | none => trivial
      | some slot =>
          dsimp only
          cases hex : rx.examine slot with
          | error e =>
              dsimp only
              split <;> trivial
          | ok decision =>
              obtain ⟨frame, transition⟩ := decision
              dsimp only
              split
              · trivial
              · split
                · split <;> trivial
                · next hfits =>
                    refine (hring _).bind fun _ => ?_
                    split
                    · trivial
                    · next hab =>
                        split
                        · trivial
                        · next hcont =>
                            have hpos := Receiver.payload_pos_of_continues hex (by simpa using hcont)
                              (by simpa using hab)
                            have hlen : (output ++ frame.fragment).length = _ := List.length_append
                            exact ih (by omega) (by omega)

theorem messageTryRead_returns (hring : ∀ o, (ring o).Returns) (rx : Receiver) (outputLen : Nat) :
    (messageTryRead ring rx outputLen).Returns := by
  rw [messageTryRead, processAvailableSlots]
  split
  · trivial
  · exact processLoop_returns hring _ (by simp) (Nat.zero_le _)

theorem messagePeekMeta_returns (hring : ∀ o, (ring o).Returns) (rx : Receiver) :
    (messagePeekMeta ring rx).Returns := by
  rw [messagePeekMeta]
  split
  · trivial
  · trivial
  · refine (hring _).bind fun found => ?_
    split
    · trivial
    · split
      · trivial
      · split <;> trivial

end OnAnyRing

end Axivc
