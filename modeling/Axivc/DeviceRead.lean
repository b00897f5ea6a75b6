import Axivc.Endpoint
import Axivc.Grammar

/-!
# Axivc.DeviceRead

Any number of `read(2)` calls on one endpoint.

As in `Axivc.DeviceWrite` every call is a thread of its own, and the threads
interleave at single kernel operations.  The peer publishes arbitrary slots
at any time and leaves alone what it has published; when it does so, which
user copies fault, what the clock says and which sleeps are interrupted is
left to the world.  `ReadRecord` is what can be said about a call from
outside: what it found when it obtained the lock, the slots it popped, what
it wrote to its buffer, and what it left and returned.

`ReadEnds` lists the ways a call under the lock can end.  The contract of the
device, `device_read_whole_message`, is read off it.
-/

namespace Axivc

open Prog Rely

/-! ## the calls -/

/-- The arguments of a call. -/
structure ReadCall where
  iterations : Nat
  count : UInt64

/-- What happened in a call. -/
structure ReadRecord where
  iterations : Nat
  count : UInt64
  /-- the receiver and the published slots found under the lock, once the lock
  is obtained -/
  entered : Option (Receiver × List Slot)
  popped : List Slot
  /-- what the call wrote to user memory, by offset -/
  buffer : Nat → Option UInt8
  faulted : Bool
  /-- the receiver when the lock was released -/
  left : Option Receiver
  result : Option (Except Errno Nat)

/-- The receiving half of an endpoint, the slots published and not yet popped,
the holder of `rx_lock`, and the calls so far. -/
structure ReadState where
  rx : Receiver
  pending : List Slot
  owner : Option Nat
  calls : Nat → Option ReadRecord

/-- User memory after a copy to it. -/
def userWrite (buffer : Nat → Option UInt8) (offset : Nat) (bytes : List UInt8) (k : Nat) : Option UInt8 :=
  if offset ≤ k ∧ k < offset + bytes.length then bytes[k - offset]? else buffer k

namespace ReadRecord

/-- A call that has not done anything yet. -/
def fresh (call : ReadCall) : ReadRecord where
  iterations := call.iterations
  count := call.count
  entered := none
  popped := []
  buffer _ := none
  faulted := false
  left := none
  result := none

/-- A copy to user memory that missed the last `uncopied` bytes. -/
def copied (r : ReadRecord) (offset : Nat) (bytes : List UInt8) (uncopied : Nat) : ReadRecord :=
  { r with
    buffer := userWrite r.buffer offset (bytes.take (bytes.length - uncopied))
    faulted := r.faulted || uncopied ≠ 0 }

end ReadRecord

namespace ReadState

/-- An endpoint just initialised. -/
def init : ReadState := ⟨messageReceiverInit, [], none, fun _ => none⟩

/-- Add to the record of call `i`. -/
def note (s : ReadState) (i : Nat) (f : ReadRecord → ReadRecord) : ReadState :=
  { s with calls := Function.update s.calls i ((s.calls i).map f) }

/-- The answers an operation can have. -/
def Answers (s : ReadState) : (o : EndpointOp ringIface Receiver) → (endpointIface ringIface Receiver).Res o → Prop
  | .mutexLockInterruptible, r => r = .error .EINTR ∨ r = .ok () ∧ s.owner = none
  | .load, r => r = s.rx
  | .ring .peek, r => r = s.pending.head?
  | .copyToUser _ bytes, r => r ≤ bytes.length
  | _, _ => True

/-- The state after an operation of call `i`, by its answer. -/
def effect (s : ReadState) (i : Nat) :
    (o : EndpointOp ringIface Receiver) → (endpointIface ringIface Receiver).Res o → ReadState
  | .mutexLockInterruptible, .ok () =>
      { s.note i fun r => { r with entered := some (s.rx, s.pending) } with owner := some i }
  | .mutexUnlock, _ => { s.note i fun r => { r with left := some s.rx } with owner := none }
  | .store rx, _ => { s with rx := rx }
  | .ring .pop, _ =>
      { s.note i fun r => { r with popped := r.popped ++ s.pending.take 1 } with pending := s.pending.tail }
  | .copyToUser offset bytes, uncopied => s.note i fun r => r.copied offset bytes uncopied
  | _, _ => s

end ReadState

/-- The `read(2)` calls on one endpoint, at single operations; the peer
publishes whatever it likes. -/
def readMachine (target : NotifyTarget) :
    Machine Nat (endpointIface ringIface Receiver) ReadState ReadCall (Except Errno Nat) where
  body _ call _ := recvMessage atomicRing target call.iterations call.count
  exec i o s r t := s.Answers o r ∧ t = s.effect i o r
  start i call s t := s.calls i = none ∧ t = { s with calls := Function.update s.calls i (some (.fresh call)) }
  finish i a s t := t = s.note i fun r => { r with result := some a }
  env s t := ∃ slots, t = { s with pending := s.pending ++ slots }

/-! ## how a call ends -/

/-- The slots `popped` and then `rest` are what comes after `q` began: both
`q` with later arrivals and `popped` with what is left. -/
def Ahead (q popped rest : List Slot) : Prop := ∃ arrivals, q ++ arrivals = popped ++ rest

/-- The errors a failed receiver can have. -/
def Sticky (e : Errno) : Prop :=
  e = .EPROTO ∨ e = .EPROTONOSUPPORT ∨ e = .EFAULT ∨ e = .ETIMEDOUT ∨ e = .ERESTARTSYS

/-- `ReadEnds count rx q faulted popped bytes rx' result`: a call that found
the receiver `rx` and the slots `q` popped `popped`, received `bytes`, left
`rx'` and returned `result`. -/
inductive ReadEnds (count : UInt64) (rx : Receiver) (q : List Slot) :
    Bool → List Slot → List UInt8 → Receiver → Except Errno Nat → Prop where
  | failed {e : Errno} : rx.state = .failed e → Sticky e → ReadEnds count rx q false [] [] rx (.error e)
  | empty : rx.state = .idle → q = [] → ReadEnds count rx q false [] [] rx (.ok 0)
  | tooLong {slot : Slot} {frame : Frame} {rest : List Slot} : rx.state = .idle → Ahead q [] (slot :: rest) →
      decodeFrame slot = .ok frame → frame.messageLen > count →
      ReadEnds count rx q false [] [] rx (.error .EMSGSIZE)
  | message {slots rest : List Slot} {bytes : List UInt8} {rx' : Receiver} {slot : Slot} {frame : Frame}
      {transition : Transition} : rx.state = .idle → Takes rx bytes slots rx' →
      Ahead q slots (slot :: rest) → rx'.examine slot = .ok (frame, transition) →
      transition.complete = true → frame.messageLen ≤ count →
      ReadEnds count rx q false (slots ++ [slot]) (bytes ++ frame.fragment) (rx'.commit transition)
        (if frame.messageLen = 0 then .error .EOPNOTSUPP else .ok (bytes ++ frame.fragment).length)
  | aborted {slots rest : List Slot} {bytes : List UInt8} {rx' : Receiver} {slot : Slot} {frame : Frame}
      {transition : Transition} : rx.state = .idle → Takes rx bytes slots rx' →
      Ahead q slots (slot :: rest) → rx'.examine slot = .ok (frame, transition) →
      transition.aborted = true →
      ReadEnds count rx q false (slots ++ [slot]) bytes (rx'.commit transition) (.error .ECONNRESET)
  | protocol {slots rest : List Slot} {bytes : List UInt8} {rx' : Receiver} {slot : Slot} {e : Errno} :
      rx.state = .idle → Takes rx bytes slots rx' → Ahead q slots (slot :: rest) →
      rx'.examine slot = .error e → Sticky e →
      ReadEnds count rx q false slots bytes (messageReceiverPoison rx' e) (.error e)
  | drained {slots rest : List Slot} {bytes : List UInt8} {rx' : Receiver} {e : Errno} : rx.state = .idle →
      Takes rx bytes slots rx' → Ahead q slots rest → q.length ≤ slots.length →
      e = .ETIMEDOUT ∨ e = .ERESTARTSYS →
      ReadEnds count rx q false slots bytes (messageReceiverPoison rx' e) (.error e)
  | fault {slots : List Slot} {frames : List Frame} {rx' : Receiver} : Decodes slots frames →
      (∀ f ∈ frames, f.abort = false) → payload frames ≠ [] →
      ReadEnds count rx q true slots (payload frames) (messageReceiverPoison rx' .EFAULT) (.error .EFAULT)

section Ends

variable {count : UInt64} {rx rx' : Receiver} {q slots : List Slot} {bytes : List UInt8}

/-- Taking slots and then some more. -/
theorem Takes.trans {rx'' : Receiver} {slots' : List Slot} {bytes' : List UInt8} (h : Takes rx bytes slots rx')
    (h' : Takes rx' bytes' slots' rx'') : Takes rx (bytes ++ bytes') (slots ++ slots') rx'' := by
  induction h' with
  | nil => simpa using h
  | snoc _ hex hc ha ih =>
      rw [← List.append_assoc, ← List.append_assoc]
      exact ih.snoc hex hc ha

/-- Taken from an idle receiver, slots are the start of a message. -/
theorem Takes.parsed (h : Takes rx bytes slots rx') (hidle : rx.state = .idle) :
    ∃ frames, Decodes slots frames ∧ payload frames = bytes ∧ Parsed rx' [] frames := by
  induction h with
  | nil => exact ⟨[], rfl, rfl, .of_idle hidle⟩
  | @snoc rx₁ _ _ slot frame transition _ hex hc ha ih =>
      obtain ⟨frames, hdec, hpay, hparsed⟩ := ih
      obtain ⟨hslot, hval⟩ := Receiver.examine_eq_ok.mp hex
      refine ⟨frames ++ [frame], hdec.snoc hslot, ?_, hparsed.snoc hval hc ha⟩
      rw [payload_append, payload_singleton, hpay]

theorem Takes.not_failed (h : Takes rx bytes slots rx') (hidle : rx.state = .idle) (e : Errno) :
    rx'.state ≠ .failed e :=
  h.keeps_going (by simp [hidle]) e

/-- The frames of an open message carry neither LAST nor ABORT. -/
theorem Parsed.open_frame {frames : List Frame} (h : Parsed rx [] frames) {f : Frame} (hf : f ∈ frames) :
    f.last = false ∧ f.abort = false ∧ f.messageLen = rx.active.len := by
  rcases h.state with ⟨-, rfl⟩ | ⟨-, hopening, -⟩
  · cases hf
  · exact ⟨hopening.not_last f hf, (hopening.belongs.same f hf).2.2, (hopening.belongs.same f hf).2.1⟩

/-- The frames of a whole message. -/
theorem IsMessage.frame {frames : List Frame} (h : IsMessage frames) {f : Frame} (hf : f ∈ frames) :
    f.abort = false ∧ f.messageLen.toNat = (payload frames).length := by
  obtain ⟨msg, init, last, rfl, hbelongs, -, -, htotal⟩ := h
  obtain ⟨-, hlen, habort⟩ := hbelongs.same f hf
  exact ⟨habort, by rw [hlen, htotal]⟩

theorem IsMessage.has_last {frames : List Frame} (h : IsMessage frames) : ∃ f ∈ frames, f.last = true := by
  obtain ⟨msg, init, last, rfl, -, -, hl, -⟩ := h
  exact ⟨last, by simp, hl⟩

/-- The slots of a completed message. -/
theorem Takes.message (h : Takes rx bytes slots rx') (hidle : rx.state = .idle) {slot : Slot} {frame : Frame}
    {transition : Transition} (hex : rx'.examine slot = .ok (frame, transition))
    (hc : transition.complete = true) : (rx'.commit transition).state = .idle ∧
      ∃ frames, Decodes (slots ++ [slot]) frames ∧ IsMessage frames ∧ payload frames = bytes ++ frame.fragment ∧
        frame ∈ frames := by
  obtain ⟨frames, hdec, hpay, hparsed⟩ := h.parsed hidle
  obtain ⟨hslot, hval⟩ := Receiver.examine_eq_ok.mp hex
  obtain ⟨-, -, -, hnext, hmsg⟩ := hparsed.isMessage hval hc
  refine ⟨hnext, _, hdec.snoc hslot, hmsg, ?_, by simp⟩
  rw [payload_append, payload_singleton, hpay]

/-- The slots of an aborted message. -/
theorem Takes.aborted (h : Takes rx bytes slots rx') (hidle : rx.state = .idle) {slot : Slot} {frame : Frame}
    {transition : Transition} (hex : rx'.examine slot = .ok (frame, transition))
    (hab : transition.aborted = true) : (rx'.commit transition).state = .idle ∧ frame.abort = true ∧
      decodeFrame slot = .ok frame ∧ ∃ frames, Decodes (slots ++ [slot]) frames ∧ IsAborted frames := by
  obtain ⟨frames, hdec, hpay, hparsed⟩ := h.parsed hidle
  obtain ⟨hslot, hval⟩ := Receiver.examine_eq_ok.mp hex
  obtain ⟨-, habort, hnext, hword⟩ := hparsed.isAborted hval hab
  exact ⟨hnext, habort, hslot, _, hdec.snoc hslot, hword⟩

/-- One of the slots is an ABORT frame. -/
def HasAbort (slots : List Slot) : Prop :=
  ∃ slot ∈ slots, ∃ frame, decodeFrame slot = .ok frame ∧ frame.abort = true

/-- The slots are those of one empty message. -/
def EmptyMessage (slots : List Slot) : Prop :=
  ∃ frames, Decodes slots frames ∧ IsMessage frames ∧ payload frames = []

theorem Decodes.not_hasAbort {frames : List Frame} (h : Decodes slots frames)
    (hall : ∀ f ∈ frames, f.abort = false) : ¬ HasAbort slots := by
  rintro ⟨slot, hslot, frame, hdec, habort⟩
  have hmem : Except.ok frame ∈ frames.map (Except.ok (ε := Errno)) := by
    rw [← show slots.map decodeFrame = _ from h, ← hdec]
    exact List.mem_map_of_mem hslot
  obtain ⟨f, hf, hfe⟩ := List.mem_map.mp hmem
  rw [Except.ok.inj hfe] at hf
  rw [hall frame hf] at habort
  cases habort

theorem Takes.not_hasAbort (h : Takes rx bytes slots rx') (hidle : rx.state = .idle) : ¬ HasAbort slots := by
  obtain ⟨frames, hdec, -, hparsed⟩ := h.parsed hidle
  exact hdec.not_hasAbort fun f hf => (hparsed.open_frame hf).2.1

/-- The start of a message is not a whole one. -/
theorem Takes.not_isMessage (h : Takes rx bytes slots rx') (hidle : rx.state = .idle) {frames : List Frame}
    (hdec : Decodes slots frames) : ¬ IsMessage frames := by
  intro hmsg
  obtain ⟨frames', hdec', -, hparsed⟩ := h.parsed hidle
  obtain rfl := hdec.unique hdec'
  obtain ⟨f, hf, hl⟩ := hmsg.has_last
  rw [(hparsed.open_frame hf).1] at hl
  cases hl

theorem not_emptyMessage_nil : ¬ EmptyMessage [] := by
  rintro ⟨frames, hdec, hmsg, -⟩
  obtain rfl : frames = [] := List.length_eq_zero_iff.mp hdec.length_eq
  obtain ⟨f, hf, -⟩ := hmsg.has_last
  cases hf

section Contract

variable {faulted : Bool} {a : Except Errno Nat} (h : ReadEnds count rx q faulted slots bytes rx' a)
include h

/-- A positive count is that of one whole message. -/
theorem ReadEnds.whole {n : Nat} (ha : a = .ok n) (hn : 0 < n) :
    faulted = false ∧ n ≤ count.toNat ∧ ∃ frames, Decodes slots frames ∧ IsMessage frames ∧
      payload frames = bytes ∧ bytes.length = n ∧ ∀ f ∈ frames, f.messageLen.toNat = n := by
  cases h with
  | empty =>
      cases ha
      cases hn
  | @message _ _ _ _ _ frame _ hidle htakes _ hex hc hcount =>
      obtain ⟨-, frames, hdec, hmsg, hpay, hmem⟩ := htakes.message hidle hex hc
      split at ha
      · cases ha
      · have hlen : _ = n := Except.ok.inj ha
        have hall (f : Frame) (hf : f ∈ frames) : f.messageLen.toNat = n := by
          rw [(hmsg.frame hf).2, hpay, hlen]
        refine ⟨rfl, ?_, frames, hdec, hmsg, hpay, hlen, hall⟩
        rw [← hall frame hmem]
        exact UInt64.le_iff_toNat_le.mp hcount
  | failed | tooLong | aborted | protocol | drained | fault => cases ha

/-- No message, or one that is too long: nothing has changed. -/
theorem ReadEnds.unchanged (ha : a = .ok 0 ∨ a = .error .EMSGSIZE) : slots = [] ∧ bytes = [] ∧ rx' = rx := by
  cases h with
  | failed | empty | tooLong => exact ⟨rfl, rfl, rfl⟩
  | @message _ _ _ _ _ frame _ hidle htakes _ hex hc =>
      obtain ⟨-, frames, -, hmsg, hpay, hmem⟩ := htakes.message hidle hex hc
      split at ha
      · rcases ha with ha | ha <;> cases ha
      · next hne =>
          rcases ha with ha | ha
          · refine absurd (UInt64.toNat_inj.mp ?_) hne
            rw [(hmsg.frame hmem).2, hpay, show _ = 0 from Except.ok.inj ha]
            rfl
          · cases ha
  | aborted | fault => rcases ha with ha | ha <;> cases ha
  | protocol _ _ _ _ hsticky =>
      rcases ha with ha | ha
      · cases ha
      · cases ha
        simp [Sticky] at hsticky
  | drained _ _ _ _ he =>
      rcases ha with ha | ha
      · cases ha
      · cases ha
        simp at he

/-- ECONNRESET is returned exactly when an ABORT frame was popped. -/
theorem ReadEnds.aborted_iff : a = .error .ECONNRESET ↔ HasAbort slots := by
  cases h with
  | failed _ hsticky =>
      refine iff_of_false ?_ (by simp [HasAbort])
      rintro ⟨⟩
      simp [Sticky] at hsticky
  | empty | tooLong => exact iff_of_false (by simp) (by simp [HasAbort])
  | message hidle htakes _ hex hc =>
      obtain ⟨-, frames, hdec, hmsg, -⟩ := htakes.message hidle hex hc
      refine iff_of_false ?_ (hdec.not_hasAbort fun f hf => (hmsg.frame hf).1)
      split <;> simp
  | @aborted _ _ _ _ slot _ _ hidle htakes _ hex hab =>
      obtain ⟨-, habort, hslot, -⟩ := htakes.aborted hidle hex hab
      exact iff_of_true rfl ⟨slot, by simp, _, hslot, habort⟩
  | protocol hidle htakes _ _ hsticky =>
      refine iff_of_false ?_ (htakes.not_hasAbort hidle)
      rintro ⟨⟩
      simp [Sticky] at hsticky
  | drained hidle htakes _ _ he =>
      refine iff_of_false ?_ (htakes.not_hasAbort hidle)
      rintro ⟨⟩
      simp at he
  | fault hdec hall => exact iff_of_false (by simp) (hdec.not_hasAbort hall)

/-- It leaves the receiver at the end of an aborted message. -/
theorem ReadEnds.idle_of_aborted (ha : a = .error .ECONNRESET) :
    rx'.state = .idle ∧ ∃ frames, Decodes slots frames ∧ IsAborted frames := by
  cases h with
  | aborted hidle htakes _ hex hab =>
      obtain ⟨hnext, -, -, hframes⟩ := htakes.aborted hidle hex hab
      exact ⟨hnext, hframes⟩
  | failed _ hsticky =>
      cases ha
      simp [Sticky] at hsticky
  | protocol _ _ _ _ hsticky =>
      cases ha
      simp [Sticky] at hsticky
  | drained _ _ _ _ he =>
      cases ha
      simp at he
  | message => split at ha <;> cases ha
  | empty | tooLong | fault => cases ha

/-- EOPNOTSUPP is returned exactly when an empty message was popped. -/
theorem ReadEnds.empty_iff : a = .error .EOPNOTSUPP ↔ EmptyMessage slots := by
  cases h with
  | failed _ hsticky =>
      refine iff_of_false ?_ not_emptyMessage_nil
      rintro ⟨⟩
      simp [Sticky] at hsticky
  | empty | tooLong => exact iff_of_false (by simp) not_emptyMessage_nil
  | @message _ _ _ _ _ frame _ hidle htakes _ hex hc =>
      obtain ⟨-, frames, hdec, hmsg, hpay, hmem⟩ := htakes.message hidle hex hc
      have hlen := (hmsg.frame hmem).2
      split
      · next hz =>
          rw [hz] at hlen
          exact iff_of_true rfl ⟨frames, hdec, hmsg, List.length_eq_zero_iff.mp hlen.symm⟩
      · next hne =>
          refine iff_of_false (by simp) ?_
          rintro ⟨frames', hdec', -, hnil⟩
          obtain rfl := hdec.unique hdec'
          rw [hnil] at hlen
          exact hne (UInt64.toNat_inj.mp hlen)
  | aborted hidle htakes _ hex hab =>
      obtain ⟨-, habort, hslot, -⟩ := htakes.aborted hidle hex hab
      refine iff_of_false (by simp) ?_
      rintro ⟨frames, hdec, hmsg, -⟩
      obtain ⟨init, f, rfl, -, hf⟩ := hdec.of_snoc
      rw [hslot] at hf
      cases hf
      rw [(hmsg.frame (by simp)).1] at habort
      cases habort
  | protocol hidle htakes _ _ hsticky =>
      refine iff_of_false ?_ ?_
      · rintro ⟨⟩
        simp [Sticky] at hsticky
      · rintro ⟨frames, hdec, hmsg, -⟩
        exact htakes.not_isMessage hidle hdec hmsg
  | drained hidle htakes _ _ he =>
      refine iff_of_false ?_ ?_
      · rintro ⟨⟩
        simp at he
      · rintro ⟨frames, hdec, hmsg, -⟩
        exact htakes.not_isMessage hidle hdec hmsg
  | fault hdec _ hne =>
      refine iff_of_false (by simp) ?_
      rintro ⟨frames, hdec', -, hnil⟩
      obtain rfl := hdec.unique hdec'
      exact hne hnil

/-- Every other error leaves a failed receiver. -/
theorem ReadEnds.failed_of_error {e : Errno} (ha : a = .error e) (hreset : e ≠ .ECONNRESET)
    (hempty : e ≠ .EOPNOTSUPP) (hsize : e ≠ .EMSGSIZE) : rx'.state = .failed e := by
  cases h with
  | failed hfailed =>
      cases ha
      exact hfailed
  | empty => cases ha
  | tooLong =>
      cases ha
      exact absurd rfl hsize
  | message =>
      split at ha
      · cases ha
        exact absurd rfl hempty
      · cases ha
  | aborted =>
      cases ha
      exact absurd rfl hreset
  | protocol | drained | fault =>
      cases ha
      rfl

/-- No call leaves the receiver in the middle of a message. -/
theorem ReadEnds.between : rx'.state ≠ .receiving ∧ ∀ e, rx'.state = .failed e → Sticky e := by
  cases h with
  | failed hf hsticky =>
      refine ⟨by simp [hf], fun e he => ?_⟩
      rw [hf] at he
      cases he
      exact hsticky
  | empty hidle | tooLong hidle => exact ⟨by simp [hidle], by simp [hidle]⟩
  | message hidle htakes _ hex hc => simp [(htakes.message hidle hex hc).1]
  | aborted hidle htakes _ hex hab => simp [(htakes.aborted hidle hex hab).1]
  | protocol _ _ _ _ hsticky => exact ⟨by rintro ⟨⟩, by rintro _ ⟨⟩; exact hsticky⟩
  | drained _ _ _ _ he =>
      refine ⟨by rintro ⟨⟩, ?_⟩
      rintro _ ⟨⟩
      rcases he with rfl | rfl <;> simp [Sticky]
  | fault =>
      refine ⟨by rintro ⟨⟩, ?_⟩
      rintro _ ⟨⟩
      simp [Sticky]

end Contract

/-! ## a whole message at the head of the ring -/

theorem Takes.accepted (h : Takes rx bytes slots rx') : slots.foldlM Receiver.accept rx = .ok rx' := by
  induction h with
  | nil => rfl
  | snoc _ hex _ _ ih => exact foldlM_snoc.mpr ⟨_, ih, Receiver.accept_iff_examine.mpr ⟨_, _, hex, rfl⟩⟩

section Whole

variable {ms later rest : List Slot} {frames : List Frame} (hidle : rx.state = .idle) (hdec : Decodes ms frames)
  (hmsg : IsMessage frames)
include hidle hdec hmsg

/-- The start of a message ends before the message does. -/
theorem Takes.length_lt (h : Takes rx bytes slots rx') (hahead : Ahead (ms ++ later) slots rest) :
    slots.length < ms.length := by
  by_contra hlt
  obtain ⟨arrivals, heq⟩ := hahead
  have hms : ms <+: slots ++ rest := by
    rw [← heq, List.append_assoc]
    exact List.prefix_append _ _
  have hpre : ms <+: slots := List.prefix_of_prefix_length_le hms (List.prefix_append _ _) (by omega)
  obtain ⟨more, rfl⟩ := hpre
  obtain ⟨frames', hdec', -, hparsed⟩ := h.parsed hidle
  have htake := hdec'.take ms.length
  rw [List.take_left'] at htake
  · obtain rfl := hdec.unique htake
    obtain ⟨f, hf, hl⟩ := hmsg.has_last
    rw [(hparsed.open_frame (List.mem_of_mem_take hf)).1] at hl
    cases hl
  · rfl

/-- The next slot of the message is accepted, and LAST is its last one. -/
theorem Takes.next (h : Takes rx bytes slots rx') {slot : Slot} (hahead : Ahead (ms ++ later) slots (slot :: rest)) :
    ∃ frame transition, rx'.examine slot = .ok (frame, transition) ∧ frame ∈ frames ∧
      (frame.last = true → ms = slots ++ [slot]) := by
  have hlt := h.length_lt hidle hdec hmsg hahead
  obtain ⟨arrivals, heq⟩ := hahead
  have hms : ms <+: slots ++ slot :: rest := by
    rw [← heq, List.append_assoc]
    exact List.prefix_append _ _
  have hslots : slots ++ [slot] <+: slots ++ slot :: rest := ⟨rest, by simp⟩
  have hpre : slots ++ [slot] <+: ms := List.prefix_of_prefix_length_le hslots hms (by simp; omega)
  obtain ⟨more, rfl⟩ := hpre
  obtain ⟨rx₁, hfold, -⟩ := accept_message hidle hmsg
  have hall := foldlM_accept_iff.mpr ⟨frames, hdec, hfold⟩
  rw [List.append_assoc, List.foldlM_append, h.accepted] at hall
  change (slot :: more).foldlM Receiver.accept rx' = _ at hall
  rw [List.foldlM_cons] at hall
  have hslot : ∃ rx₂, rx'.accept slot = .ok rx₂ := by
    cases hacc : rx'.accept slot with
    | ok rx₂ => exact ⟨rx₂, rfl⟩
    | error e =>
        rw [hacc] at hall
        cases hall
  obtain ⟨rx₂, hacc⟩ := hslot
  obtain ⟨frame, transition, hex, -⟩ := Receiver.accept_iff_examine.mp hacc
  obtain ⟨hframe, -⟩ := Receiver.examine_eq_ok.mp hex
  -- Where the slot's frame lies among the frames of the message.
  have htake := hdec.take (slots.length + 1)
  have hdrop := hdec.drop (slots.length + 1)
  rw [List.take_left' (by simp)] at htake
  rw [List.drop_left' (by simp)] at hdrop
  obtain ⟨before, f, hbefore, -, hf⟩ := htake.of_snoc
  obtain rfl : f = frame := Except.ok.inj (hf.symm.trans hframe)
  have hsplit : frames = before ++ [f] ++ frames.drop (slots.length + 1) := by
    rw [← hbefore, List.take_append_drop]
  refine ⟨f, transition, hex, by rw [hsplit]; simp, fun hl => ?_⟩
  obtain ⟨msg, init, last, heq', -, hnl, -⟩ := hmsg
  rcases List.eq_nil_or_concat (frames.drop (slots.length + 1)) with hnil | ⟨xs, x, hx⟩
  · have := hdrop.length_eq
    rw [hnil, List.length_nil, eq_comm, List.length_eq_zero_iff] at this
    rw [this, List.append_nil]
  · rw [hx, List.concat_eq_append, ← List.append_assoc] at hsplit
    obtain ⟨hinit, -⟩ := List.append_inj' (heq'.symm.trans hsplit) rfl
    rw [hnl f (by rw [hinit]; simp)] at hl
    cases hl

/-- **A whole message that fits is delivered**, unless a user copy faults. -/
theorem ReadEnds.delivers {a : Except Errno Nat} (h : ReadEnds count rx (ms ++ later) false slots bytes rx' a)
    (hne : payload frames ≠ []) (hcount : (payload frames).length ≤ count.toNat) :
    slots = ms ∧ a = .ok (payload frames).length := by
  have hms : ms ≠ [] := by
    rintro rfl
    obtain rfl : frames = [] := List.length_eq_zero_iff.mp hdec.length_eq
    exact hne rfl
  cases h with
  | failed hf => simp [hidle] at hf
  | empty _ hq => exact absurd (List.append_eq_nil_iff.mp hq).1 hms
  | tooLong _ hahead hslot hlong =>
      obtain ⟨f, transition, hex, hmem, -⟩ := Takes.nil.next hidle hdec hmsg hahead
      rw [(Receiver.examine_eq_ok.mp hex).1] at hslot
      cases hslot
      rw [gt_iff_lt, UInt64.lt_iff_toNat_lt, (hmsg.frame hmem).2] at hlong
      omega
  | @message _ _ _ _ _ frame _ _ htakes hahead hex hc =>
      obtain ⟨f, transition', hex', hmem, hend⟩ := htakes.next hidle hdec hmsg hahead
      rw [hex] at hex'
      cases hex'
      obtain ⟨-, frames', hdec', hmsg', hpay, -⟩ := htakes.message hidle hex hc
      obtain ⟨fs, -, -, hparsed⟩ := htakes.parsed hidle
      obtain rfl := hend (hparsed.isMessage (Receiver.examine_eq_ok.mp hex).2 hc).2.2.1
      obtain rfl := hdec.unique hdec'
      refine ⟨rfl, ?_⟩
      rw [if_neg, hpay]
      intro hz
      have hlen := (hmsg.frame hmem).2
      rw [hz] at hlen
      exact hne (List.length_eq_zero_iff.mp hlen.symm)
  | aborted _ htakes hahead hex hab =>
      obtain ⟨f, transition', hex', hmem, -⟩ := htakes.next hidle hdec hmsg hahead
      rw [hex] at hex'
      cases hex'
      have habort := (htakes.aborted hidle hex hab).2.1
      rw [(hmsg.frame hmem).1] at habort
      cases habort
  | protocol _ htakes hahead hex =>
      obtain ⟨f, transition', hex', -⟩ := htakes.next hidle hdec hmsg hahead
      rw [hex] at hex'
      cases hex'
  | drained _ htakes hahead hle =>
      have hlt := htakes.length_lt hidle hdec hmsg hahead
      rw [List.length_append] at hle
      omega

end Whole

end Ends

/-! ## the outline -/

/-- User memory that holds exactly `bytes`. -/
def Holding (bytes : List UInt8) (k : Nat) : Option UInt8 := bytes[k]?

theorem userWrite_holding (bytes more : List UInt8) :
    userWrite (Holding bytes) bytes.length more = Holding (bytes ++ more) := by
  funext k
  simp only [userWrite, Holding]
  split
  · next h => rw [List.getElem?_append_right h.1]
  · next h =>
      by_cases hk : k < bytes.length
      · rw [List.getElem?_append_left hk]
      · rw [List.getElem?_eq_none (by omega), List.getElem?_eq_none (by rw [List.length_append]; omega)]

namespace ReadRecord

/-- What a call may return, by its record. -/
def Settled (r : ReadRecord) (a : Except Errno Nat) : Prop :=
  match r.entered with
  | none => r.popped = [] ∧ (a = .error .EINTR ∨ r.count = 0 ∧ a = .ok 0)
  | some (rx, q) => ∃ bytes rx', r.left = some rx' ∧ ReadEnds r.count rx q r.faulted r.popped bytes rx' a ∧
      (r.faulted = false → r.buffer = Holding bytes)

/-- A call that has used up its iterations: it has popped the start of a
message, and a slot with each iteration unless it ran out of slots. -/
def Polling (r : ReadRecord) : Prop :=
  ∃ rx q, r.entered = some (rx, q) ∧ rx.state = .idle ∧ ∃ bytes rx' rest, Takes rx bytes r.popped rx' ∧
    Ahead q r.popped rest ∧ (r.iterations ≤ r.popped.length ∨ q.length ≤ r.popped.length)

end ReadRecord

namespace ReadState

/-- The invariant: between calls the receiver is in no message. -/
structure Inv (s : ReadState) : Prop where
  free : s.owner = none → s.rx.state ≠ .receiving
  sticky : ∀ e, s.rx.state = .failed e → Sticky e
  settled : ∀ i r a, s.calls i = some r → r.result = some a → r.Settled a

/-- What no other call changes: the record of call `i`, and under the lock the
receiver and the slots already published. -/
structure Kept (i : Nat) (s t : ReadState) : Prop where
  record : t.calls i = s.calls i
  owner : t.owner = some i ↔ s.owner = some i
  rx : s.owner = some i → t.rx = s.rx
  pending : s.owner = some i → ∃ more, t.pending = s.pending ++ more

theorem Kept.refl (i : Nat) (s : ReadState) : Kept i s s := ⟨rfl, Iff.rfl, fun _ => rfl, fun _ => ⟨[], by simp⟩⟩

theorem Kept.trans {i : Nat} {s t u : ReadState} (h : Kept i s t) (h' : Kept i t u) : Kept i s u := by
  refine ⟨h'.record.trans h.record, h'.owner.trans h.owner,
    fun ho => (h'.rx (h.owner.mpr ho)).trans (h.rx ho), fun ho => ?_⟩
  obtain ⟨more, hm⟩ := h.pending ho
  obtain ⟨more', hm'⟩ := h'.pending (h.owner.mpr ho)
  exact ⟨more ++ more', by rw [hm', hm, List.append_assoc]⟩

theorem note_self (s : ReadState) (i : Nat) (f : ReadRecord → ReadRecord) :
    (s.note i f).calls i = (s.calls i).map f := Function.update_self ..

theorem note_of_ne (s : ReadState) {i j : Nat} (h : j ≠ i) (f : ReadRecord → ReadRecord) :
    (s.note i f).calls j = s.calls j := Function.update_of_ne h ..

/-- A step of the holder of the lock, or of a call while the lock is free,
changes nothing for the others. -/
theorem Kept.of_ne {i j : Nat} (hj : j ≠ i) {s t : ReadState} (f : ReadRecord → ReadRecord)
    (hcalls : t.calls = (s.note i f).calls) (ho : s.owner = none ∨ s.owner = some i)
    (ho' : t.owner = none ∨ t.owner = some i) : Kept j s t := by
  have hs : s.owner ≠ some j := by
    rcases ho with h | h <;> rw [h] <;> simp
    exact fun h => hj h.symm
  have ht : t.owner ≠ some j := by
    rcases ho' with h | h <;> rw [h] <;> simp
    exact fun h => hj h.symm
  exact ⟨by rw [hcalls, note_of_ne s hj], iff_of_false ht hs, fun h => absurd h hs, fun h => absurd h hs⟩

/-- The results of the other calls stay settled. -/
theorem settled_note {s t : ReadState} (hi : s.Inv) {i : Nat} (f : ReadRecord → ReadRecord)
    (hcalls : t.calls = (s.note i f).calls)
    (hset : ∀ r a, s.calls i = some r → (f r).result = some a → (f r).Settled a) (j : Nat) (r : ReadRecord)
    (a : Except Errno Nat) (hr : t.calls j = some r) (ha : r.result = some a) : r.Settled a := by
  rw [hcalls] at hr
  by_cases hj : j = i
  · subst hj
    rw [note_self, Option.map_eq_some_iff] at hr
    obtain ⟨r₀, hr₀, rfl⟩ := hr
    exact hset r₀ a hr₀ ha
  · rw [note_of_ne s hj] at hr
    exact hi.settled j r a hr ha

theorem note_id (s : ReadState) (i : Nat) : (s.note i id).calls = s.calls := by
  rw [note, Option.map_id, id_eq, Function.update_eq_self]

end ReadState

open ReadState in
/-- The outline of the calls.  The holder of the lock owns the receiver; the
peer only adds slots. -/
def readOutline (target : NotifyTarget) : Machine.Outline (readMachine target) where
  inv := Inv
  rely := Kept
  guar i s t := ∀ j, j ≠ i → Kept j s t
  wait i s := ∀ r, s.calls i = some r → r.Polling
  post i a s := s.owner ≠ some i ∧ ∃ r, s.calls i = some r ∧ r.Settled a
  idle i s := s.owner ≠ some i
  rely_refl := Kept.refl
  rely_trans _ {_ _ _} h h' := h.trans h'
  guar_rely hij _ h := h _ (Ne.symm hij)
  env_rely {s t} hi h := by
    obtain ⟨slots, rfl⟩ := h
    exact ⟨⟨hi.free, hi.sticky, hi.settled⟩, fun i => ⟨rfl, Iff.rfl, fun _ => rfl, fun _ => ⟨slots, rfl⟩⟩⟩
  idle_stable h hr _ := fun ho => h (hr.owner.mp ho)
  finish_ok {i a s t} hi hpost hf := by
    obtain ⟨hfree, r, hr, hset⟩ := hpost
    obtain rfl := hf
    refine ⟨⟨hi.free, hi.sticky, settled_note hi _ rfl fun r' b hr' hb => ?_⟩,
      fun j hj => ⟨note_of_ne s hj _, Iff.rfl, fun _ => rfl, fun _ => ⟨[], by simp [note]⟩⟩, hfree⟩
    obtain rfl : r' = r := Option.some.inj (hr'.symm.trans hr)
    cases hb
    exact hset

namespace DeviceRead

open ReadState

/-! ## one operation under the lock -/

/-- Call `i` found the receiver `rx₀` and holds the lock; the receiver is `rx`
now and the call's record `r`.  Of the slots from then on, `q` are known: at
least those the call found. -/
structure Held (i : Nat) (rx₀ : Receiver) (q : List Slot) (rx : Receiver) (r : ReadRecord) (s : ReadState) : Prop where
  owner : s.owner = some i
  rx_eq : s.rx = rx
  record : s.calls i = some r
  entered : ∃ q₀, r.entered = some (rx₀, q₀) ∧ q₀ <+: q
  running : r.result = none
  ahead : Ahead q r.popped s.pending

section Calls

variable {target : NotifyTarget} {i : Nat} {rx₀ rx rx' : Receiver} {q slots : List Slot} {r : ReadRecord}
  {s t : ReadState} {bytes : List UInt8} {α : Type} {post : α → ReadState → Prop}

theorem Held.stable (h : Held i rx₀ q rx r s) (hr : Kept i s t) : Held i rx₀ q rx r t := by
  refine ⟨hr.owner.mpr h.owner, (hr.rx h.owner).trans h.rx_eq, hr.record.trans h.record, h.entered, h.running, ?_⟩
  obtain ⟨more, hmore⟩ := hr.pending h.owner
  obtain ⟨arrivals, heq⟩ := h.ahead
  exact ⟨arrivals ++ more, by rw [hmore, ← List.append_assoc, heq, List.append_assoc]⟩

/-- An operation under the lock that changes the receiver, the slots and the
record of the call. -/
theorem safe_held_act {o : EndpointOp ringIface Receiver}
    {k : (endpointIface ringIface Receiver).Res o → Prog (endpointIface ringIface Receiver) α}
    (f : (endpointIface ringIface Receiver).Res o → ReadRecord → ReadRecord) (hs : Held i rx₀ q rx r s)
    (hcalls : ∀ a (t : ReadState), (t.effect i o a).calls = (t.note i (f a)).calls)
    (howner : ∀ a (t : ReadState), t.owner = some i → (t.effect i o a).owner = t.owner)
    (hsticky : ∀ a (t : ReadState), (∀ e, t.rx.state = .failed e → Sticky e) →
      ∀ e, (t.effect i o a).rx.state = .failed e → Sticky e)
    (hres : ∀ a, (f a r).result = r.result)
    (hk : ∀ a t, t.Answers o a → Held i rx₀ q rx r t →
      ((readOutline target).view i).Safe post (k a) (t.effect i o a)) :
    ((readOutline target).view i).Safe post (.act o k) s := by
  refine View.safe_act (Held i rx₀ q rx r) hs (fun _ _ h hr _ => h.stable hr) fun t ht hi => ⟨trivial, ?_⟩
  rintro a u ⟨ha, rfl⟩
  have ho : (t.effect i o a).owner = some i := (howner a t ht.owner).trans ht.owner
  refine ⟨⟨fun h => ?_, hsticky a t hi.sticky, settled_note hi (f a) (hcalls a t) fun r' b hr' hb => ?_⟩,
    fun j hj => Kept.of_ne hj (f a) (hcalls a t) (.inr ht.owner) (.inr ho), hk a t ha ht⟩
  · rw [ho] at h
    cases h
  · obtain rfl : r' = r := Option.some.inj (hr'.symm.trans ht.record)
    rw [hres, ht.running] at hb
    cases hb

/-- Operations that leave the state as it is. -/
def Quiet (o : EndpointOp ringIface Receiver) : Prop := ∀ s i a, ReadState.effect s i o a = s

/-- A quiet operation under the lock. -/
theorem safe_quiet_act {o : EndpointOp ringIface Receiver}
    {k : (endpointIface ringIface Receiver).Res o → Prog (endpointIface ringIface Receiver) α} (ho : Quiet o)
    (hs : Held i rx₀ q rx r s)
    (hk : ∀ a t, t.Answers o a → Held i rx₀ q rx r t → ((readOutline target).view i).Safe post (k a) t) :
    ((readOutline target).view i).Safe post (.act o k) s := by
  refine safe_held_act (fun _ => id) hs (fun a t => by rw [ho, note_id]) (fun a t _ => by rw [ho])
    (fun a t h => by rw [ho]; exact h) (fun _ => rfl) fun a t ha ht => ?_
  rw [ho]
  exact hk a t ha ht

/-- Any number of quiet operations under the lock. -/
theorem safe_quiet {p : Prog (endpointIface ringIface Receiver) α} (hp : p.Each Quiet) (hret : p.Returns)
    (hs : Held i rx₀ q rx r s) :
    ((readOutline target).view i).Safe (fun _ t => Held i rx₀ q rx r t) p s := by
  induction p generalizing s with
  | ret a => exact fun t ht _ => hs.stable ht
  | act o k ih => exact safe_quiet_act hp.1 hs fun a t _ ht => ih a (hp.2 a) (hret a) ht
  | spin => exact hret.elim

theorem safe_notifyPublisher (hs : Held i rx₀ q rx r s) :
    ((readOutline target).view i).Safe (fun _ t => Held i rx₀ q rx r t) (notifyPublisher target) s := by
  rw [notifyPublisher]
  split
  · exact safe_quiet ⟨fun _ _ _ => rfl, fun _ => trivial⟩ (fun _ => trivial) hs
  · exact fun t ht _ => hs.stable ht

theorem safe_deadlineAfter (ms : Nat) (hs : Held i rx₀ q rx r s) :
    ((readOutline target).view i).Safe (fun _ t => Held i rx₀ q rx r t) (deadlineAfter ms) s :=
  safe_quiet ⟨fun _ _ _ => rfl, fun _ => ⟨fun _ _ _ => rfl, fun _ => trivial⟩⟩ (fun _ _ => trivial) hs

theorem safe_afterProgress (n : Nat) (deadline : UInt64) (hs : Held i rx₀ q rx r s) :
    ((readOutline target).view i).Safe (fun _ t => Held i rx₀ q rx r t) (afterProgress target n deadline) s := by
  rw [afterProgress]
  split
  · refine View.Safe.bind ((safe_deadlineAfter _ hs).mono fun d t _ ht => ?_)
    exact View.Safe.bind ((safe_notifyPublisher ht).mono fun _ u _ hu => fun v hv _ => hu.stable hv)
  · exact fun t ht _ => hs.stable ht

/-- Storing the receiver's record. -/
theorem safe_store (rx' : Receiver) {k : Unit → Prog (endpointIface ringIface Receiver) α}
    (hs : Held i rx₀ q rx r s) (hsticky : ∀ e, rx'.state = .failed e → Sticky e)
    (hk : ∀ t, Held i rx₀ q rx r t → ((readOutline target).view i).Safe post (k ()) { t with rx := rx' }) :
    ((readOutline target).view i).Safe post (.act (.store rx') k) s :=
  safe_held_act (fun _ => id) hs (fun _ t => (note_id t i).symm) (fun _ _ _ => rfl) (fun _ _ _ => hsticky)
    (fun _ => rfl) fun _ t _ ht => hk t ht

theorem Held.store (h : Held i rx₀ q rx r s) (rx' : Receiver) : Held i rx₀ q rx' r { s with rx := rx' } :=
  ⟨h.owner, rfl, h.record, h.entered, h.running, h.ahead⟩

/-- Giving up in the middle of a message. -/
theorem safe_poison {e : Errno} (hs : Held i rx₀ q rx r s) (he : Sticky e) :
    ((readOutline target).view i).Safe
      (fun a t => a = .error e ∧ Held i rx₀ q (messageReceiverPoison rx e) r t) (poison e) s := by
  refine safe_quiet_act (fun _ _ _ => rfl) hs fun loaded t ha ht => ?_
  obtain rfl : loaded = rx := ha.trans ht.rx_eq
  refine safe_store (messageReceiverPoison loaded e) ht ?_ fun u hu v hv _ => ⟨rfl, (hu.store _).stable hv⟩
  rintro e' ⟨⟩
  exact he

/-- Copying to user memory what comes after `bytes`. -/
theorem safe_copyAnyToUser (output : List UInt8) (hs : Held i rx₀ q rx r s) (hfault : r.faulted = false)
    (hbuf : r.buffer = Holding bytes) :
    ((readOutline target).view i).Safe (fun uncopied t =>
      uncopied = 0 ∧ Held i rx₀ q rx { r with buffer := Holding (bytes ++ output) } t ∨
      uncopied ≠ 0 ∧ output ≠ [] ∧ ∃ buffer, Held i rx₀ q rx { r with buffer := buffer, faulted := true } t)
      (copyAnyToUser bytes.length output) s := by
  rw [copyAnyToUser]
  split
  · next hne =>
      refine safe_held_act (fun (uncopied : Nat) r => r.copied bytes.length output uncopied) hs (fun _ _ => rfl)
        (fun _ _ _ => rfl) (fun _ _ h => h) (fun _ => rfl) fun uncopied t _ ht => ?_
      have hheld : Held i rx₀ q rx (r.copied bytes.length output uncopied)
          (t.effect i (.copyToUser bytes.length output) uncopied) :=
        ⟨ht.owner, ht.rx_eq, (note_self t i _).trans (by rw [ht.record]; rfl), ht.entered, ht.running, ht.ahead⟩
      by_cases hz : uncopied = 0
      · subst hz
        have hcopied : r.copied bytes.length output 0 = { r with buffer := Holding (bytes ++ output) } := by
          simp [ReadRecord.copied, hfault, hbuf, userWrite_holding]
        rw [hcopied] at hheld
        exact fun u hu _ => .inl ⟨rfl, hheld.stable hu⟩
      · have hcopied : r.copied bytes.length output uncopied =
            { r with buffer := (r.copied bytes.length output uncopied).buffer, faulted := true } := by
          simp [ReadRecord.copied, hz]
        rw [hcopied] at hheld
        exact fun u hu _ => .inr ⟨hz, fun h => hne (by rw [h]; rfl), _, hheld.stable hu⟩
  · next hz =>
      have hnil : output = [] := List.length_eq_zero_iff.mp (Decidable.of_not_not hz)
      rw [hnil, List.append_nil, ← hbuf]
      exact fun t ht _ => .inl ⟨rfl, hs.stable ht⟩

/-! ## the receiver under the lock -/

/-- Call `i` holds the lock. -/
def Owns (i : Nat) (s : ReadState) : Prop := s.owner = some i ∧ ∃ r, s.calls i = some r ∧ r.result = none

/-- Between `s` and `t` call `i` popped `slots`; `seen` is what it last found
at the head of the ring. -/
structure Reads (i : Nat) (s : ReadState) (slots : List Slot) (seen : Option (Option Slot)) (t : ReadState) : Prop where
  rx : t.rx = s.rx
  record : ∀ r, s.calls i = some r → t.calls i = some { r with popped := r.popped ++ slots }
  ahead : Ahead s.pending slots t.pending
  found : ∀ slot, seen = some (some slot) → ∃ rest, t.pending = slot :: rest
  nothing : seen = some none → s.pending.length ≤ slots.length

theorem Reads.refl (i : Nat) (s : ReadState) : Reads i s [] none s :=
  ⟨rfl, by simp, ⟨[], by simp⟩, by rintro _ ⟨⟩, by rintro ⟨⟩⟩

theorem Reads.stable {seen : Option (Option Slot)} {u : ReadState} (h : Reads i s slots seen t) (hr : Kept i t u)
    (ho : u.owner = some i) : Reads i s slots seen u := by
  have ho' := hr.owner.mp ho
  obtain ⟨more, hmore⟩ := hr.pending ho'
  refine ⟨(hr.rx ho').trans h.rx, fun r hrec => hr.record.trans (h.record r hrec), ?_, fun slot hseen => ?_, h.nothing⟩
  · obtain ⟨arrivals, heq⟩ := h.ahead
    exact ⟨arrivals ++ more, by rw [hmore, ← List.append_assoc, heq, List.append_assoc]⟩
  · obtain ⟨rest, hrest⟩ := h.found slot hseen
    exact ⟨rest ++ more, by rw [hmore, hrest]; rfl⟩

theorem popLog : PopLog (((readOutline target).view i).within (Owns i)) atomicRing (Reads i) where
  stable h hr hi := h.stable hr hi.2.1
  peek {s slots seen t} h := by
    intro u hu hi
    refine ⟨trivial, ?_⟩
    rintro found v ⟨hfound, hv⟩
    obtain rfl : u = v := hv.symm
    have hr := h.stable hu hi.2.1
    refine ⟨hi, fun j _ => .refl j u, fun w hw hwi => Reads.stable ⟨hr.rx, hr.record, hr.ahead, ?_, ?_⟩ hw hwi.2.1⟩
    · rintro slot ⟨⟩
      exact List.head?_eq_some_iff.mp (show u.pending.head? = some slot from hfound.symm)
    · rintro ⟨⟩
      have hnil : u.pending = [] := List.head?_eq_none_iff.mp (show u.pending.head? = none from hfound.symm)
      obtain ⟨arrivals, heq⟩ := hr.ahead
      rw [hnil, List.append_nil] at heq
      rw [← heq, List.length_append]
      omega
  pop {s slots slot t} h := by
    rintro u hu ⟨hi, ho, r, hrec, hres⟩
    refine ⟨trivial, ?_⟩
    rintro _ v ⟨-, rfl⟩
    have hr := h.stable hu ho
    obtain ⟨rest, hrest⟩ := hr.found slot rfl
    have hcalls : (u.effect i (.ring .pop) ()).calls i = some { r with popped := r.popped ++ [slot] } := by
      refine (note_self u i _).trans ?_
      rw [hrec, hrest]
      rfl
    have hpending : (u.effect i (.ring .pop) ()).pending = rest := by
      change u.pending.tail = rest
      rw [hrest]
      rfl
    have hreads : Reads i s (slots ++ [slot]) none (u.effect i (.ring .pop) ()) := by
      refine ⟨hr.rx, fun r' hr' => ?_, ?_, by rintro _ ⟨⟩, by rintro ⟨⟩⟩
      · obtain rfl := Option.some.inj ((hr.record r' hr').symm.trans hrec)
        rw [hcalls]
        simp
      · obtain ⟨arrivals, heq⟩ := hr.ahead
        exact ⟨arrivals, by rw [heq, hpending, hrest]; simp⟩
    refine ⟨⟨⟨fun hnone => ?_, hi.sticky, settled_note hi _ rfl fun r' a hr' ha => ?_⟩, ho, _, hcalls, hres⟩,
      fun j hj => .of_ne hj _ rfl (.inr ho) (.inr ho), fun w hw hwi => hreads.stable hw hwi.2.1⟩
    · exact absurd (ho.symm.trans hnone) (by simp)
    · obtain rfl : r' = r := Option.some.inj (hr'.symm.trans hrec)
      rw [hres] at ha
      cases ha

/-- What a call on the receiver leaves: it popped `slots` and last saw `seen`. -/
structure After (i : Nat) (rx₀ : Receiver) (q : List Slot) (r : ReadRecord) (rx' : Receiver) (slots : List Slot)
    (seen : Option (Option Slot)) (t : ReadState) : Prop where
  held : Held i rx₀ q rx' { r with popped := r.popped ++ slots } t
  found : ∀ slot, seen = some (some slot) → ∃ rest, t.pending = slot :: rest
  nothing : seen = some none → q.length ≤ (r.popped ++ slots).length

theorem After.stable {seen : Option (Option Slot)} (h : After i rx₀ q r rx' slots seen s) (hr : Kept i s t) :
    After i rx₀ q r rx' slots seen t := by
  refine ⟨h.held.stable hr, fun slot hseen => ?_, h.nothing⟩
  obtain ⟨more, hmore⟩ := hr.pending h.held.owner
  obtain ⟨rest, hrest⟩ := h.found slot hseen
  exact ⟨rest ++ more, by rw [hmore, hrest]; rfl⟩

/-- A call on the receiver of an endpoint. -/
theorem safe_onReceiver {f : Receiver → Prog (endpointIface ringIface Receiver) (Receiver × α)}
    {Q : List Slot → Option (Option Slot) → Receiver × α → Prop} (hs : Held i rx₀ q rx r s)
    (hf : ∀ s, (((readOutline target).view i).within (Owns i)).Safe (Consumes (Reads i) s [] Q) (f rx) s)
    (hQ : ∀ slots seen rx' a, Q slots seen (rx', a) → ∀ e, rx'.state = .failed e → Sticky e) :
    ((readOutline target).view i).Safe
      (fun a t => ∃ slots seen rx', After i rx₀ q r rx' slots seen t ∧ Q slots seen (rx', a)) (onReceiver f) s := by
  refine safe_quiet_act (fun _ _ _ => rfl) hs fun loaded t ha ht => ?_
  obtain rfl : loaded = rx := ha.trans ht.rx_eq
  change View.Safe _ _ (f loaded >>= _) t
  refine View.Safe.bind ((View.Safe.of_within (fun s t h hr _ => ?_) (hf t) ⟨ht.owner, r, ht.record, ht.running⟩).mono ?_)
  · obtain ⟨ho, r', hr', hres⟩ := h
    exact ⟨hr.owner.mpr ho, r', hr.record.trans hr', hres⟩
  · rintro ⟨rx', a⟩ u - ⟨hu, slots, seen, hreads, hq⟩
    rw [List.nil_append] at hreads
    have hrec := hreads.record r ht.record
    have hheld : Held i rx₀ q loaded { r with popped := r.popped ++ slots } u := by
      refine ⟨hu.1, hreads.rx.trans ht.rx_eq, hrec, ht.entered, ht.running, ?_⟩
      obtain ⟨arrivals, heq⟩ := ht.ahead
      obtain ⟨arrivals', heq'⟩ := hreads.ahead
      exact ⟨arrivals ++ arrivals', by rw [← List.append_assoc, heq, List.append_assoc, heq', List.append_assoc]⟩
    have hafter : After i rx₀ q r loaded slots seen u := by
      refine ⟨hheld, hreads.found, fun hseen => ?_⟩
      have hle := hreads.nothing hseen
      obtain ⟨arrivals, heq⟩ := ht.ahead
      have hlen := congrArg List.length heq
      rw [List.length_append, List.length_append] at hlen
      rw [List.length_append]
      omega
    refine View.safe_act (After i rx₀ q r loaded slots seen) hafter (fun _ _ h hr _ => h.stable hr)
      fun v hv hi => ⟨trivial, ?_⟩
    rintro _ w ⟨-, rfl⟩
    refine ⟨⟨fun h => absurd (hv.held.owner.symm.trans h) (by simp), hQ _ _ _ _ hq, hi.settled⟩,
      fun j hj => .of_ne hj id (note_id v i).symm (.inr hv.held.owner) (.inr hv.held.owner), fun x hx _ => ?_⟩
    exact ⟨slots, seen, rx', After.stable ⟨hv.held.store rx', hv.found, hv.nothing⟩ hx, hq⟩

/-! ## the loop -/

theorem Ahead.of_start {q₀ rest : List Slot} (h : Ahead q slots rest) (hq : q₀ <+: q) : Ahead q₀ slots rest := by
  obtain ⟨more, rfl⟩ := hq
  obtain ⟨arrivals, heq⟩ := h
  exact ⟨more ++ arrivals, by rw [← List.append_assoc, heq]⟩

/-- The first slot announces a message of length `messageLen`. -/
def Announces (messageLen : UInt64) (q : List Slot) : Prop :=
  ∃ slot rest frame, q = slot :: rest ∧ decodeFrame slot = .ok frame ∧ frame.messageLen = messageLen

/-- The announced length is that of the message. -/
theorem messageLen_of_announces {messageLen : UInt64} (h : Announces messageLen q) {slot : Slot} {rest : List Slot}
    (hahead : Ahead q slots (slot :: rest)) {frames : List Frame} (hdec : Decodes (slots ++ [slot]) frames)
    (hmsg : IsMessage frames) {f : Frame} (hf : f ∈ frames) : f.messageLen = messageLen := by
  obtain ⟨x, more, g, rfl, hx, rfl⟩ := h
  obtain ⟨arrivals, heq⟩ := hahead
  obtain ⟨more', hcons⟩ : ∃ more', slots ++ [slot] = x :: more' := by
    cases slots with
    | nil =>
        rw [List.cons_append, List.nil_append] at heq
        exact ⟨[], by rw [(List.cons.inj heq).1]; rfl⟩
    | cons y ys =>
        rw [List.cons_append, List.cons_append] at heq
        exact ⟨ys ++ [slot], by rw [(List.cons.inj heq).1]; rfl⟩
  have hg : g ∈ frames := by
    have hmem : Except.ok g ∈ frames.map (Except.ok (ε := Errno)) := by
      rw [← show (slots ++ [slot]).map decodeFrame = _ from hdec, hcons, ← hx]
      simp
    obtain ⟨g', hg', heq'⟩ := List.mem_map.mp hmem
    rwa [Except.ok.inj heq'] at hg'
  exact UInt64.toNat_inj.mp ((hmsg.frame hf).2.trans (hmsg.frame hg).2.symm)

/-- The call with the record `r` is in the middle of a message of length
`messageLen`, has received `bytes` of it, and has `iterations` left. -/
structure Reading (rx₀ : Receiver) (q : List Slot) (messageLen : UInt64) (iterations : Nat) (bytes : List UInt8)
    (rx : Receiver) (r : ReadRecord) : Prop where
  idle : rx₀.state = .idle
  takes : Takes rx₀ bytes r.popped rx
  buffer : r.buffer = Holding bytes
  sound : r.faulted = false
  fits : messageLen ≤ r.count
  announced : Announces messageLen q
  budget : r.iterations ≤ r.popped.length + iterations ∨ q.length ≤ r.popped.length

/-- The call is over but for releasing the lock. -/
def Ended (i : Nat) (a : Except Errno Nat) (t : ReadState) : Prop :=
  ∃ rx₀ q rx r, Held i rx₀ q rx r t ∧ ∀ q₀, r.entered = some (rx₀, q₀) → ∃ bytes,
    ReadEnds r.count rx₀ q₀ r.faulted r.popped bytes rx a ∧ (r.faulted = false → r.buffer = Holding bytes)

theorem Held.ended {a : Except Errno Nat} (hs : Held i rx₀ q rx r s)
    (h : ∀ q₀, q₀ <+: q → ∃ bytes, ReadEnds r.count rx₀ q₀ r.faulted r.popped bytes rx a ∧
      (r.faulted = false → r.buffer = Holding bytes)) : Ended i a s := by
  refine ⟨rx₀, q, rx, r, hs, fun q₀ hq₀ => ?_⟩
  obtain ⟨q₁, hq₁, hpre⟩ := hs.entered
  rw [hq₁] at hq₀
  cases hq₀
  exact h q₀ hpre

theorem Ended.stable {a : Except Errno Nat} (h : Ended i a s) (hr : Kept i s t) : Ended i a t := by
  obtain ⟨rx₀, q, rx, r, hs, hends⟩ := h
  exact ⟨rx₀, q, rx, r, hs.stable hr, hends⟩

theorem Ended.safe_notifyPublisher {a : Except Errno Nat} (h : Ended i a s) :
    ((readOutline target).view i).Safe (fun _ t => Ended i a t) (notifyPublisher target) s := by
  obtain ⟨rx₀, q, rx, r, hs, hends⟩ := h
  exact (DeviceRead.safe_notifyPublisher hs).mono fun _ t _ ht => ⟨rx₀, q, rx, r, ht, hends⟩

section Loop

variable {messageLen : UInt64} {iterations : Nat}

theorem Held.safe_spin (hs : Held i rx₀ q rx r s) (hr : Reading rx₀ q messageLen 0 bytes rx r) :
    ((readOutline target).view i).Safe post .spin s := by
  intro t ht _ r' hr'
  have hheld := hs.stable ht
  obtain rfl : r' = r := Option.some.inj (hr'.symm.trans hheld.record)
  obtain ⟨q₀, hq₀, hpre⟩ := hheld.entered
  refine ⟨rx₀, q₀, hq₀, hr.idle, bytes, rx, t.pending, hr.takes, Ahead.of_start hheld.ahead hpre, ?_⟩
  rcases hr.budget with h | h
  · exact .inl (by omega)
  · exact .inr (hpre.length_le.trans h)

/-- A receiver that has run out of slots and gives up. -/
theorem safe_give_up {e : Errno} (hs : Held i rx₀ q rx r s) (hr : Reading rx₀ q messageLen iterations bytes rx r)
    (hdrained : q.length ≤ r.popped.length) (he : e = .ETIMEDOUT ∨ e = .ERESTARTSYS) :
    ((readOutline target).view i).Safe (Ended i) (poison e) s := by
  have hsticky : Sticky e := by rcases he with rfl | rfl <;> simp [Sticky]
  refine (safe_poison hs hsticky).mono ?_
  rintro a t - ⟨rfl, ht⟩
  refine ht.ended fun q₀ hq₀ => ⟨bytes, ?_, fun _ => hr.buffer⟩
  rw [hr.sound]
  exact .drained hr.idle hr.takes (Ahead.of_start ht.ahead hq₀) (hq₀.length_le.trans hdrained) he

/-- A user copy that faults in the middle or at the end of a message. -/
theorem safe_fault {frames : List Frame} {buffer : Nat → Option UInt8}
    (hs : Held i rx₀ q rx { r with buffer := buffer, faulted := true } s) (hdec : Decodes r.popped frames)
    (hall : ∀ f ∈ frames, f.abort = false) (hne : payload frames ≠ []) :
    ((readOutline target).view i).Safe (Ended i) (poison .EFAULT) s := by
  refine (safe_poison hs (by simp [Sticky])).mono ?_
  rintro a t - ⟨rfl, ht⟩
  exact ht.ended fun q₀ _ => ⟨payload frames, .fault hdec hall hne, by rintro ⟨⟩⟩

/-- One more batch of slots in the middle of a message. -/
theorem Reading.advance {b : List UInt8} (hr : Reading rx₀ q messageLen (iterations + 1) bytes rx r)
    (htakes : Takes rx b slots rx') (hdrained : slots = [] → q.length ≤ r.popped.length) :
    Reading rx₀ q messageLen iterations (bytes ++ b) rx'
      { r with popped := r.popped ++ slots, buffer := Holding (bytes ++ b) } := by
  refine ⟨hr.idle, hr.takes.trans htakes, rfl, hr.sound, hr.fits, hr.announced, ?_⟩
  rw [List.length_append]
  rcases hr.budget with h | h
  · by_cases hnil : slots = []
    · exact .inr (by have := hdrained hnil; omega)
    · have := List.length_pos_of_ne_nil hnil
      exact .inl (by dsimp only; omega)
  · exact .inr (by omega)

/-- The last slot of a message has been popped. -/
theorem ended_message {slot : Slot} {frame : Frame} {transition : Transition} {b : List UInt8}
    (hr : Reading rx₀ q messageLen iterations bytes rx r) (htakes : Takes rx b slots rx')
    (hex : rx'.examine slot = .ok (frame, transition)) (hc : transition.complete = true)
    (hs : Held i rx₀ q (rx'.commit transition) { r with
      popped := r.popped ++ (slots ++ [slot]), buffer := Holding (bytes ++ (b ++ frame.fragment)) } s) :
    Ended i (if messageLen = 0 then .error .EOPNOTSUPP
      else .ok (bytes.length + (b ++ frame.fragment).length)) s := by
  have htakes' := hr.takes.trans htakes
  have hahead : Ahead q (r.popped ++ slots) (slot :: s.pending) := by
    obtain ⟨arrivals, heq⟩ := hs.ahead
    exact ⟨arrivals, by rw [heq]; simp⟩
  obtain ⟨-, frames, hdec, hmsg, -, hmem⟩ := htakes'.message hr.idle hex hc
  have hlen : frame.messageLen = messageLen := messageLen_of_announces hr.announced hahead hdec hmsg hmem
  refine hs.ended fun q₀ hq₀ => ⟨_, ?_, fun _ => rfl⟩
  have hends := ReadEnds.message hr.idle htakes' (Ahead.of_start hahead hq₀) hex hc (by rw [hlen]; exact hr.fits)
  have hsum : (bytes ++ (b ++ frame.fragment)).length = bytes.length + (b ++ frame.fragment).length :=
    List.length_append
  rw [hlen, List.append_assoc, List.append_assoc, hsum] at hends
  rw [show ({ r with popped := r.popped ++ (slots ++ [slot]), buffer := _ } : ReadRecord).faulted = false
    from hr.sound]
  exact hends

/-- After slots that do not end the message. -/
theorem safe_recvProgress (deadline : UInt64) {seen : Option (Option Slot)} {b : List UInt8}
    {again : Nat → UInt64 → Prog (endpointIface ringIface Receiver) (Except Errno Nat)}
    (hr : Reading rx₀ q messageLen (iterations + 1) bytes rx r) (htakes : Takes rx b slots rx')
    (hdrained : slots = [] → seen = some none) (hs : After i rx₀ q r rx' slots seen s)
    (hagain : ∀ r' t deadline, Held i rx₀ q rx' r' t → Reading rx₀ q messageLen iterations (bytes ++ b) rx' r' →
      ((readOutline target).view i).Safe (Ended i) (again (bytes ++ b).length deadline) t) :
    ((readOutline target).view i).Safe (Ended i)
      (recvProgress target messageLen bytes.length deadline ⟨b, slots.length, false⟩ again) s := by
  have hdrained' (hnil : slots = []) : q.length ≤ r.popped.length := by
    have h := hs.nothing (hdrained hnil)
    rwa [hnil, List.append_nil] at h
  have hr' := hr.advance htakes hdrained'
  rw [recvProgress]
  refine View.Safe.bind ((safe_afterProgress _ _ hs.held).mono fun deadline' t _ ht => ?_)
  refine View.Safe.bind ((safe_copyAnyToUser b ht hr.sound hr.buffer).mono ?_)
  rintro uncopied u - (⟨rfl, hu⟩ | ⟨hne, hout, buffer, hu⟩)
  · rw [if_neg (by simp), if_neg (by simp)]
    simp only [← List.length_append]
    split
    · exact hagain _ _ _ hu hr'
    · next hz =>
        have hnil : slots = [] := List.length_eq_zero_iff.mp (Decidable.of_not_not hz)
        have hle : q.length ≤ (r.popped ++ slots).length := by
          rw [hnil, List.append_nil]
          exact hdrained' hnil
        refine safe_quiet_act (fun _ _ _ => rfl) hu fun now v _ hv => ?_
        change View.Safe _ _ (ite (timeAfterEq now deadline' = true) _ _) v
        split
        · exact safe_give_up hv hr' hle (.inl rfl)
        · refine safe_quiet_act (fun _ _ _ => rfl) hv fun left w _ hw => ?_
          change View.Safe _ _ (ite (left ≠ 0) _ _) w
          split
          · exact safe_give_up hw hr' hle (.inr rfl)
          · exact hagain _ _ _ hw hr'
  · rw [if_pos hne]
    obtain ⟨frames, hdec, hpay, hparsed⟩ := hr'.takes.parsed hr.idle
    exact safe_fault hu hdec (fun f hf => (hparsed.open_frame hf).2.1) (by rw [hpay]; simp [hout])

/-- After the last slot of the message. -/
theorem safe_recvComplete (deadline : UInt64) {slot : Slot} {frame : Frame} {transition : Transition}
    {b : List UInt8} {again : Nat → UInt64 → Prog (endpointIface ringIface Receiver) (Except Errno Nat)}
    (hr : Reading rx₀ q messageLen (iterations + 1) bytes rx r) (htakes : Takes rx b slots rx')
    (hex : rx'.examine slot = .ok (frame, transition)) (hc : transition.complete = true)
    (hs : Held i rx₀ q (rx'.commit transition) { r with popped := r.popped ++ (slots ++ [slot]) } s) :
    ((readOutline target).view i).Safe (Ended i) (recvProgress target messageLen bytes.length deadline
      ⟨b ++ frame.fragment, slots.length + 1, true⟩ again) s := by
  rw [recvProgress]
  refine View.Safe.bind ((safe_afterProgress _ _ hs).mono fun deadline' t _ ht => ?_)
  refine View.Safe.bind ((safe_copyAnyToUser (b ++ frame.fragment) ht hr.sound hr.buffer).mono ?_)
  rintro uncopied u - (⟨rfl, hu⟩ | ⟨hne, hout, buffer, hu⟩)
  · rw [if_neg (by simp), if_pos rfl]
    exact fun v hv _ => ended_message hr htakes hex hc (hu.stable hv)
  · rw [if_pos hne]
    obtain ⟨-, frames, hdec, hmsg, hpay, -⟩ := (hr.takes.trans htakes).message hr.idle hex hc
    rw [List.append_assoc] at hdec
    refine safe_fault hu hdec (fun f hf => (hmsg.frame hf).1) ?_
    rw [hpay, List.append_assoc]
    exact fun hnil => hout (List.append_eq_nil_iff.mp hnil).2

/-- A read that ends in an error. -/
theorem ended_error {e : Errno} {seen : Option (Option Slot)}
    (hr : Reading rx₀ q messageLen iterations bytes rx r) (hs : After i rx₀ q r rx' slots seen s)
    (hres : ReadResult rx fragmentCapacity slots seen rx' (.error e)) : Ended i (.error e) s := by
  have hends (h : ∀ q₀, q₀ <+: q → ReadEnds r.count rx₀ q₀ false (r.popped ++ slots) bytes rx' (.error e)) :
      Ended i (.error e) s := by
    refine hs.held.ended fun q₀ hq₀ => ⟨bytes, ?_, fun _ => hr.buffer⟩
    rw [show ({ r with popped := r.popped ++ slots } : ReadRecord).faulted = false from hr.sound]
    exact h q₀ hq₀
  cases hres with
  | failed hf => exact absurd hf (hr.takes.not_failed hr.idle _)
  | @aborted slot _ _ hex hab =>
      refine hends fun q₀ hq₀ => ?_
      obtain ⟨arrivals, heq⟩ := Ahead.of_start hs.held.ahead hq₀
      have hahead : Ahead q₀ r.popped (slot :: s.pending) := ⟨arrivals, by rw [heq]; simp⟩
      exact .aborted hr.idle hr.takes hahead hex hab
  | @short _ frame _ _ hlong => exact absurd frame.fragment_le (Nat.not_le.mpr hlong)
  | @protocol slot _ hstate hex =>
      refine hends fun q₀ hq₀ => ?_
      obtain ⟨rest, hrest⟩ := hs.found slot rfl
      have hahead := Ahead.of_start hs.held.ahead hq₀
      rw [hrest] at hahead
      simp only [List.append_nil] at hahead ⊢
      refine .protocol hr.idle hr.takes hahead hex ?_
      rcases Receiver.examine_error hstate hex with rfl | rfl <;> simp [Sticky]

/-- A read fails its receiver with a protocol error only. -/
theorem sticky_of_read {seen : Option (Option Slot)} {result : Except Errno ReceiveProgress}
    (hnf : ∀ e, rx.state ≠ .failed e) (hres : ReadResult rx fragmentCapacity slots seen rx' result) {e : Errno}
    (he : rx'.state = .failed e) : Sticky e := by
  cases hres with
  | failed hf => exact absurd hf (hnf _)
  | empty _ htakes | deferred _ htakes => exact absurd he (htakes.keeps_going hnf e)
  | complete _ _ hex | aborted hex => exact absurd he (Receiver.commit_not_failed hex e)
  | short => exact absurd he (hnf e)
  | protocol hstate hex =>
      cases he
      rcases Receiver.examine_error hstate hex with rfl | rfl <;> simp [Sticky]

/-- **The receive loop**, from the middle of a message on. -/
theorem safe_recvLoop (deadline : UInt64) (iterations : Nat) (hs : Held i rx₀ q rx r s)
    (hr : Reading rx₀ q messageLen iterations bytes rx r) :
    ((readOutline target).view i).Safe (Ended i)
      (recvLoop atomicRing target messageLen bytes.length deadline iterations) s := by
  induction iterations generalizing s rx r bytes deadline with
  | zero => exact hs.safe_spin hr
  | succ iterations ih =>
      rw [recvLoop]
      refine View.Safe.bind ((safe_onReceiver hs
        (fun s => safe_messageTryRead popLog fragmentCapacity (.refl i s))
        fun _ _ _ _ hres _ he => sticky_of_read (hr.takes.not_failed hr.idle) hres he).mono ?_)
      rintro result t - ⟨slots, seen, rx', hafter, hres⟩
      dsimp only at hres
      cases result with
      | error e =>
          have hended := ended_error hr hafter hres
          dsimp only
          split
          · exact View.Safe.bind (hended.safe_notifyPublisher.mono fun _ u _ hu => fun v hv _ => hu.stable hv)
          · exact fun u hu _ => hended.stable hu
      | ok progress =>
          cases hres with
          | empty _ htakes =>
              exact safe_recvProgress deadline hr htakes (fun _ => rfl) hafter
                fun r' u deadline' hu hr' => ih deadline' hu hr'
          | deferred _ htakes hne =>
              exact safe_recvProgress deadline hr htakes (fun h => absurd h hne) hafter
                fun r' u deadline' hu hr' => ih deadline' hu hr'
          | complete _ htakes hex hc => exact safe_recvComplete deadline hr htakes hex hc hafter.held

end Loop

/-! ## a whole call -/

/-- The record of a call that has just obtained the lock. -/
def enteredRecord (call : ReadCall) (rx : Receiver) (q : List Slot) : ReadRecord :=
  { ReadRecord.fresh call with entered := some (rx, q) }

theorem holding_nil : Holding [] = fun _ => none := by
  funext k
  simp [Holding]

/-- **A call under the lock**, from the state in which it was obtained. -/
theorem safe_recvLocked (call : ReadCall) (hs : Held i rx₀ q rx₀ (enteredRecord call rx₀ q) s)
    (hidle : rx₀.state ≠ .receiving) (hsticky : ∀ e, rx₀.state = .failed e → Sticky e) :
    ((readOutline target).view i).Safe (Ended i) (recvLocked atomicRing target call.iterations call.count) s := by
  rw [recvLocked]
  refine View.Safe.bind ((safe_onReceiver
    (Q := fun slots seen r => slots = [] ∧ PeekResult rx₀ seen r.1 r.2) hs (fun s => ?_) ?_).mono ?_)
  · refine (safe_messagePeekMeta popLog (.refl i s)).mono ?_
    rintro r u - ⟨seen, hreads, hpeek⟩
    exact ⟨[], seen, hreads, rfl, hpeek⟩
  · rintro slots seen rx' a ⟨rfl, hpeek⟩ e he
    dsimp only at hpeek
    cases hpeek with
    | failed | receiving | empty | available => exact hsticky e he
    | protocol hstate hex =>
        cases he
        rcases Receiver.examine_error (by simp [hstate]) hex with rfl | rfl <;> simp [Sticky]
  · rintro result t - ⟨slots, seen, rx', hafter, rfl, hpeek⟩
    dsimp only at hpeek
    have hheld := hafter.held
    have hahead : Ahead q [] t.pending := hheld.ahead
    -- A call that ends here has popped nothing.
    have hends {a : Except Errno Nat} (h : ∀ q₀, q₀ <+: q → ReadEnds call.count rx₀ q₀ false [] [] rx' a) :
        ((readOutline target).view i).Safe (Ended i) (.ret a) t :=
      fun u hu _ => (hheld.stable hu).ended fun q₀ hq₀ => ⟨[], h q₀ hq₀, fun _ => holding_nil.symm⟩
    cases hpeek with
    | failed hf => exact hends fun _ _ => .failed hf (hsticky _ hf)
    | receiving hrecv => exact absurd hrecv hidle
    | empty hstate =>
        refine hends fun q₀ hq₀ => .empty hstate (List.length_eq_zero_iff.mp ?_)
        have hle : q.length ≤ 0 := hafter.nothing rfl
        have := hq₀.length_le
        omega
    | protocol hstate hex =>
        obtain ⟨rest, hrest⟩ := hafter.found _ rfl
        rw [hrest] at hahead
        refine hends fun q₀ hq₀ => .protocol hstate .nil (Ahead.of_start hahead hq₀) hex ?_
        rcases Receiver.examine_error (by simp [hstate]) hex with rfl | rfl <;> simp [Sticky]
    | @available slot frame hstate hdec =>
        obtain ⟨rest, hrest⟩ := hafter.found _ rfl
        dsimp only
        split
        · next hlong =>
            rw [hrest] at hahead
            exact hends fun q₀ hq₀ => .tooLong hstate (Ahead.of_start hahead hq₀) hdec hlong
        · next hfits =>
            -- From here on all the slots now in the ring are known.
            have hknown : Held i rx₀ t.pending rx₀ (enteredRecord call rx₀ q) t := by
              obtain ⟨arrivals, heq⟩ := hahead
              exact ⟨hheld.owner, hheld.rx_eq, hheld.record, ⟨q, rfl, arrivals, heq⟩, rfl, ⟨[], by simp; rfl⟩⟩
            refine View.Safe.bind ((safe_deadlineAfter _ hknown).mono fun deadline u _ hu => ?_)
            have hreading : Reading rx₀ t.pending frame.messageLen call.iterations [] rx₀ (enteredRecord call rx₀ q) :=
              ⟨hstate, .nil, holding_nil.symm, rfl, UInt64.not_lt.mp hfits, ⟨slot, rest, frame, hrest, hdec, rfl⟩,
                .inl (by simp [enteredRecord, ReadRecord.fresh])⟩
            exact safe_recvLoop deadline call.iterations hu hreading

/-- Releasing the lock. -/
theorem safe_unlock {a : Except Errno Nat} (hs : Ended i a s) :
    ((readOutline target).view i).Safe ((readOutline target).post i)
      (kernel .mutexUnlock >>= fun _ => .ret a) s := by
  refine View.safe_act (Ended i a) hs (fun _ _ h hr _ => h.stable hr) fun t ht hi => ⟨trivial, ?_⟩
  rintro _ u ⟨-, rfl⟩
  obtain ⟨rx₀, q, rx, r, hheld, hends⟩ := ht
  obtain ⟨q₀, hq₀, -⟩ := hheld.entered
  obtain ⟨bytes, hend, hbuf⟩ := hends q₀ hq₀
  have hrec : (t.effect i .mutexUnlock ()).calls i = some { r with left := some rx } := by
    refine (note_self t i _).trans ?_
    rw [hheld.record, hheld.rx_eq]
    rfl
  have hset : ({ r with left := some rx } : ReadRecord).Settled a := by
    simp only [ReadRecord.Settled, hq₀]
    exact ⟨bytes, rx, rfl, hend, hbuf⟩
  refine ⟨⟨fun _ => ?_, hi.sticky, settled_note hi _ rfl fun r' b hr' hb => ?_⟩,
    fun j hj => .of_ne hj _ rfl (.inr hheld.owner) (.inl rfl), fun v hv _ => ⟨fun h => ?_, _, hv.record.trans hrec, hset⟩⟩
  · rw [show (t.effect i .mutexUnlock ()).rx = rx from hheld.rx_eq]
    exact hend.between.1
  · obtain rfl : r' = r := Option.some.inj (hr'.symm.trans hheld.record)
    rw [show ({ r' with left := some t.rx } : ReadRecord).result = r'.result from rfl, hheld.running] at hb
    cases hb
  · exact absurd (hv.owner.mp h) (by simp [ReadState.effect])

/-- **A call** that has not obtained the lock yet. -/
theorem safe_recvMessage (call : ReadCall) (hidle : s.owner ≠ some i) (hs : s.calls i = some (.fresh call)) :
    ((readOutline target).view i).Safe ((readOutline target).post i)
      (recvMessage atomicRing target call.iterations call.count) s := by
  rw [recvMessage]
  split
  · next hz => exact fun u hu _ => ⟨fun h => hidle (hu.owner.mp h), _, hu.record.trans hs, rfl, .inr ⟨hz, rfl⟩⟩
  · refine View.safe_act (fun t => t.owner ≠ some i ∧ t.calls i = some (.fresh call)) ⟨hidle, hs⟩
      (fun t u h hr _ => ⟨fun ho => h.1 (hr.owner.mp ho), hr.record.trans h.2⟩) fun t ht hi => ⟨trivial, ?_⟩
    rintro answer u ⟨hans, rfl⟩
    rcases hans with rfl | ⟨rfl, hfree⟩
    · exact ⟨hi, fun j _ => .refl j t, fun u hu _ => ⟨fun h => ht.1 (hu.owner.mp h), _, hu.record.trans ht.2,
        rfl, .inl rfl⟩⟩
    · have hheld : Held i t.rx t.pending t.rx (enteredRecord call t.rx t.pending)
          (t.effect i .mutexLockInterruptible (.ok ())) := by
        refine ⟨rfl, rfl, (note_self t i _).trans ?_, ⟨t.pending, rfl, List.prefix_rfl⟩, rfl, ⟨[], by simp; rfl⟩⟩
        rw [ht.2]
        rfl
      refine ⟨⟨by rintro ⟨⟩, hi.sticky, settled_note hi _ rfl fun r a hr ha => ?_⟩,
        fun j hj => .of_ne hj _ rfl (.inl hfree) (.inr rfl),
        View.Safe.bind (p := recvLocked atomicRing target call.iterations call.count)
          (View.Safe.mono (safe_recvLocked call hheld (hi.free hfree) hi.sticky) fun a u _ hu => safe_unlock hu)⟩
      obtain rfl := Option.some.inj (hr.symm.trans ht.2)
      cases ha

theorem starts : (readOutline target).Starts := by
  intro i call s t hi hidle hst
  obtain ⟨hnone, rfl⟩ := hst
  have hself : Function.update s.calls i (some (.fresh call)) i = some (.fresh call) := Function.update_self ..
  refine ⟨⟨hi.free, hi.sticky, fun j r a hr ha => ?_⟩,
    fun j hj => ⟨Function.update_of_ne hj .., Iff.rfl, fun _ => rfl, fun _ => ⟨[], by simp⟩⟩,
    safe_recvMessage call hidle hself⟩
  by_cases hj : j = i
  · subst hj
    obtain rfl := Option.some.inj (hr.symm.trans hself)
    cases ha
  · exact hi.settled j r a ((Function.update_of_ne hj ..).symm.trans hr) ha

end Calls

end DeviceRead

/-! ## whole runs -/

theorem ReadState.inv_init : ReadState.init.Inv :=
  ⟨fun _ => by rintro ⟨⟩, by rintro _ ⟨⟩, by rintro _ _ _ ⟨⟩⟩

theorem read_good {target : NotifyTarget}
    {c : Config Nat (endpointIface ringIface Receiver) ReadState (Except Errno Nat)}
    (h : (readMachine target).Reachable .init c) : (readOutline target).Good c :=
  (readOutline target).good DeviceRead.starts ReadState.inv_init (fun _ => by rintro ⟨⟩) h

/-- What a call has done when it has returned. -/
structure ReadContract (r : ReadRecord) (a : Except Errno Nat) : Prop where
  /-- a positive count is that of one whole message, now in the buffer -/
  whole : ∀ n, a = .ok n → 0 < n → n ≤ r.count.toNat ∧ ∃ frames, Decodes r.popped frames ∧ IsMessage frames ∧
    (∀ f ∈ frames, f.messageLen.toNat = n) ∧ r.buffer = Holding (payload frames)
  /-- without a message, or with one that does not fit, nothing changes -/
  unchanged : a = .ok 0 ∨ a = .error .EMSGSIZE → r.popped = [] ∧
    ∀ rx q, r.entered = some (rx, q) → r.left = some rx
  reset_iff : a = .error .ECONNRESET ↔ HasAbort r.popped
  reset : a = .error .ECONNRESET → (∃ frames, Decodes r.popped frames ∧ IsAborted frames) ∧
    ∃ rx, r.left = some rx ∧ rx.state = .idle
  empty_iff : a = .error .EOPNOTSUPP ↔ EmptyMessage r.popped
  /-- every other error under the lock leaves a failed receiver -/
  failed : ∀ e, a = .error e → r.entered ≠ none → e ≠ .ECONNRESET → e ≠ .EOPNOTSUPP → e ≠ .EMSGSIZE →
    ∃ rx, r.left = some rx ∧ rx.state = .failed e
  /-- a call that has not obtained the lock has done nothing -/
  outside : r.entered = none → r.popped = [] ∧ (a = .error .EINTR ∨ r.count = 0 ∧ a = .ok 0)
  /-- a whole message that fits is delivered, unless a user copy faults -/
  delivers : ∀ rx ms later frames, r.entered = some (rx, ms ++ later) → rx.state = .idle → Decodes ms frames →
    IsMessage frames → payload frames ≠ [] → (payload frames).length ≤ r.count.toNat → r.faulted = false →
    a = .ok (payload frames).length ∧ r.popped = ms ∧ r.buffer = Holding (payload frames)

theorem ReadRecord.Settled.contract {r : ReadRecord} {a : Except Errno Nat} (h : r.Settled a) :
    ReadContract r a := by
  unfold ReadRecord.Settled at h
  split at h
  · next hout =>
      obtain ⟨hpop, ha⟩ := h
      have hcount (n : Nat) (hn : 0 < n) : a ≠ .ok n := by
        rcases ha with rfl | ⟨-, rfl⟩
        · simp
        · rintro ⟨⟩
          cases hn
      have herr (e : Errno) (he : e ≠ .EINTR) : a ≠ .error e := by
        rcases ha with rfl | ⟨-, rfl⟩
        · rintro ⟨⟩
          exact he rfl
        · simp
      have habort : ¬ HasAbort r.popped := by simp [hpop, HasAbort]
      have hempty : ¬ EmptyMessage r.popped := by rw [hpop]; exact not_emptyMessage_nil
      refine ⟨fun n hn hpos => absurd hn (hcount n hpos), fun _ => ⟨hpop, by simp [hout]⟩,
        iff_of_false (herr _ (by decide)) habort, fun h => absurd h (herr _ (by decide)),
        iff_of_false (herr _ (by decide)) hempty, fun _ _ h => absurd hout h, fun _ => ⟨hpop, ha⟩, ?_⟩
      intro _ _ _ _ h
      rw [hout] at h
      cases h
  · next rx q hin =>
      obtain ⟨bytes, rx', hleft, hends, hbuf⟩ := h
      refine ⟨fun n hn hpos => ?_, fun ha => ?_, hends.aborted_iff, fun ha => ?_, hends.empty_iff,
        fun e he _ h₁ h₂ h₃ => ⟨rx', hleft, hends.failed_of_error he h₁ h₂ h₃⟩, by simp [hin],
        fun rx₁ ms later frames hent hidle hdec hmsg hne hcount hfault => ?_⟩
      · obtain ⟨hfault, hle, frames, hdec, hmsg, hpay, -, hlen⟩ := hends.whole hn hpos
        exact ⟨hle, frames, hdec, hmsg, hlen, by rw [hbuf hfault, hpay]⟩
      · obtain ⟨hpop, -, rfl⟩ := hends.unchanged ha
        refine ⟨hpop, fun rx₁ q₁ hent => ?_⟩
        rw [hin] at hent
        cases hent
        exact hleft
      · obtain ⟨hidle, hframes⟩ := hends.idle_of_aborted ha
        exact ⟨hframes, rx', hleft, hidle⟩
      · rw [hin] at hent
        cases hent
        rw [hfault] at hends
        obtain ⟨rfl, rfl⟩ := hends.delivers hidle hdec hmsg hne hcount
        obtain ⟨-, -, frames', hdec', -, hpay, -⟩ := hends.whole rfl (List.length_pos_of_ne_nil hne)
        obtain rfl := hdec.unique hdec'
        exact ⟨rfl, rfl, by rw [hbuf hfault, hpay]⟩

/-- **A device read returns one whole message or changes nothing it should
not.**  In every state that any schedule of any calls, of a peer that
publishes any slots, and of faults, timeouts and interrupts leads to:

* the lock is held by running calls only, and while it is free the receiver
  is in no message;
* a call that has returned has kept the contract `ReadContract`;
* a call that is still polling has popped neither an ABORT frame nor a whole
  message, and a message that was all there when it obtained the lock has more
  slots than the call has had iterations. -/
theorem device_read_whole_message (target : NotifyTarget)
    (c : Config Nat (endpointIface ringIface Receiver) ReadState (Except Errno Nat))
    (h : (readMachine target).Reachable .init c) :
    (c.shared.owner = none → c.shared.rx.state ≠ .receiving) ∧
    (∀ i, c.shared.owner = some i → c.thread i ≠ none) ∧
    (∀ i r a, c.shared.calls i = some r → r.result = some a → ReadContract r a) ∧
    (∀ i r, c.shared.calls i = some r → c.thread i = some .spin → ¬ HasAbort r.popped ∧
      (∀ frames, Decodes r.popped frames → ¬ IsMessage frames) ∧
      ∀ rx ms later frames, r.entered = some (rx, ms ++ later) → Decodes ms frames → IsMessage frames →
        r.iterations < ms.length) := by
  have hgood := read_good h
  have hi : c.shared.Inv := hgood.1
  refine ⟨hi.free, fun i ho hnone => (hgood.2 i).1 hnone ho, fun i r a hr ha => (hi.settled i r a hr ha).contract,
    fun i r hr hspin => ?_⟩
  obtain ⟨rx, q, hent, hidle, bytes, rx', rest, htakes, hahead, hbudget⟩ := hgood.wait hspin r hr
  refine ⟨htakes.not_hasAbort hidle, fun frames hdec => htakes.not_isMessage hidle hdec,
    fun rx₁ ms later frames hent' hdec hmsg => ?_⟩
  rw [hent] at hent'
  cases hent'
  have hlt := htakes.length_lt hidle hdec hmsg hahead
  rw [List.length_append] at hbudget
  omega

/-- A world in which everything a call asks for succeeds. -/
def DeviceRead.obliging (i : Nat) (o : EndpointOp ringIface Receiver) (s : ReadState) :
    (endpointIface ringIface Receiver).Res o × ReadState :=
  let answer : (endpointIface ringIface Receiver).Res o :=
    match o with
    | .mutexLockInterruptible =>
        match s.owner with
        | none => .ok ()
        | some _ => .error .EINTR
    | .load => s.rx
    | .ring (.push _) => false
    | .ring .peek => s.pending.head?
    | .ring .pop => ()
    | .copyFromUser _ _ | .copyToUser _ _ | .msleepInterruptible _ => (0 : Nat)
    | .jiffies | .msecsToJiffies _ | .hvcNotifyChannel _ _ _ => (0 : UInt64)
    | .mutexUnlock | .store _ | .msleep _ => ()
  (answer, s.effect i o answer)

theorem DeviceRead.exec_obliging {target : NotifyTarget} (i : Nat) (o : EndpointOp ringIface Receiver)
    (s : ReadState) :
    (readMachine target).exec i o s (DeviceRead.obliging i o s).1 (DeviceRead.obliging i o s).2 := by
  refine ⟨?_, rfl⟩
  cases o with
  | mutexLockInterruptible =>
      cases ho : s.owner with
      | none => exact .inr ⟨by simp [DeviceRead.obliging, ho], ho⟩
      | some j => exact .inl (by simp [DeviceRead.obliging, ho])
  | load => rfl
  | ring o => cases o <;> first | rfl | trivial
  | copyToUser offset bytes => exact Nat.zero_le _
  | _ => trivial

/-- The only frame of a message of one byte. -/
def byteSlot : Slot := ⟨frameBytes 1 1 true true false [42], length_frameBytes _ _ _ _ _ (by decide)⟩

/-- The run of one call that reads a single byte. -/
theorem device_read_whole_message_byte :
    ∃ c r, (readMachine ⟨false, 0, 7⟩).Reachable .init c ∧ c.shared.calls 0 = some r ∧
      r.result = some (.ok 1) ∧ ReadContract r (.ok 1) := by
  have hquiet : (readMachine ⟨false, 0, 7⟩).Reachable .init ⟨.init, fun _ => none⟩ := Relation.ReflTransGen.refl
  have hpublished : (readMachine ⟨false, 0, 7⟩).Reachable .init ⟨{ ReadState.init with pending := [byteSlot] }, fun _ => none⟩ :=
    hquiet.tail (.env ⟨[byteSlot], rfl⟩)
  have hstarted := hpublished.start 0 ⟨1, 8⟩ rfl ⟨rfl, rfl⟩
  have hrun : ∃ s r, (recvMessage atomicRing ⟨false, 0, 7⟩ 1 8).run (DeviceRead.obliging 0)
      { ReadState.init with
        pending := [byteSlot]
        calls := Function.update (fun _ => none) 0 (some (.fresh ⟨1, 8⟩)) } = some (.ok 1, s) ∧
      s.calls 0 = some r := ⟨_, _, rfl, rfl⟩
  obtain ⟨s, r, hrun, hr⟩ := hrun
  have hended := (hstarted.run (DeviceRead.exec_obliging 0) hrun).finish 0 (Function.update_self ..) rfl
  have hrec : (s.note 0 fun r => { r with result := some (.ok 1) }).calls 0 =
      some { r with result := some (.ok 1) } := by
    rw [ReadState.note_self, hr]
    rfl
  exact ⟨_, _, hended, hrec, rfl, (device_read_whole_message _ _ hended).2.2.1 0 _ _ hrec rfl⟩

end Axivc
