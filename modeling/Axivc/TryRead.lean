import Axivc.Lib.Trace
import Axivc.Codec
import Axivc.Receiver

/-!
# Axivc.TryRead

`axivc_message_try_read` at single memory accesses.

The ring is shared memory, and every load from it may be answered with
anything; the 256-byte copy of a slot and the output buffer are the caller's
own.  A program here is the text of `message.c` with every access to the copy
and to the buffer spelled out, so that "in bounds" is a statement about the
offsets of the accesses.

`try_read_bounded` is what holds whatever the shared memory contains and
however the peer changes it.  `try_read_refines` ties the programs to those of
`Axivc.Receiver`: every run is one of `messageTryRead`, which sees the slots
that have been copied.
-/

namespace Axivc

namespace TryRead

open Prog Rely

/-! ## accesses -/

/-- The accesses of the receiver: to the shared ring, the whole slot that
`memcpy` puts into the local copy, one byte of the copy, one byte of the
output buffer. -/
inductive Access where
  | ring (a : RingAccess)
  | fillSlot (slot : Slot)
  | load (offset : Nat)
  | store (offset : Nat) (byte : UInt8)

@[reducible] def memory : Iface where
  Op := Access
  Res
    | .ring a => ringMemory.Res a
    | .load _ => UInt8
    | _ => Unit

abbrev mem (a : Access) : Prog memory (memory.Res a) := op (I := memory) a

/-- A program of `ring.c`. -/
def onRing {α : Type} (p : Prog ringMemory α) : Prog memory α := p.subst fun a => mem (.ring a)

/-- The caller's memory: the copy of a slot and the output buffer. -/
structure Local where
  slot : Slot
  output : List UInt8

/-- The accesses: what is loaded from the shared ring may be anything. -/
def Accesses : (a : Access) → Local → memory.Res a → Local → Prop
  | .ring _, m, _, m' => m' = m
  | .fillSlot slot, m, _, m' => m' = { m with slot := slot }
  | .load offset, m, byte, m' => (offset < slotSize → byte = m.slot.bytes.getD offset 0) ∧ m' = m
  | .store offset byte, m, _, m' => m' = { m with output := m.output.set offset byte }

/-! ## the programs -/

/-- `axivc_read_le16` -/
def loadLe16 (p : Nat) : Prog memory UInt16 := do
  let b0 ← mem (.load p)
  let b1 ← mem (.load (p + 1))
  pure (UInt8.toUInt16 b0 ||| UInt8.toUInt16 b1 <<< 8)

/-- `axivc_read_le32` -/
def loadLe32 (p : Nat) : Prog memory UInt32 := do
  let b0 ← mem (.load p)
  let b1 ← mem (.load (p + 1))
  let b2 ← mem (.load (p + 2))
  let b3 ← mem (.load (p + 3))
  pure (UInt8.toUInt32 b0 ||| UInt8.toUInt32 b1 <<< 8 ||| UInt8.toUInt32 b2 <<< 16 ||| UInt8.toUInt32 b3 <<< 24)

/-- `axivc_read_le64` -/
def loadLe64 (p : Nat) : Prog memory UInt64 := do
  let low ← loadLe32 p
  let high ← loadLe32 (p + 4)
  pure (low.toUInt64 ||| high.toUInt64 <<< 32)

/-- `memcpy(output + dst, slot + src, n)` -/
def memcpy (dst src : Nat) : Nat → Prog memory Unit
  | 0 => pure ()
  | n + 1 => do
      let byte ← mem (.load src)
      mem (.store dst byte)
      memcpy (dst + 1) (src + 1) n

/-- `struct axivc_decoded_frame`; `fragment` is an offset into the slot. -/
structure DecodedFrame where
  messageId : UInt64
  messageLen : UInt64
  first : Bool
  last : Bool
  abort : Bool
  fragment : Nat
  fragmentLen : Nat

/-- `axivc_decode_frame` -/
def decodeFrame : Prog memory (Except Errno DecodedFrame) := do
  let version : UInt8 ← mem (.load versionOffset)
  let flags : UInt8 ← mem (.load flagsOffset)
  if version ≠ messageVersionV1 then
    pure (.error .EPROTONOSUPPORT)
  else if flags &&& ~~~knownFlags ≠ 0 then
    pure (.error .EPROTO)
  else
    let headerLen ← loadLe16 headerLenOffset
    if headerLen ≠ .ofNat v1HeaderLen then
      pure (.error .EPROTO)
    else
      let fragmentLen ← loadLe32 fragmentLenOffset
      if fragmentLen.toNat > slotSize - headerLen.toNat then
        pure (.error .EPROTO)
      else
        let messageId ← loadLe64 messageIdOffset
        if messageId = 0 then
          pure (.error .EPROTO)
        else
          let first := flags &&& frameFlagFirst ≠ 0
          let last := flags &&& frameFlagLast ≠ 0
          let abort := flags &&& frameFlagAbort ≠ 0
          let messageLen ← loadLe64 messageLenOffset
          match validateFrameShape messageLen fragmentLen.toNat first last abort with
          | .error e => pure (.error e)
          | .ok () =>
              let messageLen ← loadLe64 messageLenOffset
              pure (.ok ⟨messageId, messageLen, first, last, abort, headerLen.toNat, fragmentLen.toNat⟩)

/-- The switch of `axivc_validate_transition`. -/
def transitionBase (rx : Receiver) (frame : DecodedFrame) : Except Errno (MessageMeta × UInt64) :=
  match rx.state with
  | .idle =>
      if frame.abort || !frame.first then .error .EPROTO
      else .ok (⟨frame.messageId, frame.messageLen⟩, 0)
  | .receiving =>
      if frame.first then .error .EPROTO
      else if frame.messageId ≠ rx.active.id then .error .EPROTO
      else if frame.messageLen ≠ rx.active.len then .error .EPROTO
      else .ok (rx.active, rx.received)
  | .failed failedErrno => .error failedErrno

/-- `axivc_validate_transition` -/
def validateTransition (rx : Receiver) (frame : DecodedFrame) : Except Errno Transition :=
  match transitionBase rx frame with
  | .error e => .error e
  | .ok (active, received) =>
      if frame.abort then
        .ok ⟨.idle, active, received, false, true⟩
      else if received > ~~~0 - .ofNat frame.fragmentLen then
        .error .EPROTO
      else
        let received := received + .ofNat frame.fragmentLen
        if received > active.len then
          .error .EPROTO
        else if frame.last && received ≠ active.len then
          .error .EPROTO
        else
          .ok ⟨if frame.last then .idle else .receiving, active, received, frame.last, false⟩

/-- `struct axivc_receive_progress` -/
structure Progress where
  written : Nat
  consumedSlots : Nat
  complete : Bool

/-- What a call leaves: the receiver, `*progress`, and the error it returns, if
any. -/
structure Outcome where
  rx : Receiver
  progress : Progress
  err : Option Errno

/-- `axivc_ring_try_peek_slot(receiver->ring, slot)` -/
def tryPeekSlot : Prog memory Bool := do
  match ← onRing ringTryPeekSlot with
  | none => pure false
  | some slot =>
      mem (.fillSlot slot)
      pure true

/-- `axivc_receiver_fail`; `*progress` is as the call has initialised it. -/
def receiverFail (rx : Receiver) (error : Errno) : Outcome := ⟨{ rx with state := .failed error }, ⟨0, 0, false⟩, some error⟩

/-- The loop of `axivc_process_available_slots`, for at most the granted number
of iterations. -/
def processLoop (outputLen : Nat) (rx : Receiver) (written consumedSlots : Nat) : Nat → Prog memory Outcome
  | 0 => .spin
  | iterations + 1 => do
      let available ← tryPeekSlot
      if !available then
        pure ⟨rx, ⟨written, consumedSlots, false⟩, none⟩
      else
        match ← decodeFrame with
        | .error e =>
            -- Slots already consumed by this call stay consumed; the error
            -- surfaces again on the next call.
            if consumedSlots > 0 then pure ⟨rx, ⟨written, consumedSlots, false⟩, none⟩
            else pure (receiverFail rx e)
        | .ok frame =>
            match validateTransition rx frame with
            | .error e =>
                if consumedSlots > 0 then pure ⟨rx, ⟨written, consumedSlots, false⟩, none⟩
                else pure (receiverFail rx e)
            | .ok transition =>
                if transition.aborted && consumedSlots > 0 then
                  pure ⟨rx, ⟨written, consumedSlots, false⟩, none⟩
                else if frame.fragmentLen > outputLen - written then
                  if consumedSlots = 0 then pure ⟨rx, ⟨0, 0, false⟩, some .EMSGSIZE⟩
                  else pure ⟨rx, ⟨written, consumedSlots, false⟩, none⟩
                else do
                  memcpy written frame.fragment frame.fragmentLen
                  let written := written + frame.fragmentLen
                  onRing ringPopSlot
                  let rx := rx.commit transition
                  if transition.aborted then
                    pure ⟨rx, ⟨0, 0, false⟩, some .ECONNRESET⟩
                  else if transition.complete then
                    pure ⟨rx, ⟨written, consumedSlots + 1, true⟩, none⟩
                  else
                    processLoop outputLen rx written (consumedSlots + 1) iterations

/-- `axivc_process_available_slots` -/
def processAvailableSlots (rx : Receiver) (outputLen : Nat) : Prog memory Outcome :=
  match rx.state with
  | .failed failedErrno => pure ⟨rx, ⟨0, 0, false⟩, some failedErrno⟩
  | _ => processLoop outputLen rx 0 0 (outputLen + 1)

/-- `axivc_message_try_read` -/
def messageTryRead (rx : Receiver) (outputLen : Nat) : Prog memory Outcome := processAvailableSlots rx outputLen

/-! ## the accesses of each program -/

/-- An access to the copy stays within its 256 bytes, one to the output buffer
within the buffer. -/
def Access.InBounds (outputLen : Nat) : Access → Prop
  | .load offset => offset < slotSize
  | .store offset _ => offset < outputLen
  | _ => True

/-- The slot at the head of the ring is popped. -/
def Access.isPop : Access → Bool
  | .ring (.storeHead _) => true
  | _ => false

/-- The slots popped in a run. -/
def popped (tr : List memory.Event) : Nat := tr.countP fun e => e.1.isPop

/-- A slot was available when the call looked: the head and the tail it has
loaded differ. -/
def Available (tr : List memory.Event) : Prop :=
  ∃ head tail rest, tr = ⟨.ring .loadHead, head⟩ :: ⟨.ring .loadTail, tail⟩ :: rest ∧ head ≠ tail

/-- An access in bounds that pops no slot. -/
def Quiet (outputLen : Nat) (a : Access) : Prop := a.InBounds outputLen ∧ a.isPop = false

/-- A load from the copy. -/
def Loads (a : Access) : Prop := ∃ offset, a = .load offset ∧ offset < slotSize

theorem Loads.quiet {a : Access} (h : Loads a) (outputLen : Nat) : Quiet outputLen a := by
  obtain ⟨offset, rfl, hlt⟩ := h
  exact ⟨hlt, rfl⟩

theorem loadLe16_meets {p : Nat} (h : p + 2 ≤ slotSize) : (loadLe16 p).Meets Loads fun _ => True :=
  .act ⟨p, rfl, by omega⟩ fun _ => .act ⟨p + 1, rfl, by omega⟩ fun _ => .ret trivial

theorem loadLe32_meets {p : Nat} (h : p + 4 ≤ slotSize) : (loadLe32 p).Meets Loads fun _ => True :=
  .act ⟨p, rfl, by omega⟩ fun _ => .act ⟨p + 1, rfl, by omega⟩ fun _ =>
    .act ⟨p + 2, rfl, by omega⟩ fun _ => .act ⟨p + 3, rfl, by omega⟩ fun _ => .ret trivial

theorem loadLe64_meets {p : Nat} (h : p + 8 ≤ slotSize) : (loadLe64 p).Meets Loads fun _ => True :=
  (loadLe32_meets (by omega)).bind fun _ _ => (loadLe32_meets (by omega)).bind fun _ _ => .ret trivial

/-- The decoder reads the header of the copy, whatever its bytes are. -/
theorem decodeFrame_meets : decodeFrame.Meets Loads fun _ => True := by
  refine .act ⟨versionOffset, rfl, by decide⟩ fun version => .act ⟨flagsOffset, rfl, by decide⟩ fun flags => ?_
  change Meets _ _ (ite (version ≠ messageVersionV1) _ (ite (flags &&& ~~~knownFlags ≠ 0) _ _))
  split
  · exact .ret trivial
  · split
    · exact .ret trivial
    · refine (loadLe16_meets (by decide)).bind fun headerLen _ => ?_
      split
      · exact .ret trivial
      · refine (loadLe32_meets (by decide)).bind fun fragmentLen _ => ?_
        split
        · exact .ret trivial
        · refine (loadLe64_meets (by decide)).bind fun messageId _ => ?_
          split
          · exact .ret trivial
          · refine (loadLe64_meets (by decide)).bind fun messageLen _ => ?_
            split
            · exact .ret trivial
            · exact (loadLe64_meets (by decide)).bind fun messageLen _ => .ret trivial

theorem memcpy_meets (outputLen n : Nat) {dst src : Nat} (hsrc : src + n ≤ slotSize) (hdst : dst + n ≤ outputLen) :
    (memcpy dst src n).Meets (Quiet outputLen) fun _ => True := by
  induction n generalizing dst src with
  | zero => exact .ret trivial
  | succ n ih =>
      refine .act ⟨show src < slotSize by omega, rfl⟩ fun byte =>
        .act ⟨show dst < outputLen by omega, rfl⟩ fun _ => ?_
      exact ih (by omega) (by omega)

theorem onRing_loadBytes_meets (outputLen : Nat) (i : Fin ringCapacity) (slot : Slot) (js : List (Fin slotSize)) :
    (onRing (loadBytes i slot js)).Meets (Quiet outputLen) fun _ => True := by
  induction js generalizing slot with
  | nil => exact .ret trivial
  | cons j js ih => exact .act ⟨trivial, rfl⟩ fun _ => ih _

/-- The copy of a slot that is there. -/
theorem onRing_copy_meets (outputLen : Nat) (head : UInt32) :
    (onRing (loadBytes (slotIndex head) Slot.zero (List.finRange _) >>= fun slot => .ret (some slot))).Meets
      (Quiet outputLen) fun found => found ≠ none := by
  rw [onRing, subst_bind]
  exact (onRing_loadBytes_meets ..).bind fun _ _ => .ret (by simp)

/-- The accesses of `axivc_ring_try_peek_slot` to the ring. -/
theorem onRing_peek_meets (outputLen : Nat) : (onRing ringTryPeekSlot).Meets (Quiet outputLen) fun _ => True := by
  refine .act ⟨trivial, rfl⟩ fun head => .act ⟨trivial, rfl⟩ fun tail => ?_
  change Meets _ _ (onRing (ite (head = tail) (.ret none) _))
  split
  · exact .ret trivial
  · have hcopy := onRing_copy_meets outputLen head
    exact ⟨hcopy.returns, hcopy.each, hcopy.ends.mono fun _ _ => trivial⟩

/-- It finds no slot when the head and the tail are equal. -/
theorem not_available_of_peek {m m' : Local} {tr : List memory.Event}
    (h : (onRing ringTryPeekSlot).Ran Accesses m tr (some none) m') : ¬Available tr := by
  obtain ⟨head, u, tr', -, ⟨tail, v, tr'', -, hrest, rfl⟩, rfl⟩ := h
  change Ran _ (onRing (ite (head = tail) (.ret none) _)) _ _ _ _ at hrest
  split at hrest
  · next heq =>
    rintro ⟨head', tail', rest, htr, hne⟩
    cases htr
    exact hne heq
  · exact absurd rfl (hrest.ends (onRing_copy_meets 0 head).ends)

/-- The ring is not the caller's memory. -/
theorem Ran.of_onRing {α : Type} {p : Prog ringMemory α} {m m' : Local} {tr : List memory.Event} {x : Option α}
    (h : (onRing p).Ran Accesses m tr x m') : m' = m := by
  have hring : (onRing p).Each fun a : Access => ∃ b, a = .ring b := by
    refine Each.subst (fun b _ => ?_) (each_true p)
    exact ⟨⟨b, rfl⟩, fun _ => trivial⟩
  refine Ran.keeps (P := fun u => u = m) h hring (fun a s r t ha he hs => ?_) rfl
  obtain ⟨b, rfl⟩ := ha
  exact Eq.trans he hs

/-- A slot is found and copied, or none was available. -/
theorem Ran.of_tryPeekSlot {α : Type} {f : Bool → Prog memory α} {m m' : Local} {tr : List memory.Event} {x : Option α}
    (h : (tryPeekSlot >>= f).Ran Accesses m tr x m') (outputLen : Nat) :
    ∃ tr₁ tr₂, (∀ e ∈ tr₁, Quiet outputLen e.1) ∧
      ((tr = tr₁ ++ tr₂ ∧ ¬Available tr₁ ∧ (f false).Ran Accesses m tr₂ x m') ∨
        ∃ slot, tr = tr₁ ++ ⟨.fillSlot slot, ()⟩ :: tr₂ ∧ (f true).Ran Accesses { m with slot := slot } tr₂ x m') := by
  rw [tryPeekSlot, bind_assoc] at h
  obtain ⟨found, u, tr₁, tr₂, -, hquiet, hring, hrest, rfl⟩ := h.of_meets (onRing_peek_meets outputLen)
  obtain rfl := Ran.of_onRing hring
  cases found with
  | none => exact ⟨tr₁, tr₂, hquiet, .inl ⟨rfl, not_available_of_peek hring, hrest⟩⟩
  | some slot =>
      obtain ⟨r, v, tr₃, hfill, hrest, rfl⟩ := hrest
      obtain rfl : v = { u with slot := slot } := hfill
      exact ⟨tr₁, tr₃, hquiet, .inr ⟨slot, rfl, hrest⟩⟩

/-! ## the values the decoder reads -/

section Values

variable {α : Type} {m m' : Local} {tr : List memory.Event} {x : Option α} {p : Nat}

theorem Ran.of_load {f : UInt8 → Prog memory α} (h : (mem (.load p) >>= f).Ran Accesses m tr x m') (hp : p < slotSize) :
    ∃ tr', (f (m.slot.bytes.getD p 0)).Ran Accesses m tr' x m' := by
  obtain ⟨byte, u, tr', ⟨hbyte, rfl⟩, hrest, -⟩ := h
  rw [← hbyte hp]
  exact ⟨tr', hrest⟩

theorem Ran.of_loadLe16 {f : UInt16 → Prog memory α} (h : (loadLe16 p >>= f).Ran Accesses m tr x m')
    (hp : p + 2 ≤ slotSize) : ∃ tr', (f (readLe16 (m.slot.bytes.drop p))).Ran Accesses m tr' x m' := by
  obtain ⟨tr, h⟩ := Ran.of_load h (by omega)
  obtain ⟨tr, h⟩ := Ran.of_load h (by omega)
  simp only [readLe16, getD_drop, Nat.add_zero]
  exact ⟨tr, h⟩

theorem Ran.of_loadLe32 {f : UInt32 → Prog memory α} (h : (loadLe32 p >>= f).Ran Accesses m tr x m')
    (hp : p + 4 ≤ slotSize) : ∃ tr', (f (readLe32 (m.slot.bytes.drop p))).Ran Accesses m tr' x m' := by
  obtain ⟨tr, h⟩ := Ran.of_load h (by omega)
  obtain ⟨tr, h⟩ := Ran.of_load h (by omega)
  obtain ⟨tr, h⟩ := Ran.of_load h (by omega)
  obtain ⟨tr, h⟩ := Ran.of_load h (by omega)
  simp only [readLe32, getD_drop, Nat.add_zero]
  exact ⟨tr, h⟩

theorem Ran.of_loadLe64 {f : UInt64 → Prog memory α} (h : (loadLe64 p >>= f).Ran Accesses m tr x m')
    (hp : p + 8 ≤ slotSize) : ∃ tr', (f (readLe64 (m.slot.bytes.drop p))).Ran Accesses m tr' x m' := by
  rw [loadLe64, bind_assoc] at h
  obtain ⟨tr, h⟩ := Ran.of_loadLe32 h (by omega)
  rw [bind_assoc] at h
  obtain ⟨tr, h⟩ := Ran.of_loadLe32 h (by omega)
  rw [readLe64, List.drop_drop]
  exact ⟨tr, h⟩

end Values

/-- The fields of a decoded frame. -/
def fieldsOf (frame : Frame) : DecodedFrame :=
  ⟨frame.messageId, frame.messageLen, frame.first, frame.last, frame.abort, v1HeaderLen, frame.fragment.length⟩

/-- What the decoder makes of the copy. -/
theorem Ran.of_decodeFrame {m m' : Local} {tr : List memory.Event} {x : Option (Except Errno DecodedFrame)}
    (h : decodeFrame.Ran Accesses m tr x m') : m' = m ∧ x = some ((Axivc.decodeFrame m.slot).map fieldsOf) := by
  obtain ⟨tr, h⟩ := Ran.of_load h (by decide)
  obtain ⟨tr, h⟩ := Ran.of_load h (by decide)
  unfold Axivc.decodeFrame
  dsimp only
  by_cases hversion : m.slot.bytes.getD versionOffset 0 ≠ messageVersionV1
  · rw [if_pos hversion] at h ⊢
    exact ⟨h.2.2, h.2.1⟩
  · rw [if_neg hversion] at h ⊢
    by_cases hflags : m.slot.bytes.getD flagsOffset 0 &&& ~~~knownFlags ≠ 0
    · rw [if_pos hflags] at h ⊢
      exact ⟨h.2.2, h.2.1⟩
    · rw [if_neg hflags] at h ⊢
      obtain ⟨tr, h⟩ := Ran.of_loadLe16 h (by decide)
      by_cases hheader : readLe16 (m.slot.bytes.drop headerLenOffset) ≠ .ofNat v1HeaderLen
      · rw [if_pos hheader] at h
        rw [dif_pos hheader]
        exact ⟨h.2.2, h.2.1⟩
      · rw [if_neg hheader] at h
        rw [dif_neg hheader]
        obtain ⟨tr, h⟩ := Ran.of_loadLe32 h (by decide)
        by_cases hlen : (readLe32 (m.slot.bytes.drop fragmentLenOffset)).toNat >
            slotSize - (readLe16 (m.slot.bytes.drop headerLenOffset)).toNat
        · rw [if_pos hlen] at h
          rw [dif_pos hlen]
          exact ⟨h.2.2, h.2.1⟩
        · rw [if_neg hlen] at h
          rw [dif_neg hlen]
          obtain ⟨tr, h⟩ := Ran.of_loadLe64 h (by decide)
          by_cases hid : readLe64 (m.slot.bytes.drop messageIdOffset) = 0
          · rw [if_pos hid] at h
            rw [dif_pos hid]
            exact ⟨h.2.2, h.2.1⟩
          · rw [if_neg hid] at h
            rw [dif_neg hid]
            obtain ⟨tr, h⟩ := Ran.of_loadLe64 h (by decide)
            split
            · next hshape =>
              rw [hshape] at h
              exact ⟨h.2.2, h.2.1⟩
            · next hshape =>
              rw [hshape] at h
              obtain ⟨tr, h⟩ := Ran.of_loadLe64 h (by decide)
              refine ⟨h.2.2, h.2.1.trans ?_⟩
              have hh : (readLe16 (m.slot.bytes.drop headerLenOffset)).toNat = v1HeaderLen := by
                rw [Decidable.of_not_not hheader]
                rfl
              have hfragment := (length_fragment m.slot hheader hlen).1
              rw [hh] at hfragment
              simp only [Except.map, fieldsOf, hfragment, hh]

theorem validateTransition_fieldsOf (rx : Receiver) (frame : Frame) :
    validateTransition rx (fieldsOf frame) = Axivc.validateTransition rx frame := rfl

/-- The fragment of a frame stands in the slot behind the header. -/
theorem fragment_eq {slot : Slot} {frame : Frame} (h : Axivc.decodeFrame slot = .ok frame) :
    (slot.bytes.drop v1HeaderLen).take frame.fragment.length = frame.fragment := by
  obtain ⟨pad, hbytes⟩ := decodeFrame_eq_ok.mp h
  rw [hbytes, List.drop_left' (length_headerBytes ..), List.take_left]

/-! ## one iteration -/

/-- The rest of an iteration, by the decision on the slot it has found. -/
def afterLook (outputLen : Nat) (rx : Receiver) (written consumedSlots iterations : Nat) :
    Except Errno (Frame × Transition) → Prog memory Outcome
  | .error e =>
      if consumedSlots > 0 then pure ⟨rx, ⟨written, consumedSlots, false⟩, none⟩
      else pure (receiverFail rx e)
  | .ok (frame, transition) =>
      if transition.aborted && consumedSlots > 0 then
        pure ⟨rx, ⟨written, consumedSlots, false⟩, none⟩
      else if frame.fragment.length > outputLen - written then
        if consumedSlots = 0 then pure ⟨rx, ⟨0, 0, false⟩, some .EMSGSIZE⟩
        else pure ⟨rx, ⟨written, consumedSlots, false⟩, none⟩
      else do
        memcpy written v1HeaderLen frame.fragment.length
        onRing ringPopSlot
        if transition.aborted then
          pure ⟨rx.commit transition, ⟨0, 0, false⟩, some .ECONNRESET⟩
        else if transition.complete then
          pure ⟨rx.commit transition, ⟨written + frame.fragment.length, consumedSlots + 1, true⟩, none⟩
        else
          processLoop outputLen (rx.commit transition) (written + frame.fragment.length) (consumedSlots + 1) iterations

variable {outputLen written consumedSlots iterations : Nat} {rx : Receiver} {m m' : Local} {tr : List memory.Event}
  {x : Option Outcome}

/-- **One iteration**: it finds no slot, or goes on with the decision on the
slot it has copied. -/
theorem Ran.of_processLoop (h : (processLoop outputLen rx written consumedSlots (iterations + 1)).Ran Accesses m tr x m') :
    ∃ tr₁ tr₂, (∀ e ∈ tr₁, Quiet outputLen e.1) ∧
      ((tr = tr₁ ∧ ¬Available tr₁ ∧ x = some ⟨rx, ⟨written, consumedSlots, false⟩, none⟩ ∧ m' = m) ∨
        ∃ slot tr₃, (∀ e ∈ tr₃, Quiet outputLen e.1) ∧ tr = tr₁ ++ ⟨.fillSlot slot, ()⟩ :: (tr₃ ++ tr₂) ∧
          (afterLook outputLen rx written consumedSlots iterations (rx.examine slot)).Ran Accesses
            { m with slot := slot } tr₂ x m') := by
  rw [processLoop] at h
  obtain ⟨tr₁, tr₂, hquiet, ⟨rfl, hnone, hrest⟩ | ⟨slot, rfl, hrest⟩⟩ := Ran.of_tryPeekSlot h outputLen
  · obtain ⟨rfl, rfl, rfl⟩ := hrest
    exact ⟨tr₁, [], hquiet, .inl ⟨by simp, hnone, rfl, rfl⟩⟩
  · obtain ⟨result, u, tr₃, tr₄, -, hloads, hdecode, hrest, rfl⟩ := Ran.of_meets hrest decodeFrame_meets
    obtain ⟨rfl, hresult⟩ := Ran.of_decodeFrame hdecode
    refine ⟨tr₁, tr₄, hquiet, .inr ⟨slot, tr₃, fun e he => (hloads e he).quiet outputLen, rfl, ?_⟩⟩
    rw [Receiver.examine]
    cases hslot : Axivc.decodeFrame slot with
    | error e =>
        rw [hslot] at hresult
        cases hresult
        exact hrest
    | ok frame =>
        rw [hslot] at hresult
        cases hresult
        simp only [Except.map, validateTransition_fieldsOf] at hrest
        dsimp only
        cases hvalid : Axivc.validateTransition rx frame with
        | error e =>
            rw [hvalid] at hrest
            exact hrest
        | ok transition =>
            rw [hvalid] at hrest
            exact hrest

/-! ## bounds and progress -/

theorem popped_append (tr tr' : List memory.Event) : popped (tr ++ tr') = popped tr + popped tr' := List.countP_append

theorem popped_quiet (h : ∀ e ∈ tr, Quiet outputLen e.1) : popped tr = 0 := by
  rw [popped, List.countP_eq_zero]
  intro e he
  simp [(h e he).2]

/-- Where the loop is: every slot it has consumed has given at least one byte,
and it goes on only in the middle of a message. -/
structure Looping (outputLen : Nat) (rx : Receiver) (written consumedSlots iterations : Nat) : Prop where
  room : written ≤ outputLen
  granted : outputLen < written + iterations
  bytes : consumedSlots ≤ written
  fresh : consumedSlots = 0 → written = 0
  receiving : 0 < consumedSlots → rx.state = .receiving

/-- A run of the loop stays in bounds and ends; it pops few slots, and once it
has consumed a slot it succeeds. -/
structure Bounded (outputLen consumedSlots : Nat) (tr : List memory.Event) (x : Option Outcome) : Prop where
  inBounds : ∀ e ∈ tr, e.1.InBounds outputLen
  pops : consumedSlots + popped tr ≤ max 1 outputLen
  ends : ∃ out, x = some out ∧ out.progress.written ≤ outputLen ∧
    (0 < consumedSlots → out.err = none ∧ consumedSlots ≤ out.progress.consumedSlots)

/-- A call consumes a slot or fails for good. -/
structure Advances (tr : List memory.Event) (x : Option Outcome) : Prop where
  popsOrFails : ∀ out, x = some out → 0 < popped tr ∨ ∃ e, out.rx.state = .failed e ∧ out.err = some e
  fits : ∀ out, x = some out → out.err ≠ some .EMSGSIZE
  consumes : ∀ out, x = some out → out.err = none → out.progress.consumedSlots ≠ 0

/-- Accesses that come before. -/
theorem Bounded.prepend {tr₁ : List memory.Event} (h : Bounded outputLen consumedSlots tr x)
    (hquiet : ∀ e ∈ tr₁, Quiet outputLen e.1) : Bounded outputLen consumedSlots (tr₁ ++ tr) x where
  inBounds e he := by
    obtain he | he := List.mem_append.mp he
    · exact (hquiet e he).1
    · exact h.inBounds e he
  pops := by
    rw [popped_append, popped_quiet hquiet]
    have hpops := h.pops
    omega
  ends := h.ends

theorem Advances.prepend {tr₁ : List memory.Event} (h : Advances tr x) : Advances (tr₁ ++ tr) x where
  popsOrFails out hout := by
    obtain hpops | hfails := h.popsOrFails out hout
    · left
      rw [popped_append]
      omega
    · exact .inr hfails
  fits := h.fits
  consumes := h.consumes

/-- A return. -/
theorem bounded_ret {out : Outcome} (hpops : consumedSlots ≤ max 1 outputLen) (hwritten : out.progress.written ≤ outputLen)
    (hend : 0 < consumedSlots → out.err = none ∧ consumedSlots ≤ out.progress.consumedSlots) :
    Bounded outputLen consumedSlots [] (some out) where
  inBounds := by simp
  pops := by simpa [popped] using hpops
  ends := ⟨out, rfl, hwritten, hend⟩

theorem Looping.few (h : Looping outputLen rx written consumedSlots iterations) : consumedSlots ≤ max 1 outputLen := by
  have hbytes := h.bytes
  have hroom := h.room
  omega

/-- The pop at the end of an iteration. -/
theorem Ran.of_ringPopSlot {α : Type} {f : Unit → Prog memory α} {y : Option α}
    (h : (onRing ringPopSlot >>= f).Ran Accesses m tr y m') (outputLen : Nat) : ∃ tr₁ tr₂, tr = tr₁ ++ tr₂ ∧ popped tr₁ = 1 ∧
      (∀ e ∈ tr₁, e.1.InBounds outputLen) ∧ (f ()).Ran Accesses m tr₂ y m' := by
  obtain ⟨head, u, tr', rfl, ⟨r, v, tr'', rfl, hrest, rfl⟩, rfl⟩ := h
  exact ⟨[⟨.ring .loadHead, head⟩, ⟨.ring (.storeHead (UInt32.add head 1)), r⟩], tr'', rfl, rfl,
    by simp [Access.InBounds], hrest⟩

/-- A run that has consumed one slot more. -/
theorem Bounded.pop {tr₁ : List memory.Event} (h : Bounded outputLen (consumedSlots + 1) tr x) (hpop : popped tr₁ = 1)
    (hin : ∀ e ∈ tr₁, e.1.InBounds outputLen) : Bounded outputLen consumedSlots (tr₁ ++ tr) x ∧ Advances (tr₁ ++ tr) x := by
  have hpops := h.pops
  obtain ⟨out, rfl, hwritten, hend⟩ := h.ends
  obtain ⟨herr, hconsumed⟩ := hend (by omega)
  have hcount : popped (tr₁ ++ tr) = 1 + popped tr := by rw [popped_append, hpop]
  constructor
  · constructor
    · intro e he
      obtain he | he := List.mem_append.mp he
      · exact hin e he
      · exact h.inBounds e he
    · omega
    · exact ⟨out, rfl, hwritten, fun _ => ⟨herr, by omega⟩⟩
  · constructor
    · exact fun _ _ => .inl (by omega)
    · rintro _ ⟨⟩
      simp [herr]
    · rintro _ ⟨⟩ -
      omega

/-- The loop stays in bounds with this many iterations. -/
def LoopBounded (outputLen iterations : Nat) : Prop :=
  ∀ {rx : Receiver} {m m' : Local} {tr : List memory.Event} {x : Option Outcome} {written consumedSlots : Nat},
    Looping outputLen rx written consumedSlots iterations →
      (processLoop outputLen rx written consumedSlots iterations).Ran Accesses m tr x m' →
        Bounded outputLen consumedSlots tr x

/-- What follows the pop: the end of the call, or the next iteration. -/
theorem afterPop_bounded (hloop : Looping outputLen rx written consumedSlots (iterations + 1)) {slot : Slot}
    {frame : Frame} {transition : Transition} (hexamine : rx.examine slot = .ok (frame, transition))
    (hgo : transition.aborted = true → consumedSlots = 0) (hfits : written + frame.fragment.length ≤ outputLen)
    (hnext : LoopBounded outputLen iterations)
    (h : (if transition.aborted then
            pure ⟨rx.commit transition, ⟨0, 0, false⟩, some .ECONNRESET⟩
          else if transition.complete then
            pure ⟨rx.commit transition, ⟨written + frame.fragment.length, consumedSlots + 1, true⟩, none⟩
          else
            processLoop outputLen (rx.commit transition) (written + frame.fragment.length) (consumedSlots + 1)
              iterations : Prog memory Outcome).Ran Accesses m tr x m')
    {tr₁ : List memory.Event} (hpop : popped tr₁ = 1) (hin : ∀ e ∈ tr₁, e.1.InBounds outputLen) :
    Bounded outputLen consumedSlots (tr₁ ++ tr) x ∧ Advances (tr₁ ++ tr) x := by
  cases haborted : transition.aborted with
  | true =>
      rw [haborted] at h
      obtain ⟨rfl, rfl, -⟩ := h
      obtain rfl := hgo haborted
      rw [List.append_nil]
      constructor
      · exact ⟨hin, by omega, _, rfl, Nat.zero_le _, fun hpos => by omega⟩
      · constructor
        · exact fun _ _ => .inl (by omega)
        · rintro _ ⟨⟩
          simp
        · rintro _ ⟨⟩ hnone
          cases hnone
  | false =>
      rw [haborted] at h
      have hbytes := hloop.bytes
      have hmore : 0 < consumedSlots → 0 < frame.fragment.length := fun hpos =>
        Receiver.payload_pos_of_receiving hexamine (hloop.receiving hpos) haborted
      cases hcomplete : transition.complete with
      | true =>
          rw [hcomplete] at h
          obtain ⟨rfl, rfl, -⟩ := h
          exact Bounded.pop (bounded_ret (by omega) hfits fun _ => ⟨rfl, le_rfl⟩) hpop hin
      | false =>
          rw [hcomplete] at h
          have hpos := Receiver.payload_pos_of_continues hexamine hcomplete haborted
          have hgranted := hloop.granted
          have hreceiving := Receiver.receiving_of_continues hexamine hcomplete haborted
          exact Bounded.pop (hnext ⟨hfits, by omega, by omega, by omega, fun _ => hreceiving⟩ h) hpop hin

/-- **The rest of an iteration** stays in bounds, and one that has just looked
for the first time advances. -/
theorem afterLook_bounded (hloop : Looping outputLen rx written consumedSlots (iterations + 1)) {slot : Slot}
    (hnext : LoopBounded outputLen iterations)
    (h : (afterLook outputLen rx written consumedSlots iterations (rx.examine slot)).Ran Accesses m tr x m') :
    Bounded outputLen consumedSlots tr x ∧
      (consumedSlots = 0 → (∀ e, rx.state ≠ .failed e) → fragmentCapacity ≤ outputLen → Advances tr x) := by
  have hroom := hloop.room
  cases hexamine : rx.examine slot with
  | error e =>
      rw [hexamine, afterLook] at h
      split at h
      · next hconsumed =>
        obtain ⟨rfl, rfl, -⟩ := h
        exact ⟨bounded_ret hloop.few hroom fun _ => ⟨rfl, le_rfl⟩, fun hzero => by omega⟩
      · next hconsumed =>
        obtain ⟨rfl, rfl, -⟩ := h
        refine ⟨bounded_ret hloop.few (Nat.zero_le _) fun hpos => absurd hpos hconsumed, fun _ hstate _ => ?_⟩
        have he := Receiver.examine_error hstate hexamine
        refine ⟨?_, ?_, ?_⟩
        · rintro out ⟨⟩
          exact .inr ⟨e, rfl, rfl⟩
        · rintro out ⟨⟩
          obtain rfl | rfl := he <;> simp [receiverFail]
        · rintro out ⟨⟩ hnone
          cases hnone
  | ok decision =>
      obtain ⟨frame, transition⟩ := decision
      have hcap : v1HeaderLen + fragmentCapacity = slotSize := rfl
      have hle := frame.fragment_le
      rw [hexamine, afterLook] at h
      split at h
      · next hstop =>
        obtain ⟨rfl, rfl, -⟩ := h
        have hconsumed : 0 < consumedSlots := by simpa using (Bool.and_eq_true_iff.mp hstop).2
        exact ⟨bounded_ret hloop.few hroom fun _ => ⟨rfl, le_rfl⟩, fun hzero => by omega⟩
      · next hgo =>
        split at h
        · next hlong =>
          split at h
          · next hzero =>
            obtain ⟨rfl, rfl, -⟩ := h
            refine ⟨bounded_ret hloop.few (Nat.zero_le _) fun hpos => by omega, fun _ _ hlen => ?_⟩
            have hwritten := hloop.fresh hzero
            omega
          · next hconsumed =>
            obtain ⟨rfl, rfl, -⟩ := h
            exact ⟨bounded_ret hloop.few hroom fun _ => ⟨rfl, le_rfl⟩, fun hzero => absurd hzero hconsumed⟩
        · next hfits =>
          obtain ⟨_, u, tr₁, tr₂, -, hquiet, -, hrest, rfl⟩ :=
            Ran.of_meets h (memcpy_meets outputLen frame.fragment.length (by omega) (by omega))
          obtain ⟨tr₃, tr₄, rfl, hpop, hpopIn, hend⟩ := Ran.of_ringPopSlot hrest outputLen
          have hafter := afterPop_bounded hloop hexamine (by simpa using hgo) (by omega) hnext hend hpop hpopIn
          exact ⟨hafter.1.prepend hquiet, fun _ _ _ => hafter.2.prepend⟩

/-- **The loop**, by induction on the iterations it is granted. -/
theorem processLoop_bounded (hloop : Looping outputLen rx written consumedSlots iterations)
    (h : (processLoop outputLen rx written consumedSlots iterations).Ran Accesses m tr x m') :
    Bounded outputLen consumedSlots tr x ∧ (consumedSlots = 0 → (∀ e, rx.state ≠ .failed e) →
      fragmentCapacity ≤ outputLen → Available tr → Advances tr x) := by
  induction iterations generalizing rx written consumedSlots m tr x m' with
  | zero =>
      have hroom := hloop.room
      have hgranted := hloop.granted
      omega
  | succ iterations ih =>
      obtain ⟨tr₁, tr₂, hquiet, ⟨rfl, hnone, rfl, -⟩ | ⟨slot, tr₃, hloads, rfl, hrest⟩⟩ := Ran.of_processLoop h
      · have hret : Bounded outputLen consumedSlots [] (some ⟨rx, ⟨written, consumedSlots, false⟩, none⟩) :=
          bounded_ret hloop.few hloop.room fun _ => ⟨rfl, le_rfl⟩
        have hbounded := hret.prepend hquiet
        rw [List.append_nil] at hbounded
        exact ⟨hbounded, fun _ _ _ hfound => absurd hfound hnone⟩
      · obtain ⟨hbounded, hadvances⟩ := afterLook_bounded hloop (fun hloop h => (ih hloop h).1) hrest
        have hfill : ∀ e ∈ (⟨.fillSlot slot, ()⟩ :: tr₃ : List memory.Event), Quiet outputLen e.1 := by
          simp only [List.mem_cons, forall_eq_or_imp]
          exact ⟨⟨trivial, rfl⟩, hloads⟩
        refine ⟨(hbounded.prepend hfill).prepend hquiet, fun hzero hstate hlen _ => ?_⟩
        have hfilled : Advances ((⟨.fillSlot slot, ()⟩ :: tr₃) ++ tr₂) x := (hadvances hzero hstate hlen).prepend
        exact hfilled.prepend

/-- **A call ends, stays in bounds and makes progress**, whatever the shared
memory holds and however it changes during the call. -/
theorem try_read_bounded (rx : Receiver) (outputLen : Nat) {m m' : Local} {tr : List memory.Event} {x : Option Outcome}
    (h : (messageTryRead rx outputLen).Ran Accesses m tr x m') :
    (∀ e ∈ tr, e.1.InBounds outputLen) ∧ popped tr ≤ max 1 outputLen ∧
      ∃ out, x = some out ∧ out.progress.written ≤ outputLen ∧
        ((∀ e, rx.state ≠ .failed e) → Available tr → fragmentCapacity ≤ outputLen →
          (0 < popped tr ∨ ∃ e, out.rx.state = .failed e ∧ out.err = some e) ∧
            out.err ≠ some .EMSGSIZE ∧ (out.err = none → out.progress.consumedSlots ≠ 0)) := by
  have hstart : Looping outputLen rx 0 0 (outputLen + 1) := ⟨by simp, by omega, by simp, by simp, by simp⟩
  rw [messageTryRead, processAvailableSlots] at h
  split at h
  · next e hfailed =>
    obtain ⟨rfl, rfl, -⟩ := h
    exact ⟨by simp, by simp [popped], _, rfl, by simp, fun hstate => absurd hfailed (hstate e)⟩
  · obtain ⟨hbounded, hadvances⟩ := processLoop_bounded hstart h
    obtain ⟨out, rfl, hwritten, -⟩ := hbounded.ends
    have hpops := hbounded.pops
    refine ⟨hbounded.inBounds, by omega, out, rfl, hwritten, fun hstate hfound hlen => ?_⟩
    have hadv := hadvances rfl hstate hlen hfound
    exact ⟨hadv.popsOrFails out rfl, hadv.fits out rfl, hadv.consumes out rfl⟩

/-- Every access is answered. -/
theorem accesses_total (a : Access) (m : Local) : ∃ r u, Accesses a m r u := by
  cases a with
  | ring a =>
      cases a with
      | loadDirection | loadCapacity | loadSlotSize | loadHead | loadTail => exact ⟨(0 : UInt32), m, rfl⟩
      | loadByte => exact ⟨(0 : UInt8), m, rfl⟩
      | _ => exact ⟨(), m, rfl⟩
  | fillSlot slot => exact ⟨(), _, rfl⟩
  | load offset => exact ⟨m.slot.bytes.getD offset 0, m, fun _ => rfl, rfl⟩
  | store offset byte => exact ⟨(), _, rfl⟩

/-- A tail 2³¹ slots ahead of the head. -/
theorem try_read_bounded_far_tail : ∃ tr out m',
    (messageTryRead messageReceiverInit 232).Ran Accesses ⟨.zero, List.replicate 232 0⟩ tr (some out) m' ∧ Available tr ∧
      (∀ e ∈ tr, e.1.InBounds 232) ∧ popped tr ≤ 232 ∧ out.progress.written ≤ 232 ∧
        (0 < popped tr ∨ ∃ e, out.rx.state = .failed e ∧ out.err = some e) := by
  obtain ⟨k, hk⟩ : ∃ k : UInt32 → UInt32 → Prog memory Outcome, messageTryRead messageReceiverInit 232 =
      .act (.ring .loadHead) fun head => .act (.ring .loadTail) fun tail => k head tail := ⟨_, rfl⟩
  obtain ⟨tr, x, m', hrest⟩ :=
    exists_ran accesses_total (k (0 : UInt32) (0x80000000 : UInt32)) ⟨.zero, List.replicate 232 0⟩
  have hrun : (messageTryRead messageReceiverInit 232).Ran Accesses ⟨.zero, List.replicate 232 0⟩
      (⟨.ring .loadHead, (0 : UInt32)⟩ :: ⟨.ring .loadTail, (0x80000000 : UInt32)⟩ :: tr) x m' := by
    rw [hk]
    exact .act rfl (.act rfl hrest)
  have hfound : Available (⟨.ring .loadHead, (0 : UInt32)⟩ :: ⟨.ring .loadTail, (0x80000000 : UInt32)⟩ :: tr) :=
    ⟨_, _, _, rfl, by decide⟩
  obtain ⟨hin, hpops, out, rfl, hwritten, hprogress⟩ := try_read_bounded messageReceiverInit 232 hrun
  obtain ⟨hadvances, -⟩ := hprogress (by simp [messageReceiverInit]) hfound (by decide)
  exact ⟨_, out, m', hrun, hfound, hin, hpops, hwritten, hadvances⟩

/-! ## the slots as the receiver sees them -/

/-- The bytes `memcpy` has copied. -/
theorem Ran.of_memcpy {n dst src : Nat} {a : Unit} (h : (memcpy dst src n).Ran Accesses m tr (some a) m')
    (hsrc : src + n ≤ slotSize) (hdst : dst + n ≤ m.output.length) : m'.output.length = m.output.length ∧
      m'.output.take (dst + n) = m.output.take dst ++ (m.slot.bytes.drop src).take n := by
  induction n generalizing dst src m tr with
  | zero =>
      obtain ⟨-, -, rfl⟩ := h
      simp
  | succ n ih =>
      obtain ⟨byte, u, tr₁, ⟨hbyte, rfl⟩, ⟨_, _, tr₂, rfl, hrest, -⟩, -⟩ := h
      obtain ⟨hlen, htake⟩ := ih hrest (by omega) (by rw [List.length_set]; omega)
      have hlt : src < u.slot.bytes.length := by
        rw [u.slot.size_eq]
        omega
      have hcell : (u.slot.bytes.drop src).take (n + 1) = byte :: (u.slot.bytes.drop (src + 1)).take n := by
        rw [List.drop_eq_getElem_cons hlt, List.take_succ_cons, hbyte (by omega)]
        simp [hlt]
      have hset : (u.output.set dst byte).take (dst + 1) = u.output.take dst ++ [byte] := by
        rw [List.take_succ_eq_append_getElem (by rw [List.length_set]; omega), List.getElem_set_self, List.take_set_of_le le_rfl]
      rw [List.length_set] at hlen
      refine ⟨hlen, ?_⟩
      rw [hcell, Nat.add_comm n 1, ← Nat.add_assoc, htake, hset, List.append_assoc]
      rfl

/-- A ring that is only what its operations are answered. -/
abbrev answered : RingImpl ringIface := fun o => op (I := ringIface) o

/-- The result of a call of `Axivc.Receiver`. -/
abbrev ReadReturn : Type := Receiver × Except Errno ReceiveProgress

/-- What a call has left, with the bytes it has written. -/
def Outcome.view (output : List UInt8) (out : Outcome) : ReadReturn :=
  (out.rx, match out.err with
    | some e => .error e
    | none => .ok ⟨output.take out.progress.written, out.progress.consumedSlots, out.progress.complete⟩)

/-- A program of `Axivc.Receiver` has a run with this result, on the slots some
ring shows. -/
def Sees (p : Prog ringIface ReadReturn) (result : ReadReturn) : Prop :=
  ∃ tr, p.Ran (fun _ _ _ _ => True) () tr (some result) ()

theorem Sees.ret (result : ReadReturn) : Sees (.ret result) result := ⟨[], ran_ret _ _⟩

theorem Sees.answer {result : ReadReturn} (o : RingOp) {f : ringIface.Res o → Prog ringIface ReadReturn}
    (r : ringIface.Res o) (h : Sees (f r) result) : Sees (answered o >>= f) result := by
  obtain ⟨tr, htr⟩ := h
  exact ⟨_, .act trivial htr⟩

/-- Both branch on the same condition. -/
theorem sees_of_ite {c : Prop} [Decidable c] {p q : Prog memory Outcome} {p' q' : Prog ringIface ReadReturn}
    {result : ReadReturn} (h : (if c then p else q).Ran Accesses m tr x m') (hp : p.Ran Accesses m tr x m' → Sees p' result)
    (hq : ¬c → q.Ran Accesses m tr x m' → Sees q' result) : Sees (if c then p' else q') result := by
  split at h
  · next hc =>
    rw [if_pos hc]
    exact hp h
  · next hc =>
    rw [if_neg hc]
    exact hq hc h

/-- A return. -/
theorem sees_of_ret {left out : Outcome} (h : (pure left : Prog memory Outcome).Ran Accesses m tr (some out) m') :
    Sees (pure (left.view m.output)) (out.view m'.output) := by
  obtain ⟨-, hout, rfl⟩ := h
  cases hout
  exact Sees.ret _

/-- The loop is the one of `Axivc.Receiver`. -/
theorem processLoop_sees {out : Outcome} (hlen : outputLen ≤ m.output.length) (hwritten : written ≤ outputLen)
    (h : (processLoop outputLen rx written consumedSlots iterations).Ran Accesses m tr (some out) m') :
    Sees (Axivc.processLoop answered outputLen rx (m.output.take written) consumedSlots iterations)
      (out.view m'.output) := by
  induction iterations generalizing rx written consumedSlots m tr with
  | zero =>
      obtain ⟨-, hout, -⟩ := h
      cases hout
  | succ iterations ih =>
      have htake : (m.output.take written).length = written := by
        rw [List.length_take]
        omega
      rw [processLoop_succ, htake]
      obtain ⟨tr₁, tr₂, hquiet, ⟨rfl, -, hout, rfl⟩ | ⟨slot, tr₃, hloads, rfl, hrest⟩⟩ := Ran.of_processLoop h
      · cases hout
        exact Sees.answer .peek none (Sees.ret _)
      · refine Sees.answer .peek (some slot) ?_
        dsimp only
        cases hexamine : rx.examine slot with
        | error e =>
            rw [hexamine, afterLook] at hrest
            exact sees_of_ite hrest sees_of_ret fun _ => sees_of_ret
        | ok decision =>
            obtain ⟨frame, transition⟩ := decision
            rw [hexamine, afterLook] at hrest
            refine sees_of_ite hrest sees_of_ret fun _ hrest => ?_
            refine sees_of_ite hrest (fun hrest => sees_of_ite hrest sees_of_ret fun _ => sees_of_ret) fun hfits hrest => ?_
            have hcap : v1HeaderLen + fragmentCapacity = slotSize := rfl
            have hle := frame.fragment_le
            obtain ⟨_, u, tr₄, tr₅, -, -, hcopy, hpop, rfl⟩ :=
              Ran.of_meets hrest (memcpy_meets outputLen frame.fragment.length (by omega) (by omega))
            obtain ⟨hsame, hbytes⟩ := Ran.of_memcpy hcopy (by omega) (by dsimp only; omega)
            rw [fragment_eq (Receiver.examine_eq_ok.mp hexamine).1] at hbytes
            dsimp only at hbytes hsame
            obtain ⟨tr₆, tr₇, rfl, -, -, hend⟩ := Ran.of_ringPopSlot hpop outputLen
            refine Sees.answer .pop () ?_
            rw [← hbytes]
            refine sees_of_ite hend sees_of_ret fun _ hend => sees_of_ite hend sees_of_ret fun _ hend => ?_
            exact ih (by omega) (by omega) hend

/-- Every run is one of `Axivc.messageTryRead` on the slots that were copied:
the same record, the same error, the same counts, and the bytes it returns are
those that now stand in the output buffer. -/
theorem try_read_refines {out : Outcome} (hlen : outputLen ≤ m.output.length)
    (h : (messageTryRead rx outputLen).Ran Accesses m tr (some out) m') :
    Sees (Axivc.messageTryRead answered rx outputLen) (out.view m'.output) := by
  rw [messageTryRead, processAvailableSlots] at h
  rw [Axivc.messageTryRead, Axivc.processAvailableSlots]
  cases hstate : rx.state with
  | failed e =>
      rw [hstate] at h
      exact sees_of_ret h
  | idle =>
      rw [hstate] at h
      exact processLoop_sees hlen (Nat.zero_le _) h
  | receiving =>
      rw [hstate] at h
      exact processLoop_sees hlen (Nat.zero_le _) h

end TryRead

end Axivc
