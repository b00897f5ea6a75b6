import Axivc.AppProto
import Axivc.Lib.Trace
import Mathlib.Data.List.Forall2

/-!
# Axivc.Exchange

The demo programs `publish.c` and `subscribe.c`, at the bytes they send and
receive.

`Axivc.Demo` asks when the two programs block each other, and leaves the
payloads out.  Here a program is what it does with the payloads: whatever the
library answers to its calls, it ends, and `publish_passes_iff` and
`subscribe_passes_iff` say for which payloads it reports success.

A program stops at its first complaint and prints it (`Complaint`).  What it
prints on success is left out.
-/

namespace Axivc

namespace Exchange

open Prog Demo AppProto

/-! ## calls -/

/-- What the programs print to `stderr`. -/
inductive Complaint where
  | wrongCount (count : Nat)
  | noManager
  | notOpened (side : DemoSide)
  | cannotEncode (kind : AppKind) (sequence : UInt64)
  | sendError (kind : AppKind) (sequence : UInt64) (len : Nat)
  | readFailed (side : DemoSide)
  | timedOut (side : DemoSide)
  | malformed
  | badRequest (expected : UInt64) (len : Nat)
  | badAck (expected actual : UInt64) (len : Nat)
  | missingData (expected : UInt64)
  | unexpectedData (sequence : UInt64)
  | badData (expected actual : UInt64) (len : Nat)
  | unexpectedRequest
  | notTornDown (side : DemoSide)
  | notClosed

/-- The name of a kind of messages. -/
def kindName : AppKind → String
  | .request => "request"
  | .ack => "ack"
  | .data => "data"

def Complaint.text : Complaint → String
  | .wrongCount count => "Message V1 demo requires exactly " ++ toString count ++ " requests\n"
  | .noManager => "Failed to open IVC manager\n"
  | .notOpened .publisher => "Failed to publish channel\n"
  | .notOpened .subscriber => "Failed to subscribe to channel\n"
  | .cannotEncode kind sequence =>
      "linux ivc validation failed: cannot encode " ++ kindName kind ++ " seq=" ++ toString sequence ++ "\n"
  | .sendError .ack sequence _ => "linux ivc send error: ack seq=" ++ toString sequence ++ "\n"
  | .sendError kind sequence len =>
      "linux ivc send error: " ++ kindName kind ++ " seq=" ++ toString sequence ++ " len=" ++ toString len ++ "\n"
  | .readFailed .publisher => "linux ivc recv error: reply read failed\n"
  | .readFailed .subscriber => "linux ivc recv error: request read failed\n"
  | .timedOut .publisher => "linux ivc recv error: timed out waiting for replies\n"
  | .timedOut .subscriber => "linux ivc recv error: timed out waiting for requests\n"
  | .malformed => "linux ivc recv error: malformed application payload\n"
  | .badRequest expected len =>
      "linux ivc validation failed: request expected=" ++ toString expected ++ " len=" ++ toString len ++ "\n"
  | .badAck expected actual len =>
      "linux ivc validation failed: ack expected=" ++ toString expected ++ " actual=" ++ toString actual ++
        " len=" ++ toString len ++ "\n"
  | .missingData expected =>
      "linux ivc validation failed: missing subscriber data expected=" ++ toString expected ++ "\n"
  | .unexpectedData sequence => "linux ivc validation failed: unexpected data seq=" ++ toString sequence ++ "\n"
  | .badData expected actual len =>
      "linux ivc validation failed: data expected=" ++ toString expected ++ " actual=" ++ toString actual ++
        " len=" ++ toString len ++ "\n"
  | .unexpectedRequest => "linux ivc validation failed: unexpected request on reply ring\n"
  | .notTornDown .publisher => "Failed to unpublish channel\n"
  | .notTornDown .subscriber => "Failed to unsubscribe from channel\n"
  | .notClosed => "Failed to close IVC manager\n"

/-- The calls of the library. -/
inductive AppOp where
  | openManager
  | publish (channelKey channelSize : UInt64)
  | subscribe (publisherId channelKey : UInt64)
  | send (payload : List UInt8)
  | recv (count : Nat)
  | usleep (us : Nat)
  /-- `ivc_unpublish`, `ivc_unsubscribe` -/
  | tearDown
  | closeManager
  | complain (complaint : Complaint)

/-- A constructor answers whether there is an object, a receive what it returns
and what it leaves in the buffer. -/
@[reducible] def appIface : Iface where
  Op := AppOp
  Res
    | .openManager | .publish _ _ | .subscribe _ _ => Bool
    | .send _ | .tearDown | .closeManager => Int32
    | .recv _ => Int32 × List UInt8
    | .usleep _ | .complain _ => Unit

abbrev app (o : AppOp) : Prog appIface (appIface.Res o) := op (I := appIface) o

/-- A complaint, and the program's answer to it. -/
def complain {α : Type} (complaint : Complaint) (a : α) : Prog appIface α := do
  app (.complain complaint)
  pure a

/-! ## the programs -/

/-- `POLL_INTERVAL_US` -/
def pollIntervalUs : Nat := 10000

/-- A string literal as bytes, without its end. -/
def literal (s : String) : List UInt8 := s.toList.map fun c => .ofNat c.toNat

/-- `arceos_ack` -/
def arceosAck : List UInt8 := literal "ack from arceos subscriber"

/-- `linux_ack`, `ACK_BODY` -/
def linuxAck : List UInt8 := literal ackBody

/-- `ivc_app_ack_body_is_valid` -/
def appAckBodyIsValid (body : List UInt8) : Bool :=
  (decide (body.length = arceosAck.length) && decide (body = arceosAck)) ||
    (decide (body.length = linuxAck.length) && decide (body = linuxAck))

/-- `send_requests` and `send_data_messages`.  What was in the buffer before is
overwritten. -/
def sendPatterns (kind : AppKind) : List Nat → Nat → Prog appIface Bool
  | [], _ => pure true
  | messageLen :: lengths, index =>
      let sequence : UInt64 := .ofNat (index + 1)
      match appEncodePattern (List.replicate messageLen 0) kind sequence with
      | none => complain (.cannotEncode kind sequence) false
      | some payload => do
          let sent : Int32 ← app (.send payload)
          if sent ≠ .ofNat messageLen then complain (.sendError kind sequence messageLen) false
          else sendPatterns kind lengths (index + 1)

/-- `send_ack` -/
def sendAck (sequence : UInt64) : Prog appIface Bool :=
  match appEncodeText (List.replicate (appHeaderLen + linuxAck.length) 0) .ack sequence linuxAck with
  | none => complain (.cannotEncode .ack sequence) false
  | some (payload, messageLen) => do
      let sent : Int32 ← app (.send (payload.take messageLen))
      if sent ≠ .ofNat messageLen then complain (.sendError .ack sequence messageLen) false
      else pure true

/-- One receive of the loops, and what is done when it has found nothing. -/
def poll (side : DemoSide) (onEmpty : Prog appIface (Option (List UInt8))) : Prog appIface (Option (List UInt8)) := do
  let received : Int32 × List UInt8 ← app (.recv appMaxMessageLen)
  if received.1 < 0 then complain (.readFailed side) none
  else if received.1 = 0 then onEmpty
  else pure (some received.2)

/-- The next payload, when `left` more receives may find nothing. -/
def nextPayload (side : DemoSide) : Nat → Prog appIface (Option (List UInt8))
  | 0 => poll side (complain (.timedOut side) none)
  | left + 1 => poll side do
      app (.usleep pollIntervalUs)
      nextPayload side left

/-- `receive_requests`, from `received` on -/
def receiveRequests : List Nat → Nat → Prog appIface Bool
  | [], _ => pure true
  | expectedLen :: lengths, received => do
      match ← nextPayload .subscriber maxEmptyPolls with
      | none => pure false
      | some payload =>
          let expectedSequence : UInt64 := .ofNat (received + 1)
          match appDecode payload with
          | none => complain (.badRequest expectedSequence payload.length) false
          | some message =>
              if !appValidatePattern message .request expectedSequence expectedLen then
                complain (.badRequest expectedSequence payload.length) false
              else if ← sendAck message.sequence then receiveRequests lengths (received + 1)
              else pure false

/-- `receive_replies`: `acks` of them are left, from number `expectedAck` on,
and the data messages of lengths `data`, from number `expectedData` on. -/
def receiveReplies (acks expectedAck : Nat) (data : List Nat) (expectedData : Nat) : Prog appIface Bool :=
  match acks with
  | 0 => pure true
  | acks + 1 => do
      match ← nextPayload .publisher maxEmptyPolls with
      | none => pure false
      | some payload =>
          match appDecode payload with
          | none => complain .malformed false
          | some ⟨.ack, sequence, body⟩ =>
              if sequence ≠ .ofNat expectedAck ∨ !appAckBodyIsValid body then
                complain (.badAck (.ofNat expectedAck) sequence body.length) false
              else if acks = 0 ∧ data ≠ [] then complain (.missingData (.ofNat expectedData)) false
              else receiveReplies acks (expectedAck + 1) data expectedData
          | some ⟨.data, sequence, body⟩ =>
              match data with
              | [] => complain (.unexpectedData sequence) false
              | expectedLen :: data =>
                  if !appValidatePattern ⟨.data, sequence, body⟩ .data (.ofNat expectedData) expectedLen then
                    complain (.badData (.ofNat expectedData) sequence payload.length) false
                  else receiveReplies (acks + 1) expectedAck data (expectedData + 1)
          | some ⟨.request, _, _⟩ => complain .unexpectedRequest false
termination_by acks + data.length

/-- What `main` does with an endpoint. -/
def useEndpoint (side : DemoSide) (exchange : Prog appIface Bool) : Prog appIface Nat := do
  let passed ← exchange
  let status : Int32 ← app .tearDown
  if status < 0 then complain (.notTornDown side) 4
  else pure (if passed then 0 else 3)

/-- `close_manager:` -/
def closeManager (ret : Nat) : Prog appIface Nat := do
  let status : Int32 ← app .closeManager
  if status < 0 then complain .notClosed 5 else pure ret

/-- The common text of the two `main` functions, once the arguments have been
read. -/
def demoMain (side : DemoSide) (create : Prog appIface Bool) (exchange : Prog appIface Bool) : Prog appIface Nat := do
  let manager ← app .openManager
  if !manager then complain .noManager 1
  else
    let endpoint ← create
    if !endpoint then complain (.notOpened side) 2 >>= closeManager
    else useEndpoint side exchange >>= closeManager

/-- `main` of `publish.c` -/
def publishMain (lengths : AppLengths) (channelKey channelSize : UInt64) : Prog appIface Nat :=
  demoMain .publisher (app (.publish channelKey channelSize)) do
    if ← sendPatterns .request lengths.requests 0 then receiveReplies lengths.requests.length 1 lengths.data 1
    else pure false

/-- `main` of `subscribe.c` -/
def subscribeMain (lengths : AppLengths) (publisherId channelKey : UInt64) (targetCount : Nat) : Prog appIface Nat :=
  if targetCount ≠ lengths.requests.length then complain (.wrongCount lengths.requests.length) 1
  else
    demoMain .subscriber (app (.subscribe publisherId channelKey)) do
      if ← sendPatterns .data lengths.data 0 then receiveRequests lengths.requests 0
      else pure false

/-! ## payloads -/

/-- The bytes of a message. -/
def payloadOf (kind : AppKind) (sequence : UInt64) (body : List UInt8) : List UInt8 :=
  appHeader kind sequence (.ofNat body.length) ++ body

/-- A pattern message of `len` bytes. -/
def patternPayload (kind : AppKind) (sequence : UInt64) (len : Nat) : List UInt8 :=
  payloadOf kind sequence (appPattern kind sequence (len - appHeaderLen))

/-- The pattern messages of a table, from number `first` on. -/
def patterns (kind : AppKind) : List Nat → Nat → List (List UInt8)
  | [], _ => []
  | len :: lengths, first => patternPayload kind (.ofNat first) len :: patterns kind lengths (first + 1)

/-- The acks of the subscriber, from number `first` on. -/
def ackPayloads (first count : Nat) : List (List UInt8) :=
  (List.range' first count).map fun n => payloadOf .ack (.ofNat n) linuxAck

/-- An ack with the number `n`. -/
def IsAck (n : Nat) (payload : List UInt8) : Prop :=
  ∃ body, appAckBodyIsValid body = true ∧ payload = payloadOf .ack (.ofNat n) body

/-- The first byte says so. -/
def saysAck (payload : List UInt8) : Bool := payload.head? = some (kindCode .ack)

section Payloads

variable {kind : AppKind} {sequence : UInt64} {body payload : List UInt8} {len : Nat}

theorem appDecode_iff {message : Message} : appDecode payload = some message ↔
    message.body.length ≤ uint16Max ∧ payload = payloadOf message.kind message.sequence message.body :=
  appDecode_eq_some_iff

@[simp] theorem saysAck_payloadOf : saysAck (payloadOf kind sequence body) = decide (kind = .ack) := by
  cases kind <;> rfl

theorem length_patternPayload (kind : AppKind) (sequence : UInt64) (h : appHeaderLen ≤ len) :
    (patternPayload kind sequence len).length = len := by
  simp [patternPayload, payloadOf]
  omega

/-- A pattern message that fits in the buffer is encoded. -/
theorem appEncodePattern_replicate (h : appHeaderLen ≤ len) (hmax : len ≤ appMaxMessageLen) :
    appEncodePattern (List.replicate len 0) kind sequence = some (patternPayload kind sequence len) := by
  rw [appEncodePattern_eq_some_iff]
  simp [patternPayload, payloadOf, h]
  exact Nat.le_trans hmax (by decide)

/-- An ack is encoded, into a buffer of its length. -/
theorem appEncodeText_linuxAck : appEncodeText (List.replicate (appHeaderLen + linuxAck.length) 0) .ack sequence linuxAck =
    some (payloadOf .ack sequence linuxAck, appHeaderLen + linuxAck.length) := by
  rw [appEncodeText_eq .ack sequence (by decide) (by simp)]
  simp [payloadOf]

theorem length_ack : (payloadOf .ack sequence linuxAck).length = appHeaderLen + linuxAck.length := by
  simp [payloadOf]

theorem ackPayloads_succ (first count : Nat) : ackPayloads first (count + 1) =
    payloadOf .ack (.ofNat first) linuxAck :: ackPayloads (first + 1) count := by
  rw [ackPayloads, List.range'_succ]
  rfl

theorem take_ack (sequence : UInt64) : (payloadOf .ack sequence linuxAck).take (appHeaderLen + linuxAck.length) =
    payloadOf .ack sequence linuxAck := List.take_of_length_le length_ack.le

theorem appAckBodyIsValid_iff : appAckBodyIsValid body = true ↔ body = arceosAck ∨ body = linuxAck := by
  simp only [appAckBodyIsValid, Bool.or_eq_true, Bool.and_eq_true, decide_eq_true_eq]
  constructor
  · exact Or.imp And.right And.right
  · rintro (rfl | rfl)
    · exact .inl ⟨rfl, rfl⟩
    · exact .inr ⟨rfl, rfl⟩

theorem length_le_of_valid (h : appAckBodyIsValid body = true) : body.length ≤ uint16Max := by
  obtain rfl | rfl := appAckBodyIsValid_iff.mp h <;> decide

/-- What is decoded as an ack. -/
theorem isAck_iff {n : Nat} {message : Message} (h : appDecode payload = some message) :
    IsAck n payload ↔ message.kind = .ack ∧ message.sequence = .ofNat n ∧ appAckBodyIsValid message.body = true := by
  constructor
  · rintro ⟨body, hvalid, rfl⟩
    have hdecoded : appDecode (payloadOf .ack (.ofNat n) body) = some ⟨.ack, .ofNat n, body⟩ :=
      appDecode_append .ack (.ofNat n) (length_le_of_valid hvalid)
    rw [hdecoded] at h
    cases h
    exact ⟨rfl, rfl, hvalid⟩
  · rintro ⟨hkind, hsequence, hvalid⟩
    refine ⟨message.body, hvalid, ?_⟩
    rw [(appDecode_iff.mp h).2, hkind, hsequence]

theorem IsAck.decodes {n : Nat} (h : IsAck n payload) : ∃ message, appDecode payload = some message := by
  obtain ⟨body, hvalid, rfl⟩ := h
  exact ⟨_, appDecode_append .ack (.ofNat n) (length_le_of_valid hvalid)⟩

theorem IsAck.saysAck {n : Nat} (h : IsAck n payload) : saysAck payload = true := by
  obtain ⟨body, -, rfl⟩ := h
  simp

/-- A pattern message that fits in the buffer is decoded. -/
theorem appDecode_patternPayload (kind : AppKind) (sequence : UInt64) (hmax : len ≤ appMaxMessageLen) :
    appDecode (patternPayload kind sequence len) =
      some ⟨kind, sequence, appPattern kind sequence (len - appHeaderLen)⟩ := by
  have hbody : (appPattern kind sequence (len - appHeaderLen)).length ≤ uint16Max := by
    simp only [length_appPattern, uint16Max, appHeaderLen, appMaxMessageLen] at hmax ⊢
    omega
  exact appDecode_append kind sequence hbody

/-- What is decoded as a pattern message. -/
theorem eq_patternPayload_iff (kind : AppKind) (sequence : UInt64) {message : Message} (hlen : appHeaderLen ≤ len)
    (hmax : len ≤ appMaxMessageLen) (h : appDecode payload = some message) :
    payload = patternPayload kind sequence len ↔ appValidatePattern message kind sequence len = true := by
  rw [appValidatePattern_iff]
  constructor
  · rintro rfl
    rw [appDecode_patternPayload kind sequence hmax] at h
    exact ⟨hlen, (Option.some.inj h).symm⟩
  · rintro ⟨-, rfl⟩
    exact (appDecode_iff.mp h).2

end Payloads

/-! ## replies -/

/-- What `receive_replies` waits for: the acks in order, the data messages in
order, in any mixture that ends with an ack. -/
structure Replies (acks expectedAck : Nat) (data : List Nat) (expectedData : Nat) (payloads : List (List UInt8)) : Prop where
  acks : List.Forall₂ IsAck (List.range' expectedAck acks) (payloads.filter saysAck)
  data : payloads.filter (fun payload => !saysAck payload) = patterns .data data expectedData
  last : ∃ payload, payloads.getLast? = some payload ∧ saysAck payload = true

section Replies

variable {acks expectedAck expectedData : Nat} {data : List Nat} {payload : List UInt8} {payloads : List (List UInt8)}

theorem not_replies_nil : ¬ Replies acks expectedAck data expectedData [] := by
  intro h
  obtain ⟨payload, hnone, -⟩ := h.last
  cases hnone

theorem patterns_eq_nil {kind : AppKind} {first : Nat} (h : patterns kind data first = []) : data = [] := by
  cases data with
  | nil => rfl
  | cons len rest => cases h

theorem getLast?_cons_of_ne_nil (h : payloads ≠ []) : (payload :: payloads).getLast? = payloads.getLast? := by
  cases payloads with
  | nil => exact absurd rfl h
  | cons next rest => exact List.getLast?_cons_cons

/-- An ack comes next. -/
theorem replies_ack_cons (hack : saysAck payload = true) :
    Replies (acks + 1) expectedAck data expectedData (payload :: payloads) ↔ IsAck expectedAck payload ∧
      if acks = 0 then data = [] ∧ payloads = [] else Replies acks (expectedAck + 1) data expectedData payloads := by
  have hacks : (payload :: payloads).filter saysAck = payload :: payloads.filter saysAck := List.filter_cons_of_pos hack
  have hdata : (payload :: payloads).filter (fun payload => !saysAck payload) =
      payloads.filter fun payload => !saysAck payload :=
    List.filter_cons_of_neg (by simp [hack])
  constructor
  · intro h
    have hall := h.acks
    rw [hacks, List.range'_succ, List.forall₂_cons] at hall
    refine ⟨hall.1, ?_⟩
    have hrest := h.data
    rw [hdata] at hrest
    split
    · next hzero =>
      -- no ack is left, and the last payload is one
      subst hzero
      have hnone := List.forall₂_nil_left_iff.mp hall.2
      have hnil : payloads = [] := by
        by_contra hne
        obtain ⟨last, hlast, hsays⟩ := h.last
        rw [getLast?_cons_of_ne_nil hne] at hlast
        have hmem := List.mem_filter.mpr ⟨List.mem_of_getLast? hlast, hsays⟩
        rw [hnone] at hmem
        cases hmem
      rw [hnil] at hrest
      exact ⟨patterns_eq_nil hrest.symm, hnil⟩
    · next hpos =>
      refine ⟨hall.2, hrest, ?_⟩
      have hne : payloads ≠ [] := by
        rintro rfl
        have hlength := hall.2.length_eq
        rw [List.length_range'] at hlength
        exact hpos hlength
      rw [← getLast?_cons_of_ne_nil hne]
      exact h.last
  · rintro ⟨hisAck, hrest⟩
    split at hrest
    · next hzero =>
      subst hzero
      obtain ⟨rfl, rfl⟩ := hrest
      refine ⟨?_, ?_, payload, rfl, hack⟩
      · rw [hacks]
        exact .cons hisAck .nil
      · rw [hdata]
        rfl
    · refine ⟨?_, ?_, ?_⟩
      · rw [hacks, List.range'_succ]
        exact .cons hisAck hrest.acks
      · rw [hdata]
        exact hrest.data
      · have hne : payloads ≠ [] := by
          rintro rfl
          exact not_replies_nil hrest
        rw [getLast?_cons_of_ne_nil hne]
        exact hrest.last

/-- A data message comes next. -/
theorem replies_data_cons (hack : saysAck payload = false) :
    Replies (acks + 1) expectedAck data expectedData (payload :: payloads) ↔
      ∃ len rest, data = len :: rest ∧ payload = patternPayload .data (.ofNat expectedData) len ∧
        Replies (acks + 1) expectedAck rest (expectedData + 1) payloads := by
  have hacks : (payload :: payloads).filter saysAck = payloads.filter saysAck := List.filter_cons_of_neg (by simp [hack])
  have hdata : (payload :: payloads).filter (fun payload => !saysAck payload) =
      payload :: payloads.filter fun payload => !saysAck payload :=
    List.filter_cons_of_pos (by simp [hack])
  constructor
  · intro h
    have hfirst := h.data
    have hall := h.acks
    rw [hdata] at hfirst
    rw [hacks] at hall
    have hne : payloads ≠ [] := by
      rintro rfl
      cases hall
    have hlast := h.last
    rw [getLast?_cons_of_ne_nil hne] at hlast
    cases data with
    | nil => cases hfirst
    | cons len rest =>
        obtain ⟨hpayload, hrest⟩ := List.cons.inj hfirst
        exact ⟨len, rest, rfl, hpayload, hall, hrest, hlast⟩
  · rintro ⟨len, rest, rfl, hpayload, hrest⟩
    refine ⟨?_, ?_, ?_⟩
    · rw [hacks]
      exact hrest.acks
    · rw [hdata, hrest.data, hpayload]
      rfl
    · have hne : payloads ≠ [] := by
        rintro rfl
        exact not_replies_nil hrest
      rw [getLast?_cons_of_ne_nil hne]
      exact hrest.last

/-- The ack that is expected. -/
theorem replies_expectedAck (hack : IsAck expectedAck payload) (hcomplete : ¬ (acks = 0 ∧ data ≠ [])) :
    Replies (acks + 1) expectedAck data expectedData (payload :: payloads) ↔
      if acks = 0 then payloads = [] else Replies acks (expectedAck + 1) data expectedData payloads := by
  rw [replies_ack_cons hack.saysAck]
  by_cases hzero : acks = 0
  · have hnil : data = [] := by
      by_contra hne
      exact hcomplete ⟨hzero, hne⟩
    simp [hzero, hack, hnil]
  · simp [hzero, hack]

/-- The data message that is expected. -/
theorem replies_expectedData {len : Nat} (hpayload : payload = patternPayload .data (.ofNat expectedData) len) :
    Replies (acks + 1) expectedAck (len :: data) expectedData (payload :: payloads) ↔
      Replies (acks + 1) expectedAck data (expectedData + 1) payloads := by
  have hsays : saysAck payload = false := by
    rw [hpayload, patternPayload, saysAck_payloadOf]
    rfl
  rw [replies_data_cons hsays]
  constructor
  · rintro ⟨len', rest, hdata, -, hreplies⟩
    cases hdata
    exact hreplies
  · exact fun hreplies => ⟨len, data, rfl, hpayload, hreplies⟩

/-- Nothing else is accepted as the last payload. -/
theorem not_replies_single (h : IsAck expectedAck payload → acks = 0 → data ≠ []) :
    ¬ Replies (acks + 1) expectedAck data expectedData [payload] := by
  intro hreplies
  cases hsays : saysAck payload with
  | false =>
      obtain ⟨len, rest, -, -, hnil⟩ := (replies_data_cons hsays).mp hreplies
      exact not_replies_nil hnil
  | true =>
      obtain ⟨hack, hrest⟩ := (replies_ack_cons hsays).mp hreplies
      split at hrest
      · next hzero => exact h hack hzero hrest.1
      · exact not_replies_nil hrest

end Replies

/-! ## runs -/

/-- A payload that a receive has found. -/
def received : appIface.Event → Option (List UInt8)
  | ⟨.recv _, n, payload⟩ => if n < 0 ∨ n = 0 then none else some payload
  | _ => none

/-- The payloads that a program has received, in their order. -/
def payloads (tr : List appIface.Event) : List (List UInt8) := tr.filterMap received

/-- A payload that has been given to a send. -/
def given : appIface.Event → Option (List UInt8)
  | ⟨.send payload, _⟩ => some payload
  | _ => none

/-- The payloads that a program has sent, in their order. -/
def sent (tr : List appIface.Event) : List (List UInt8) := tr.filterMap given

/-- The library has done what it was asked to do. -/
def done : appIface.Event → Bool
  | ⟨.openManager, opened⟩ | ⟨.publish _ _, opened⟩ | ⟨.subscribe _ _, opened⟩ => opened
  | ⟨.send payload, n⟩ => decide (n = .ofNat payload.length)
  | ⟨.tearDown, status⟩ | ⟨.closeManager, status⟩ => decide (¬ status < 0)
  | _ => true

/-- In every call but the receives. -/
def Smooth (tr : List appIface.Event) : Prop := ∀ e ∈ tr, done e = true

section Runs

variable {α : Type} {side : DemoSide} {kind : AppKind} {tr tr' : List appIface.Event}

@[simp] theorem payloads_append : payloads (tr ++ tr') = payloads tr ++ payloads tr' := List.filterMap_append

@[simp] theorem sent_append : sent (tr ++ tr') = sent tr ++ sent tr' := List.filterMap_append

@[simp] theorem smooth_append : Smooth (tr ++ tr') ↔ Smooth tr ∧ Smooth tr' := List.forall_mem_append

@[simp] theorem smooth_cons {e : appIface.Event} : Smooth (e :: tr) ↔ done e = true ∧ Smooth tr := List.forall_mem_cons

@[simp] theorem smooth_nil : Smooth [] := List.forall_mem_nil _

theorem endsWith_complain {Q : List appIface.Event → α → Prop} {complaint : Complaint} {a : α}
    (h : Q [⟨.complain complaint, ()⟩] a) : (complain complaint a).EndsWith Q := fun _ => h

/-- What is sent counts when the library says that it has sent all of it. -/
theorem done_send {payload : List UInt8} {n : Int32} {len : Nat} (h : payload.length = len) :
    done ⟨.send payload, n⟩ = true ↔ n = .ofNat len := by
  rw [← h]
  exact decide_eq_true_iff

/-- A pattern message of each length is sent, or a send has failed. -/
theorem sendPatterns_endsWith {table : List Nat} (hfits : ∀ len ∈ table, appHeaderLen ≤ len ∧ len ≤ appMaxMessageLen)
    (index : Nat) : (sendPatterns kind table index).EndsWith fun tr ok =>
      payloads tr = [] ∧ (ok = true ↔ Smooth tr) ∧ (ok = true → sent tr = patterns kind table (index + 1)) := by
  induction table generalizing index with
  | nil => exact ⟨rfl, by simp, fun _ => rfl⟩
  | cons len rest ih =>
      obtain ⟨hlen, hmax⟩ := hfits len (List.mem_cons_self ..)
      simp only [sendPatterns, appEncodePattern_replicate hlen hmax]
      intro n
      have hdone := done_send (n := n) (length_patternPayload kind (.ofNat (index + 1)) hlen)
      change (if n ≠ Int32.ofNat len then _ else _ : Prog appIface Bool).EndsWith _
      split
      · next hfailed =>
        refine endsWith_complain ⟨rfl, ?_, by simp⟩
        rw [smooth_cons, hdone]
        simp [hfailed]
      · next hsent =>
        have hsent : n = Int32.ofNat len := not_not.mp hsent
        refine (ih (fun len h => hfits len (List.mem_cons_of_mem _ h)) (index + 1)).mono fun tr ok h => ?_
        obtain ⟨hpayloads, hok, hall⟩ := h
        refine ⟨hpayloads, ?_, fun h => congrArg (List.cons _) (hall h)⟩
        rw [smooth_cons, hdone, hok]
        simp [hsent]

theorem sendAck_endsWith (sequence : UInt64) : (sendAck sequence).EndsWith fun tr ok =>
    payloads tr = [] ∧ (ok = true ↔ Smooth tr) ∧ sent tr = [payloadOf .ack sequence linuxAck] := by
  simp only [sendAck, appEncodeText_linuxAck]
  intro n
  have hdone := done_send (n := n) ((congrArg List.length (take_ack sequence)).trans length_ack)
  have hgiven : [(payloadOf .ack sequence linuxAck).take (appHeaderLen + linuxAck.length)] =
    [payloadOf .ack sequence linuxAck] := by rw [take_ack]
  change (if n ≠ Int32.ofNat (appHeaderLen + linuxAck.length) then _ else _ : Prog appIface Bool).EndsWith _
  split
  · next hfailed =>
    refine endsWith_complain ⟨rfl, iff_of_false Bool.false_ne_true fun h => ?_, hgiven⟩
    rw [smooth_cons, hdone] at h
    exact hfailed h.1
  · next hsent =>
    have hsent : n = Int32.ofNat (appHeaderLen + linuxAck.length) := not_not.mp hsent
    refine ⟨rfl, iff_of_true rfl ?_, hgiven⟩
    rw [smooth_cons, hdone]
    exact ⟨hsent, smooth_nil⟩

theorem poll_endsWith {onEmpty : Prog appIface (Option (List UInt8))}
    (hempty : onEmpty.EndsWith fun tr found => payloads tr = found.toList ∧ Smooth tr ∧ sent tr = []) :
    (poll side onEmpty).EndsWith fun tr found => payloads tr = found.toList ∧ Smooth tr ∧ sent tr = [] := by
  rintro ⟨n, payload⟩
  change (if n < 0 then _ else if n = 0 then _ else _ : Prog appIface (Option (List UInt8))).EndsWith _
  split
  · next hneg =>
    refine endsWith_complain ⟨?_, by simp [done], rfl⟩
    simp [payloads, received, hneg]
  · next hnonneg =>
    split
    · next hzero =>
      refine hempty.mono fun tr found h => ⟨?_, by simpa [done] using h.2.1, h.2.2⟩
      simpa [payloads, received, hzero] using h.1
    · next hpos =>
      refine ⟨?_, by simp [done], rfl⟩
      simp [payloads, received, hnonneg, hpos]

/-- A payload is received, or none. -/
theorem nextPayload_endsWith (left : Nat) : (nextPayload side left).EndsWith fun tr found =>
    payloads tr = found.toList ∧ Smooth tr ∧ sent tr = [] := by
  induction left with
  | zero => exact poll_endsWith (endsWith_complain ⟨rfl, by simp [done], rfl⟩)
  | succ left ih =>
      refine poll_endsWith fun _ => ih.mono fun tr found h => ⟨h.1, ?_, h.2.2⟩
      rw [smooth_cons]
      exact ⟨rfl, h.2.1⟩

/-- The requests are received, each is acknowledged. -/
theorem receiveRequests_endsWith {table : List Nat}
    (hfits : ∀ len ∈ table, appHeaderLen ≤ len ∧ len ≤ appMaxMessageLen) (index : Nat) :
    (receiveRequests table index).EndsWith fun tr ok =>
      (ok = true ↔ Smooth tr ∧ payloads tr = patterns .request table (index + 1)) ∧
        (ok = true → sent tr = ackPayloads (index + 1) table.length) := by
  induction table generalizing index with
  | nil => exact ⟨by simp [patterns, payloads], fun _ => rfl⟩
  | cons len rest ih =>
      obtain ⟨hlen, hmax⟩ := hfits len (List.mem_cons_self ..)
      refine EndsWith.bind ((nextPayload_endsWith maxEmptyPolls).mono fun tr found h => ?_)
      obtain ⟨hpayloads, hsmooth, hsent⟩ := h
      cases found with
      | none => exact ⟨by simp [hpayloads, patterns], by simp⟩
      | some payload =>
          have hfirst (tr' : List appIface.Event) (hne : payload ≠ patternPayload .request (.ofNat (index + 1)) len) :
              ¬ (Smooth (tr ++ tr') ∧ payloads (tr ++ tr') = patterns .request (len :: rest) (index + 1)) := by
            rintro ⟨-, heq⟩
            rw [payloads_append, hpayloads, patterns] at heq
            exact hne (List.cons.inj heq).1
          cases hdecode : appDecode payload with
          | none =>
              simp only [hdecode]
              refine endsWith_complain ⟨iff_of_false Bool.false_ne_true (hfirst _ ?_), by simp⟩
              rintro rfl
              rw [appDecode_patternPayload .request _ hmax] at hdecode
              cases hdecode
          | some message =>
              have hvalid := eq_patternPayload_iff .request (.ofNat (index + 1)) hlen hmax hdecode
              simp only [hdecode]
              split
              · next hinvalid =>
                refine endsWith_complain ⟨iff_of_false Bool.false_ne_true (hfirst _ ?_), by simp⟩
                rw [Ne, hvalid]
                simpa using hinvalid
              · next hvalidated =>
                have hvalidated : appValidatePattern message .request (.ofNat (index + 1)) len = true := by
                  simpa using hvalidated
                have hsequence : message.sequence = .ofNat (index + 1) := by
                  rw [(appValidatePattern_iff.mp hvalidated).2]
                rw [hsequence]
                refine EndsWith.bind ((sendAck_endsWith _).mono fun tr' acked h => ?_)
                obtain ⟨hpayloads', hacked, hsent'⟩ := h
                cases acked with
                | false =>
                    refine ⟨iff_of_false Bool.false_ne_true fun h => ?_, by simp⟩
                    simp only [List.append_nil, smooth_append] at h
                    exact Bool.false_ne_true (hacked.mpr h.1.2)
                | true =>
                    refine (ih (fun len h => hfits len (List.mem_cons_of_mem _ h)) (index + 1)).mono fun tr'' ok h => ?_
                    obtain ⟨hok, hacks⟩ := h
                    refine ⟨?_, fun h => ?_⟩
                    · rw [hok, payloads_append, payloads_append, hpayloads, hpayloads', smooth_append, smooth_append,
                        patterns, hvalid.mpr hvalidated]
                      simp [hsmooth, hacked.mp rfl]
                    · rw [sent_append, sent_append, hsent, hsent', hacks h]
                      rfl

/-- The replies that are left are received. -/
theorem receiveReplies_endsWith {acks expectedAck expectedData : Nat} {data : List Nat}
    (hfits : ∀ len ∈ data, appHeaderLen ≤ len ∧ len ≤ appMaxMessageLen) :
    (receiveReplies acks expectedAck data expectedData).EndsWith fun tr ok => Smooth tr ∧ sent tr = [] ∧
      (ok = true ↔ if acks = 0 then payloads tr = [] else Replies acks expectedAck data expectedData (payloads tr)) := by
  -- one message less with every round
  induction hleft : acks + data.length generalizing acks expectedAck data expectedData with
  | zero =>
      obtain rfl : acks = 0 := by omega
      rw [receiveReplies.eq_def]
      exact ⟨smooth_nil, rfl, iff_of_true rfl rfl⟩
  | succ left ih =>
      cases acks with
      | zero =>
          rw [receiveReplies.eq_def]
          exact ⟨smooth_nil, rfl, iff_of_true rfl rfl⟩
      | succ acks =>
          rw [receiveReplies.eq_def]
          refine EndsWith.bind ((nextPayload_endsWith maxEmptyPolls).mono fun tr found h => ?_)
          obtain ⟨hpayloads, hsmooth, hsent⟩ := h
          simp only [Nat.add_eq_zero_iff, one_ne_zero, and_false, if_false, payloads_append, sent_append, smooth_append,
            hpayloads, hsent, hsmooth, true_and, List.nil_append]
          cases found with
          | none => exact ⟨smooth_nil, rfl, iff_of_false Bool.false_ne_true not_replies_nil⟩
          | some payload =>
              have hcomplain {complaint : Complaint} (h : IsAck expectedAck payload → acks = 0 → data ≠ []) :
                  (complain complaint false).EndsWith fun tr ok => Smooth tr ∧ sent tr = [] ∧
                    (ok = true ↔ Replies (acks + 1) expectedAck data expectedData ([payload] ++ payloads tr)) :=
                endsWith_complain ⟨by simp [done], rfl, iff_of_false Bool.false_ne_true (not_replies_single h)⟩
              cases hdecode : appDecode payload with
              | none =>
                  simp only [hdecode]
                  refine hcomplain fun hack => ?_
                  obtain ⟨message, hsome⟩ := hack.decodes
                  rw [hdecode] at hsome
                  cases hsome
              | some message =>
                  obtain ⟨kind, sequence, body⟩ := message
                  have hisAck : IsAck expectedAck payload ↔
                    kind = .ack ∧ sequence = .ofNat expectedAck ∧ appAckBodyIsValid body = true := isAck_iff hdecode
                  simp only [hdecode]
                  cases kind with
                  | ack =>
                      simp only
                      split
                      · next hbad =>
                        refine hcomplain fun h => ?_
                        obtain ⟨-, hsequence, hvalid⟩ := hisAck.mp h
                        exact absurd hbad (by simp [hsequence, hvalid])
                      · next hgood =>
                        split
                        · next hmissing => exact hcomplain fun _ _ => hmissing.2
                        · next hcomplete =>
                          have hack : IsAck expectedAck payload := by
                            rw [hisAck]
                            simpa using hgood
                          refine (ih hfits (by omega)).mono fun tr' ok h => ⟨h.1, h.2.1, h.2.2.trans ?_⟩
                          exact (replies_expectedAck hack hcomplete).symm
                  | data =>
                      have hnot (h : IsAck expectedAck payload) : False := by
                        cases (hisAck.mp h).1
                      cases data with
                      | nil => exact hcomplain fun h => (hnot h).elim
                      | cons len rest =>
                          obtain ⟨hlen, hmax⟩ := hfits len (List.mem_cons_self ..)
                          have hvalid := eq_patternPayload_iff .data (.ofNat expectedData) hlen hmax hdecode
                          simp only
                          split
                          · exact hcomplain fun h => (hnot h).elim
                          · next hvalidated =>
                            have hpayload := hvalid.mpr (by simpa using hvalidated)
                            have hrest (len' : Nat) (h : len' ∈ rest) := hfits len' (List.mem_cons_of_mem _ h)
                            refine (ih hrest (by simp at hleft; omega)).mono fun tr' ok h => ⟨h.1, h.2.1, h.2.2.trans ?_⟩
                            exact (replies_expectedData hpayload).symm
                  | request =>
                      refine hcomplain fun h => ?_
                      cases (hisAck.mp h).1

/-- A program that returns `0` exactly when every call has done its work and the
payloads are accepted, and then has sent these messages. -/
def Passes (Accepts : List (List UInt8) → Prop) (messages : List (List UInt8)) (tr : List appIface.Event) (ret : Nat) :
    Prop :=
  (ret = 0 ↔ Smooth tr ∧ Accepts (payloads tr)) ∧ (ret = 0 → sent tr = messages)

section Passes

variable {Accepts : List (List UInt8) → Prop} {messages : List (List UInt8)} {ret : Nat}

/-- A call that has failed. -/
theorem passes_of_not_smooth (hret : ret ≠ 0) (h : ¬ Smooth tr) : Passes Accepts messages tr ret :=
  ⟨iff_of_false hret fun hsmooth => h hsmooth.1, fun hzero => absurd hzero hret⟩

/-- Calls that do not exchange anything. -/
theorem Passes.append (h : Passes Accepts messages tr ret) (hpayloads : payloads tr' = []) (hsent : sent tr' = [])
    (hsmooth : Smooth tr') : Passes Accepts messages (tr ++ tr') ret := by
  rw [Passes, payloads_append, sent_append, smooth_append, hpayloads, hsent, List.append_nil, List.append_nil,
    and_iff_left hsmooth]
  exact h

theorem Passes.prepend (h : Passes Accepts messages tr' ret) (hpayloads : payloads tr = []) (hsent : sent tr = [])
    (hsmooth : Smooth tr) : Passes Accepts messages (tr ++ tr') ret := by
  rw [Passes, payloads_append, sent_append, smooth_append, hpayloads, hsent, List.nil_append, List.nil_append,
    and_iff_right hsmooth]
  exact h

/-- The exchange, and the teardown after it. -/
theorem useEndpoint_endsWith {exchange : Prog appIface Bool} (hexchange : exchange.EndsWith fun tr ok =>
      (ok = true ↔ Smooth tr ∧ Accepts (payloads tr)) ∧ (ok = true → sent tr = messages)) :
    (useEndpoint side exchange).EndsWith (Passes Accepts messages) := by
  refine EndsWith.bind (hexchange.mono fun tr passed h status => ?_)
  change (if status < 0 then _ else _ : Prog appIface Nat).EndsWith _
  split
  · next hfailed => exact endsWith_complain (passes_of_not_smooth (by decide) (by simp [done, hfailed]))
  · next hdone =>
    refine Passes.append ?_ rfl rfl (by simp [done, hdone])
    cases passed <;> simpa [Passes] using h

theorem closeManager_endsWith (h : Passes Accepts messages tr ret) :
    (closeManager ret).EndsWith fun tr' => Passes Accepts messages (tr ++ tr') := by
  intro status
  change (if status < 0 then _ else _ : Prog appIface Nat).EndsWith _
  split
  · next hfailed => exact endsWith_complain (passes_of_not_smooth (by decide) (by simp [done, hfailed]))
  · next hdone => exact h.append rfl rfl (by simp [done, hdone])

/-- Either `main`, when the exchange accepts `Accepts` and sends `messages`. -/
theorem demoMain_endsWith (Accepts : List (List UInt8) → Prop) {create exchange : Prog appIface Bool}
    (hcreate : create.EndsWith fun tr opened => payloads tr = [] ∧ sent tr = [] ∧ (opened = true ↔ Smooth tr))
    (hexchange : exchange.EndsWith fun tr ok =>
      (ok = true ↔ Smooth tr ∧ Accepts (payloads tr)) ∧ (ok = true → sent tr = messages)) :
    (demoMain side create exchange).EndsWith (Passes Accepts messages) := by
  intro manager
  cases manager with
  | false => exact endsWith_complain (passes_of_not_smooth (by decide) (by simp [done]))
  | true =>
      change (create >>= fun endpoint => if !endpoint then complain (.notOpened side) 2 >>= closeManager
        else useEndpoint side exchange >>= closeManager).EndsWith fun tr => Passes _ _ ([⟨.openManager, true⟩] ++ tr)
      refine EndsWith.bind (hcreate.mono fun tr opened h => ?_)
      obtain ⟨hpayloads, hsent, hopened⟩ := h
      cases opened with
      | false =>
          have hfailed : ¬ Smooth tr := fun h => Bool.false_ne_true (hopened.mpr h)
          have hret : Passes Accepts messages (tr ++ [⟨.complain (.notOpened side), ()⟩]) 2 :=
            passes_of_not_smooth (by decide) fun h => hfailed (smooth_append.mp h).1
          refine EndsWith.bind (endsWith_complain ((closeManager_endsWith hret).mono fun tr' ret h => ?_))
          rw [List.append_assoc] at h
          exact h.prepend rfl rfl (by simp [done])
      | true =>
          refine EndsWith.bind ((useEndpoint_endsWith hexchange).mono fun tr' ret h => ?_)
          refine (closeManager_endsWith h).mono fun tr'' ret h => ?_
          exact (h.prepend hpayloads hsent (hopened.mp rfl)).prepend rfl rfl (by simp [done])

end Passes

/-- **What makes `publish` report success**, with any library and any peer: it
ends, and returns `0` exactly when every call but the receives has done its
work, and the payloads it has received are the acks in order and the data
messages in order, byte for byte, in a mixture that ends with an ack.  Then it
has sent the requests. -/
theorem publish_passes_iff (lengths : AppLengths) (hrequests : lengths.requests ≠ []) (channelKey channelSize : UInt64) :
    (publishMain lengths channelKey channelSize).EndsWith fun tr ret =>
      (ret = 0 ↔ Smooth tr ∧ Replies lengths.requests.length 1 lengths.data 1 (payloads tr)) ∧
        (ret = 0 → sent tr = patterns .request lengths.requests 1) := by
  have hcreate : (app (.publish channelKey channelSize)).EndsWith fun tr opened =>
      payloads tr = [] ∧ sent tr = [] ∧ (opened = true ↔ Smooth tr) :=
    fun opened => ⟨rfl, rfl, by simp [done]⟩
  refine demoMain_endsWith (Replies lengths.requests.length 1 lengths.data 1) hcreate ?_
  refine EndsWith.bind ((sendPatterns_endsWith (fun len h => lengths.fits len (List.mem_append_left _ h)) 0).mono
    fun tr ok h => ?_)
  obtain ⟨hpayloads, hok, hsent⟩ := h
  cases ok with
  | false => exact ⟨iff_of_false Bool.false_ne_true fun h => Bool.false_ne_true (hok.mpr (smooth_append.mp h.1).1), by simp⟩
  | true =>
      refine (receiveReplies_endsWith fun len h => lengths.fits len (List.mem_append_right _ h)).mono fun tr' ok h => ?_
      obtain ⟨hsmooth, hnone, hreplies⟩ := h
      rw [if_neg (by simpa using hrequests)] at hreplies
      refine ⟨?_, fun _ => ?_⟩
      · rw [hreplies, payloads_append, smooth_append, hpayloads, List.nil_append, and_iff_right ⟨hok.mp rfl, hsmooth⟩]
      · rw [sent_append, hsent rfl, hnone, List.append_nil]

end Runs

/-- A library that does its work, and the payloads that come in. -/
def replay : (o : AppOp) → List (List UInt8) → appIface.Res o × List (List UInt8)
  | .openManager, s => (true, s)
  | .publish _ _, s => (true, s)
  | .subscribe _ _, s => (true, s)
  | .send payload, s => (.ofNat payload.length, s)
  | .recv _, [] => ((0, []), [])
  | .recv _, payload :: s => ((.ofNat payload.length, payload), s)
  | .usleep _, s => ((), s)
  | .tearDown, s => (0, s)
  | .closeManager, s => (0, s)
  | .complain _, s => ((), s)

def Replays (o : AppOp) (s : List (List UInt8)) (r : appIface.Res o) (t : List (List UInt8)) : Prop := (r, t) = replay o s

theorem replays_replay (o : AppOp) (s : List (List UInt8)) : Replays o s (replay o s).1 (replay o s).2 := rfl

/-- One request and one data message. -/
def briefLengths : AppLengths := ⟨[12], [11], by decide⟩

/-- A publisher that gets the data message and the ack. -/
theorem publish_passes_iff_brief : ∃ tr, (publishMain briefLengths 1 4096).Ran Replays
    (patterns .data [11] 1 ++ ackPayloads 1 1) tr (some 0) [] ∧ Smooth tr ∧ Replies 1 1 [11] 1 (payloads tr) := by
  have hrun : (publishMain briefLengths 1 4096).run replay (patterns .data [11] 1 ++ ackPayloads 1 1) = some (0, []) := by
    decide +kernel
  obtain ⟨tr, hran⟩ := ran_of_run replays_replay hrun
  obtain ⟨ret, hret, hpasses, -⟩ := hran.endsWith (publish_passes_iff briefLengths (by decide) 1 4096)
  cases hret
  exact ⟨tr, hran, hpasses.mp rfl⟩

/-- **What makes `subscribe` report success**: it ends, and returns `0` exactly
when every call but the receives has done its work, and the payloads it has
received are the requests in order, byte for byte.  Then it has sent the data
messages and after them an ack for every request. -/
theorem subscribe_passes_iff (lengths : AppLengths) (hrequests : lengths.requests ≠ []) (publisherId channelKey : UInt64)
    (targetCount : Nat) : (subscribeMain lengths publisherId channelKey targetCount).EndsWith fun tr ret =>
      (ret = 0 ↔ Smooth tr ∧ payloads tr = patterns .request lengths.requests 1) ∧
        (ret = 0 → sent tr = patterns .data lengths.data 1 ++ ackPayloads 1 lengths.requests.length) := by
  rw [subscribeMain]
  split
  · refine endsWith_complain ⟨iff_of_false (by decide) fun h => ?_, by simp⟩
    exact hrequests (patterns_eq_nil h.2.symm)
  · have hcreate : (app (.subscribe publisherId channelKey)).EndsWith fun tr opened =>
        payloads tr = [] ∧ sent tr = [] ∧ (opened = true ↔ Smooth tr) :=
      fun opened => ⟨rfl, rfl, by simp [done]⟩
    refine demoMain_endsWith (· = patterns .request lengths.requests 1) hcreate ?_
    refine EndsWith.bind ((sendPatterns_endsWith (fun len h => lengths.fits len (List.mem_append_right _ h)) 0).mono
      fun tr ok h => ?_)
    obtain ⟨hpayloads, hok, hsent⟩ := h
    cases ok with
    | false =>
        exact ⟨iff_of_false Bool.false_ne_true fun h => Bool.false_ne_true (hok.mpr (smooth_append.mp h.1).1), by simp⟩
    | true =>
        refine (receiveRequests_endsWith (fun len h => lengths.fits len (List.mem_append_left _ h)) 0).mono fun tr' ok h => ?_
        obtain ⟨hpassed, hacks⟩ := h
        refine ⟨?_, fun hret => ?_⟩
        · rw [hpassed, payloads_append, smooth_append, hpayloads, List.nil_append, and_iff_right (hok.mp rfl)]
        · rw [sent_append, hsent rfl, hacks hret]

/-- A subscriber that gets the request. -/
theorem subscribe_passes_iff_brief : ∃ tr, (subscribeMain briefLengths 2 1 1).Ran Replays
    (patterns .request [12] 1) tr (some 0) [] ∧ Smooth tr ∧ sent tr = patterns .data [11] 1 ++ ackPayloads 1 1 := by
  have hrun : (subscribeMain briefLengths 2 1 1).run replay (patterns .request [12] 1) = some (0, []) := by
    decide +kernel
  obtain ⟨tr, hran⟩ := ran_of_run replays_replay hrun
  obtain ⟨ret, hret, hpasses, hsent⟩ := hran.endsWith (subscribe_passes_iff briefLengths (by decide) 2 1 1)
  cases hret
  exact ⟨tr, hran, (hpasses.mp rfl).1, hsent rfl⟩

end Exchange

end Axivc
