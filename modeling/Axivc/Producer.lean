import Axivc.Consumer
import Axivc.Sender

/-!
# Axivc.Producer

A sender writing to the ring, call by call.

A `Producer` is a sender together with what its caller has seen of it: the
slots its calls pushed and for which message, the bytes of the message at
hand that they reported consumed, and the messages they completed or aborted.
A producer may be replaced by a fresh one at any time; a message is known by
its session and its id.

The slots a producer pushes are, frame by frame, what its caller has seen
(`Producer.Inv`), and a receiver that is level with the sender (`Matches`)
accepts every one of them.
-/

namespace Axivc

open Prog Rely

/-! ## the calls on the ring memory -/

/-- Between `m` and `m'` the slots `slots` were pushed. -/
def RingPushes (m : Ring) (slots : List Slot) (m' : Ring) : Prop :=
  ∀ n q, m.Holds n q → m'.Holds n (q ++ slots)

/-- The ring of `ring.c`, used by the producer alone. -/
theorem ring_pushLog : PushLog (.alone access) ringProgram (fun _ => True) RingPushes where
  trans h h' n q hm := by
    rw [← List.append_assoc]
    exact h' n _ (h n q hm)
  stable m m' hr _ n q hm := by
    rw [hr, List.append_nil]
    exact hm
  push slot m _ := by
    rw [View.safe_alone]
    intro ok m' hrun n q hm
    rw [run_ringProgram, Option.some.injEq] at hrun
    by_cases hfull : q.length = ringCapacity
    · rw [hm.step_push_full hfull] at hrun
      obtain ⟨rfl, rfl⟩ := Prod.mk.inj hrun
      simpa using hm
    · have hle := hm.length_le
      obtain ⟨m₁, hstep, hm₁⟩ := hm.step_push (by omega) slot
      rw [hstep] at hrun
      obtain ⟨rfl, rfl⟩ := Prod.mk.inj hrun
      exact hm₁

/-- The tail cursor moves by the number of slots pushed. -/
theorem Ring.Holds.tail_sub {m m' : Ring} {n : Nat} {q slots : List Slot} (h : m.Holds n q)
    (h' : m'.Holds n (q ++ slots)) : (m'.tail - m.tail).toNat = slots.length := by
  have hle := h'.length_le
  have h32 : ringCapacity = 32 := rfl
  rw [List.length_append] at hle
  rw [h.tail_eq, h'.tail_eq, List.length_append, Cursor.toNat_ofNat_sub (by omega) (by omega)]
  omega

/-- `axivc_message_try_write` on a ring that holds the queue `q`. -/
theorem run_messageTryWrite {m : Ring} {n : Nat} {q : List Slot} (h : m.Holds n q) {tx : Sender}
    (hok : tx.Ok) (input : List UInt8) : ∃ tx' result m' slots,
      (messageTryWrite ringProgram tx input).run access m = some ((tx', result), m') ∧
      m'.Holds n (q ++ slots) ∧ (m'.tail - m.tail).toNat = slots.length ∧
      WriteResult tx input slots tx' result := by
  obtain ⟨⟨⟨tx', result⟩, m'⟩, hrun⟩ :=
    (messageTryWrite_returns ringProgram_returns tx input).run_isSome access m
  obtain ⟨slots, hpushes, hresult⟩ :=
    View.safe_alone.mp (safe_messageTryWrite ring_pushLog hok (fun _ _ _ _ _ _ _ => trivial) input) _ _ hrun
  exact ⟨tx', result, m', slots, hrun, hpushes n q h, h.tail_sub (hpushes n q h), hresult⟩

/-- `axivc_message_try_abort` on a ring that holds the queue `q`. -/
theorem run_messageTryAbort {m : Ring} {n : Nat} {q : List Slot} (h : m.Holds n q) {tx : Sender}
    (hok : tx.Ok) : ∃ tx' result m' slots,
      (messageTryAbort ringProgram tx).run access m = some ((tx', result), m') ∧
      m'.Holds n (q ++ slots) ∧ (m'.tail - m.tail).toNat = slots.length ∧
      AbortResult tx slots tx' result := by
  obtain ⟨⟨⟨tx', result⟩, m'⟩, hrun⟩ := (messageTryAbort_returns ringProgram_returns tx).run_isSome access m
  obtain ⟨slots, hpushes, hresult⟩ :=
    View.safe_alone.mp (safe_messageTryAbort ring_pushLog hok fun _ _ _ _ _ _ _ => trivial) _ _ hrun
  exact ⟨tx', result, m', slots, hrun, hpushes n q h, h.tail_sub (hpushes n q h), hresult⟩

/-! ## what the caller sees -/

/-- A message of a sender session. -/
structure MessageTag where
  session : Nat
  id : UInt64
  deriving DecidableEq

/-- A message a sender session completed, or aborted after publishing part of
it. -/
structure SentMessage where
  tag : MessageTag
  outcome : Outcome

/-- A sender and what its caller has seen of it. -/
structure Producer where
  tx : Sender
  /-- the number of times the sender has been replaced -/
  session : Nat
  /-- for each slot pushed so far, by all sessions, the message it belongs to -/
  tags : List MessageTag
  /-- position of the first slot of the message at hand -/
  first : Nat
  /-- bytes of the message at hand reported consumed -/
  bytes : List UInt8
  ended : List SentMessage

/-- The calls of a producer. -/
inductive SendCall where
  | start (messageLen : UInt64)
  | tryWrite (input : List UInt8)
  | tryAbort

namespace Producer

/-- A sender just initialised. -/
def init : Producer := ⟨messageSenderInit, 0, [], 0, [], []⟩

/-- The producer replaced by a fresh `axivc_message_sender_init`. -/
def renew (p : Producer) : Producer :=
  { p with tx := messageSenderInit, session := p.session + 1, bytes := [] }

/-- The message at hand. -/
def tag (p : Producer) : MessageTag := ⟨p.session, p.tx.active.id⟩

/-- Position of the first slot of the message at hand. -/
def start (p : Producer) : Nat := if p.tx.publishedAny then p.first else p.tags.length

/-- A call left the record `tx` and pushed `count` slots. -/
def push (p : Producer) (tx : Sender) (count : Nat) : Producer :=
  { p with tx := tx, tags := p.tags ++ List.replicate count p.tag }

/-- The end of the message at hand, with the last `count` slots of it. -/
def finish (p : Producer) (tx : Sender) (count : Nat) (aborted : Bool) (bytes : List UInt8) : Producer :=
  { p.push tx count with
    bytes := []
    ended := p.ended ++ [⟨p.tag, ⟨aborted, bytes, p.start, p.tags.length + count⟩⟩] }

/-- One call of the producer on the ring memory. -/
def call (p : Producer) (m : Ring) : SendCall → Option (Producer × Ring)
  | .start messageLen => some ({ p with tx := (messageStart p.tx messageLen).1 }, m)
  | .tryWrite input => do
      let ((tx, result), m') ← (messageTryWrite ringProgram p.tx input).run access m
      let count := (m'.tail - m.tail).toNat
      match result with
      | .error _ => some (p.push tx count, m')
      | .ok progress =>
          let bytes := p.bytes ++ input.take progress.consumed
          if progress.complete then
            some (p.finish tx count false bytes, m')
          else
            some ({ p.push tx count with first := p.start, bytes := bytes }, m')
  | .tryAbort => do
      let ((tx, result), m') ← (messageTryAbort ringProgram p.tx).run access m
      let count := (m'.tail - m.tail).toNat
      match result with
      | .error _ => some (p.push tx count, m')
      | .ok () =>
          if p.tx.publishedAny then
            some (p.finish tx count true p.bytes, m')
          else
            some ({ p.push tx count with bytes := [] }, m')

end Producer

/-! ## the trace of what a sender pushes -/

/-- Where the message that `tx` sends starts in the stream, and its payload
so far. -/
def Trace.sending (t : Trace) (tx : Sender) : Nat × List UInt8 :=
  t.message (!tx.publishedAny)

section Sent

variable {tx tx' : Sender} {fragment bytes : List UInt8} {slot : Slot} {slots : List Slot}

/-- Nothing is sent once the message has ended. -/
theorem Sends.of_not_sending (h : Sends tx bytes slots tx') (hs : tx.sending = false) :
    bytes = [] ∧ slots = [] ∧ tx' = tx := by
  cases h with
  | nil => exact ⟨rfl, rfl, rfl⟩
  | cons hs' =>
      rw [hs] at hs'
      cases hs'

/-- The sender's own account of the fragments it pushes. -/
theorem Sends.trace_eq (h : Sends tx bytes slots tx') :
    ∃ more, Decodes slots more ∧ (slots = [] ∧ bytes = [] ∧ tx' = tx ∨
      tx'.publishedAny = true ∧ tx'.active = tx.active ∧
      ∀ t : Trace, more.foldl Trace.step t =
        if tx'.sending then
          ⟨t.position + slots.length, (t.sending tx).1, (t.sending tx).2 ++ bytes, t.outcomes⟩
        else
          ⟨t.position + slots.length, (t.sending tx).1, [], t.outcomes ++ [⟨false,
            (t.sending tx).2 ++ bytes, (t.sending tx).1, t.position + slots.length⟩]⟩) := by
  induction h with
  | nil tx => exact ⟨[], rfl, .inl ⟨rfl, rfl, rfl⟩⟩
  | @cons tx tx' fragment bytes slot slots hs hne hle hfull henc hrest ih =>
      obtain ⟨frame, hdec, -, -, hfirst, hlast, habort, rfl⟩ := decodeFrame_encodeFrame henc
      obtain ⟨more, hdecs, hcases⟩ := ih
      refine ⟨frame :: more, by simp [Decodes, hdec, show slots.map _ = _ from hdecs], .inr ?_⟩
      have hstep (t : Trace) := t.step_eq frame (show t.message frame.first = t.sending tx by rw [hfirst]; rfl)
      rw [habort, hlast, Bool.false_or] at hstep
      by_cases hend : tx.sent + .ofNat frame.fragment.length = tx.active.len
      · -- The last fragment: nothing follows it.
        have hns : (tx.advance frame.fragment.length).sending = false := by simp [Sender.advance, hend]
        obtain ⟨rfl, rfl, rfl⟩ := hrest.of_not_sending hns
        obtain rfl : more = [] := by simpa [Decodes] using hdecs
        refine ⟨rfl, rfl, fun t => ?_⟩
        rw [List.foldl_cons, List.foldl_nil, hstep, if_pos (by simp [hend]), if_neg (by simp [hns]),
          List.append_nil]
        rfl
      · have hs' : (tx.advance frame.fragment.length).sending = true := by simp [Sender.advance, hend]
        simp only [hend, decide_false, Bool.false_eq_true, if_false] at hstep
        rcases hcases with ⟨rfl, rfl, rfl⟩ | ⟨hpub, hact, htrace⟩
        · obtain rfl : more = [] := by simpa [Decodes] using hdecs
          refine ⟨rfl, rfl, fun t => ?_⟩
          rw [List.foldl_cons, List.foldl_nil, hstep, if_pos hs', List.append_nil]
          rfl
        · refine ⟨hpub, hact, fun t => ?_⟩
          have hnext : (t.step frame).sending (tx.advance frame.fragment.length) =
              ((t.sending tx).1, (t.sending tx).2 ++ frame.fragment) := by rw [hstep]; rfl
          rw [List.foldl_cons, htrace, hnext, hstep]
          simp only [List.length_cons, List.append_assoc, Nat.add_assoc, Nat.add_comm 1]

/-! ## a receiver level with the sender -/

/-- The receiver has read everything the sender has pushed. -/
def Matches (tx : Sender) (rx : Receiver) : Prop :=
  if tx.sending && tx.publishedAny then
    rx.state = .receiving ∧ rx.active = tx.active ∧ rx.received = tx.sent
  else
    rx.state = .idle

variable {rx : Receiver}

theorem Matches.idle (h : Matches tx rx) (hp : tx.sending = false ∨ tx.publishedAny = false) :
    rx.state = .idle := by
  unfold Matches at h
  rwa [if_neg (by rcases hp with hp | hp <;> simp [hp])] at h

theorem Matches.receiving (h : Matches tx rx) (hs : tx.sending = true) (hp : tx.publishedAny = true) :
    rx.state = .receiving ∧ rx.active = tx.active ∧ rx.received = tx.sent := by
  unfold Matches at h
  rwa [if_pos (by simp [hs, hp])] at h

theorem Matches.not_failed {tx : Sender} {rx : Receiver} (h : Matches tx rx) (e : Errno) :
    rx.state ≠ .failed e := by
  unfold Matches at h
  split at h
  · simp [h.1]
  · simp [h]

/-- The next fragment of a message is accepted. -/
theorem Matches.accept_data (h : Matches tx rx) (hok : tx.Ok) (hs : tx.sending = true)
    (hle : fragment.length ≤ tx.active.len.toNat - tx.sent.toNat)
    (henc : encodeFrame tx.active.id tx.active.len (!tx.publishedAny)
      (decide (tx.sent + .ofNat fragment.length = tx.active.len)) false fragment = .ok slot) :
    ∃ rx', rx.accept slot = .ok rx' ∧ Matches (tx.advance fragment.length) rx' := by
  obtain ⟨frame, hdec, hid, hlen, hfirst, hlast, habort, rfl⟩ := decodeFrame_encodeFrame henc
  have hsent := Sender.toNat_add_ofNat (hok.sent_le hs) hle
  have hsle := UInt64.le_iff_toNat_le.mp (hok.sent_le hs)
  have hbase : transitionBase rx frame = .ok (tx.active, tx.sent) := by
    cases hp : tx.publishedAny with
    | true =>
        obtain ⟨hrecv, hactive, hreceived⟩ := h.receiving hs hp
        exact (transitionBase_receiving hrecv).mpr ⟨by rw [hfirst, hp]; rfl, by rw [hid, hactive],
          by rw [hlen, hactive], by rw [hactive, hreceived]⟩
    | false =>
        have hzero : tx.sent = 0 := by
          by_contra hne
          rw [(hok.published_iff hs).mpr hne] at hp
          cases hp
        exact (transitionBase_idle (h.idle (.inr hp))).mpr ⟨habort, by rw [hfirst, hp]; rfl,
          by rw [hid, hlen, hzero]⟩
  have hval := validateTransition_eq_ok.mpr ⟨tx.active, tx.sent, hbase, .inr ⟨habort, by omega, fun hl => ?_, rfl⟩⟩
  · refine ⟨_, Receiver.accept_eq_ok.mpr ⟨frame, hdec, Receiver.acceptFrame_eq_ok.mpr ⟨_, hval, rfl⟩⟩, ?_⟩
    unfold Matches Sender.advance
    by_cases hend : tx.sent + .ofNat frame.fragment.length = tx.active.len
    · rw [if_neg (by simp [hend])]
      simp [Receiver.commit, hlast, hend]
    · rw [if_pos (by simp [hend])]
      simp [Receiver.commit, hlast, hend]
  · rw [hlast, decide_eq_true_eq] at hl
    rw [← hsent, hl]

/-- The frame of an empty message is accepted. -/
theorem Matches.accept_empty (h : Matches tx rx) (hok : tx.Ok) (hs : tx.sending = true)
    (hlen : tx.active.len = 0) (henc : encodeFrame tx.active.id 0 true true false [] = .ok slot) :
    ∃ rx', rx.accept slot = .ok rx' ∧ rx'.state = .idle := by
  obtain ⟨frame, hdec, hid, hl, hfirst, hlast, habort, hnil⟩ := decodeFrame_encodeFrame henc
  have hp : tx.publishedAny = false := hok.not_published hs (hok.sent_zero hs hlen)
  have hbase := (transitionBase_idle (h.idle (.inr hp))).mpr ⟨habort, hfirst, rfl⟩
  have hval := validateTransition_eq_ok.mpr
    ⟨_, _, hbase, .inr ⟨habort, by simp [hnil], fun _ => by simp [hnil, hl], rfl⟩⟩
  exact ⟨_, Receiver.accept_eq_ok.mpr ⟨frame, hdec, Receiver.acceptFrame_eq_ok.mpr ⟨_, hval, rfl⟩⟩,
    by simp [Receiver.commit, hlast]⟩

/-- The ABORT frame of a published message is accepted. -/
theorem Matches.accept_abort (h : Matches tx rx) (hs : tx.sending = true) (hp : tx.publishedAny = true)
    (henc : encodeFrame tx.active.id tx.active.len false false true [] = .ok slot) :
    ∃ rx', rx.accept slot = .ok rx' ∧ rx'.state = .idle := by
  obtain ⟨frame, hdec, hid, hl, hfirst, -, habort, -⟩ := decodeFrame_encodeFrame henc
  obtain ⟨hrecv, hactive, -⟩ := h.receiving hs hp
  have hbase := (transitionBase_receiving hrecv).mpr ⟨hfirst, by rw [hid, hactive], by rw [hl, hactive], rfl⟩
  have hval := validateTransition_eq_ok.mpr ⟨_, _, hbase, .inl ⟨habort, rfl⟩⟩
  exact ⟨_, Receiver.accept_eq_ok.mpr ⟨frame, hdec, Receiver.acceptFrame_eq_ok.mpr ⟨_, hval, rfl⟩⟩, rfl⟩

/-- Everything a sender pushes is accepted. -/
theorem Sends.accepted (h : Sends tx bytes slots tx') (hok : tx.Ok) (hm : Matches tx rx) :
    ∃ rx', slots.foldlM Receiver.accept rx = .ok rx' ∧ Matches tx' rx' := by
  induction h generalizing rx with
  | nil => exact ⟨rx, rfl, hm⟩
  | cons hs hne hle _ henc _ ih =>
      obtain ⟨rx₁, haccept, hm₁⟩ := hm.accept_data hok hs hle henc
      obtain ⟨rx', hfold, hm'⟩ := ih (hok.advance hs (List.length_pos_of_ne_nil hne) hle) hm₁
      exact ⟨rx', by rw [List.foldlM_cons, haccept]; exact hfold, hm'⟩

end Sent

/-! ## the producer's invariant -/

namespace Producer

/-- The slots from position `first` up to `upto` were pushed for one message. -/
def Owned (tags : List MessageTag) (tag : MessageTag) (first upto : Nat) : Prop :=
  ∀ i, first ≤ i → i < upto → tags[i]? = some tag

/-- What the caller has seen is the trace of the frames pushed so far. -/
structure Inv (p : Producer) (frames : List Frame) : Prop where
  ok : p.tx.Ok
  length_eq : p.tags.length = frames.length
  ended_eq : p.ended.map SentMessage.outcome = (trace frames).outcomes
  ended_owned : ∀ msg ∈ p.ended, msg.outcome.upto ≤ p.tags.length ∧
    Owned p.tags msg.tag msg.outcome.first msg.outcome.upto
  published : p.tx.sending = true → p.tx.publishedAny = true →
    p.first = (trace frames).first ∧ p.bytes = (trace frames).bytes ∧ Owned p.tags p.tag p.first p.tags.length
  unpublished : p.tx.sending = false ∨ p.tx.publishedAny = false → p.bytes = []

theorem init_inv : init.Inv [] :=
  ⟨.of_not_sending rfl, rfl, rfl, by simp [init], by simp [init, messageSenderInit], fun _ => rfl⟩

/-- A fresh sender keeps what has been pushed. -/
theorem Inv.renew {p : Producer} {frames : List Frame} (h : p.Inv frames) : p.renew.Inv frames :=
  ⟨.of_not_sending rfl, h.length_eq, h.ended_eq, h.ended_owned, by simp [Producer.renew, messageSenderInit],
    fun _ => rfl⟩

variable {p : Producer} {frames : List Frame}

theorem Owned.append {tags : List MessageTag} {tag : MessageTag} {first upto : Nat}
    (h : Owned tags tag first upto) (hupto : upto ≤ tags.length) (more : List MessageTag) :
    Owned (tags ++ more) tag first upto := by
  intro i hi hlt
  rw [List.getElem?_append_left (by omega)]
  exact h i hi hlt

/-- More slots of the same message. -/
theorem Owned.replicate {tags : List MessageTag} {tag : MessageTag} {first : Nat}
    (h : Owned tags tag first tags.length) (count : Nat) :
    Owned (tags ++ List.replicate count tag) tag first (tags.length + count) := by
  intro i hi hlt
  by_cases hold : i < tags.length
  · rw [List.getElem?_append_left hold]
    exact h i hi hold
  · rw [List.getElem?_append_right (by omega), List.getElem?_replicate, if_pos (by omega)]

/-- All slots from the start of the message at hand on belong to it. -/
theorem Inv.owned (h : p.Inv frames) (hs : p.tx.sending = true) : Owned p.tags p.tag p.start p.tags.length := by
  unfold start
  split
  · next hp => exact (h.published hs hp).2.2
  · exact fun i hi hlt => absurd hlt (by omega)

/-- The message at hand, as the caller and the trace see it. -/
theorem Inv.sending_eq (h : p.Inv frames) (hs : p.tx.sending = true) :
    (trace frames).sending p.tx = (p.start, p.bytes) := by
  unfold Trace.sending Trace.message start
  cases hp : p.tx.publishedAny with
  | true =>
      obtain ⟨hfirst, hbytes, -⟩ := h.published hs hp
      rw [hfirst, hbytes]
      rfl
  | false =>
      rw [trace_position, h.unpublished (.inr hp), h.length_eq]
      rfl

/-- The record after the message at hand has ended with the frames `more`. -/
theorem Inv.finish (h : p.Inv frames) (hs : p.tx.sending = true) {tx : Sender} (hs' : tx.sending = false)
    {more : List Frame} {aborted : Bool} {bytes : List UInt8} {count : Nat} (hcount : more.length = count)
    (htrace : (trace (frames ++ more)).outcomes =
      (trace frames).outcomes ++ [⟨aborted, bytes, p.start, p.tags.length + count⟩]) :
    (p.finish tx count aborted bytes).Inv (frames ++ more) := by
  refine ⟨.of_not_sending hs', ?_, ?_, fun msg hmsg => ?_, by simp [Producer.finish, push, hs'], fun _ => rfl⟩
  · simp [Producer.finish, push, h.length_eq, hcount]
  · rw [htrace, ← h.ended_eq]
    simp [Producer.finish]
  · rcases List.mem_append.mp hmsg with hmsg | hmsg
    · obtain ⟨hle, howned⟩ := h.ended_owned msg hmsg
      exact ⟨by simp [Producer.finish, push]; omega, howned.append hle _⟩
    · rw [List.mem_singleton.mp hmsg]
      exact ⟨by simp [Producer.finish, push], (h.owned hs).replicate count⟩

/-- A call that pushes nothing. -/
theorem Inv.same (h : p.Inv frames) {first : Nat} (hfirst : p.tx.publishedAny = true → first = p.first) :
    ({ p.push p.tx 0 with first := first } : Producer).Inv (frames ++ []) := by
  have hpush : p.push p.tx 0 = p := by simp [push]
  rw [List.append_nil, hpush]
  refine ⟨h.ok, h.length_eq, h.ended_eq, h.ended_owned, fun hs hp => ?_, h.unpublished⟩
  rw [hfirst hp]
  exact h.published hs hp

/-- A message starts with nothing published. -/
theorem messageStart_cases (tx : Sender) (messageLen : UInt64) :
    (messageStart tx messageLen).1 = tx ∨
      tx.sending = false ∧ (messageStart tx messageLen).1.publishedAny = false := by
  unfold messageStart
  split
  · exact .inl rfl
  · next hs =>
      split
      · exact .inl rfl
      · exact .inr ⟨by simpa using hs, rfl⟩

theorem Inv.start (h : p.Inv frames) (messageLen : UInt64) :
    ({ p with tx := (messageStart p.tx messageLen).1 } : Producer).Inv frames := by
  rcases messageStart_cases p.tx messageLen with heq | ⟨hs, hnp⟩
  · rw [heq]
    exact h
  · exact ⟨messageStart_ok h.ok messageLen, h.length_eq, h.ended_eq, h.ended_owned, by simp [hnp],
      fun _ => h.unpublished (.inl hs)⟩

/-- The effect of a write that sent a run of fragments. -/
theorem Inv.write (h : p.Inv frames) (hs : p.tx.sending = true) {tx : Sender} {bytes : List UInt8}
    {slots : List Slot} (hsends : Sends p.tx bytes slots tx) : ∃ more, Decodes slots more ∧
      (if tx.sending then
        { p.push tx slots.length with first := p.start, bytes := p.bytes ++ bytes }
      else p.finish tx slots.length false (p.bytes ++ bytes)).Inv (frames ++ more) := by
  obtain ⟨more, hdec, hcases⟩ := hsends.trace_eq
  refine ⟨more, hdec, ?_⟩
  have hcount := hdec.length_eq
  rcases hcases with ⟨rfl, rfl, rfl⟩ | ⟨hpub, hactive, htrace⟩
  · obtain rfl : more = [] := by simpa [Decodes] using hdec
    rw [if_pos hs, List.append_nil p.bytes]
    exact h.same fun hp => by rw [Producer.start, if_pos hp]
  · have htrace := (trace_append frames more).trans (htrace (trace frames))
    rw [h.sending_eq hs] at htrace
    cases hs' : tx.sending with
    | true =>
        rw [hs', if_pos rfl] at htrace
        rw [if_pos rfl]
        refine ⟨hsends.ok h.ok, ?_, ?_, fun msg hmsg => ?_, fun _ _ => ?_, fun hp => ?_⟩
        · simp [push, h.length_eq, hcount]
        · rw [htrace]
          exact h.ended_eq
        · obtain ⟨hle, howned⟩ := h.ended_owned msg hmsg
          exact ⟨by simp [push]; omega, howned.append hle _⟩
        · rw [htrace]
          refine ⟨rfl, rfl, ?_⟩
          have howned := (h.owned hs).replicate slots.length
          simpa [push, tag, hactive] using howned
        · simp [push, hs', hpub] at hp
    | false =>
        rw [hs', if_neg (by simp)] at htrace
        rw [if_neg (by simp)]
        refine h.finish hs hs' hcount ?_
        rw [htrace, trace_position, ← h.length_eq]

/-- The effect of a call that pushed one frame and ended the message. -/
theorem Inv.finish_frame (h : p.Inv frames) (hs : p.tx.sending = true) (tx : Sender)
    (hs' : tx.sending = false) {slot : Slot} {aborted last : Bool}
    (hend : (aborted || last) = true)
    {len : UInt64} (henc : encodeFrame p.tx.active.id len (!p.tx.publishedAny) last aborted [] = .ok slot) :
    ∃ more, Decodes [slot] more ∧ (p.finish tx 1 aborted p.bytes).Inv (frames ++ more) := by
  obtain ⟨frame, hdec, -, -, hf, hl, hab, hfrag⟩ := decodeFrame_encodeFrame henc
  refine ⟨[frame], by simp [Decodes, hdec], h.finish hs hs' rfl ?_⟩
  have hmessage : (trace frames).message frame.first = (p.start, p.bytes) := by
    rw [hf, ← h.sending_eq hs]
    rfl
  rw [trace_snoc, Trace.step_eq _ _ hmessage, hl, hab, hfrag, if_pos hend, trace_position, h.length_eq,
    List.append_nil]

/-- **One call**: the slots pushed are the frames the caller has seen go out,
and a receiver level with the sender accepts them. -/
theorem call_spec (h : p.Inv frames) {m : Ring} {n : Nat} {q : List Slot} (hm : m.Holds n q)
    (call : SendCall) : ∃ p' m' slots more, p.call m call = some (p', m') ∧ m'.Holds n (q ++ slots) ∧
      Decodes slots more ∧ p'.Inv (frames ++ more) ∧
      ∀ rx, Matches p.tx rx → ∃ rx', slots.foldlM Receiver.accept rx = .ok rx' ∧ Matches p'.tx rx' := by
  have hended {tx : Sender} {rx : Receiver} (hs : tx.sending = false) (hidle : rx.state = .idle) :
      Matches tx rx := by
    rw [Matches, if_neg (by simp [hs])]
    exact hidle
  cases call with
  | start messageLen =>
      refine ⟨_, m, [], [], rfl, by rwa [List.append_nil], rfl, by rw [List.append_nil]; exact h.start messageLen,
        fun rx hrx => ⟨rx, rfl, ?_⟩⟩
      rcases messageStart_cases p.tx messageLen with heq | ⟨hs, hnp⟩
      · rwa [heq]
      · rw [Matches, hnp, Bool.and_false, if_neg (by simp)]
        exact hrx.idle (.inl hs)
  | tryWrite input =>
      obtain ⟨tx', result, m', slots, hrun, hm', htail, hresult⟩ := run_messageTryWrite hm h.ok input
      rw [Producer.call, hrun]
      simp only [htail, Option.bind_eq_bind, Option.bind_some]
      cases hresult with
      | notSending hs => exact ⟨_, m', [], [], rfl, hm', rfl, h.same fun _ => rfl, fun rx hrx => ⟨rx, rfl, hrx⟩⟩
      | tooLong hs _ => exact ⟨_, m', [], [], rfl, hm', rfl, h.same fun _ => rfl, fun rx hrx => ⟨rx, rfl, hrx⟩⟩
      | emptyFull hs hlen hnil =>
          refine ⟨_, m', [], [], rfl, hm', rfl, ?_, fun rx hrx => ⟨rx, rfl, hrx⟩⟩
          rw [List.take_zero, List.append_nil]
          exact h.same fun hp => by rw [Producer.start, if_pos hp]
      | @empty slot hs hlen hnil henc =>
          have hp : p.tx.publishedAny = false := h.ok.not_published hs (h.ok.sent_zero hs hlen)
          obtain ⟨more, hdec, hinv⟩ := h.finish_frame hs { p.tx with sending := false } rfl rfl
            (by rw [hp]; exact henc)
          refine ⟨_, m', [slot], more, rfl, hm', hdec, ?_, fun rx hrx => ?_⟩
          · rw [List.take_zero, List.append_nil]
            exact hinv
          · obtain ⟨rx', haccept, hidle⟩ := hrx.accept_empty h.ok hs hlen henc
            exact ⟨rx', by rw [List.foldlM_cons, haccept]; rfl, hended rfl hidle⟩
      | @data n slots tx' hs hlen hle hn _ hsends =>
          have haccept := fun (rx : Receiver) (hrx : Matches p.tx rx) => hsends.accepted h.ok hrx
          obtain ⟨more, hdec, hinv⟩ := h.write hs hsends
          cases hs' : tx'.sending with
          | true =>
              rw [hs', if_pos rfl] at hinv
              exact ⟨_, m', slots, more, rfl, hm', hdec, hinv, haccept⟩
          | false =>
              rw [hs', if_neg (by simp)] at hinv
              exact ⟨_, m', slots, more, rfl, hm', hdec, hinv, haccept⟩
  | tryAbort =>
      obtain ⟨tx', result, m', slots, hrun, hm', htail, hresult⟩ := run_messageTryAbort hm h.ok
      rw [Producer.call, hrun]
      simp only [htail, Option.bind_eq_bind, Option.bind_some]
      cases hresult with
      | notSending hs => exact ⟨_, m', [], [], rfl, hm', rfl, h.same fun _ => rfl, fun rx hrx => ⟨rx, rfl, hrx⟩⟩
      | full hs hp => exact ⟨_, m', [], [], rfl, hm', rfl, h.same fun _ => rfl, fun rx hrx => ⟨rx, rfl, hrx⟩⟩
      | unpublished hs hp =>
          rw [if_neg (by simp [hp])]
          refine ⟨_, m', [], [], rfl, hm', rfl, ?_, fun rx hrx => ⟨rx, rfl, hended rfl (hrx.idle (.inr hp))⟩⟩
          rw [List.append_nil]
          exact ⟨.of_not_sending rfl, by simp [push, h.length_eq], h.ended_eq,
            by simpa [push] using h.ended_owned, by simp [push], fun _ => rfl⟩
      | @published slot hs hp henc =>
          obtain ⟨more, hdec, hinv⟩ := h.finish_frame hs { p.tx with sending := false } rfl rfl
            (by rw [hp]; exact henc)
          rw [if_pos hp]
          refine ⟨_, m', [slot], more, rfl, hm', hdec, hinv, fun rx hrx => ?_⟩
          obtain ⟨rx', haccept, hidle⟩ := hrx.accept_abort hs hp henc
          exact ⟨rx', by rw [List.foldlM_cons, haccept]; rfl, hended rfl hidle⟩

end Producer

end Axivc
