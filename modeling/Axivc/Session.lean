import Axivc.Producer

/-!
# Axivc.Session

A producer and a consumer on one ring, their calls in any order.

Everything either side does is a call on the shared ring memory; the only
thing they share is that memory.  `Session.Channel` is what ties them
together: the slots ever pushed split into the ones popped and the ones in
the ring, and the producer's caller has seen the trace of all of them go out.

Two theorems rest on it.

* `session_delivers_exactly` — one sender, one receiver: the receiver never
  fails and reports exactly what the sender's caller has seen end, in order.
* `sessions_never_splice` — sender and receiver may be replaced at any time,
  in the middle of a message too, with the ring left as it is: a message is
  reported complete only if one session completed it, and then with exactly
  the slots and bytes of it.
-/

namespace Axivc

open Prog Rely

/-- A ring, its producer and its consumer. -/
structure Session where
  ring : Ring
  producer : Producer
  consumer : Consumer

/-- A call of either side. -/
inductive SessionCall where
  | send (call : SendCall)
  | receive (call : ReceiveCall)

/-- What may happen next: a call, or the replacement of the sender or the
receiver by a fresh one. -/
inductive SessionEvent where
  | call (call : SessionCall)
  | renewSender
  | renewReceiver

/-- The consumer replaced by a fresh `axivc_message_receiver_init`. -/
def Consumer.renew (c : Consumer) : Consumer :=
  { c with rx := messageReceiverInit, log := { c.log with bytes := [] } }

namespace Session

/-- A sender and a receiver just initialised on the ring. -/
def init (ring : Ring) : Session := ⟨ring, .init, .init⟩

/-- One call. -/
def call (s : Session) : SessionCall → Option Session
  | .send call => do
      let (producer, ring) ← s.producer.call s.ring call
      some { s with ring := ring, producer := producer }
  | .receive call => do
      let (consumer, ring) ← s.consumer.call s.ring call
      some { s with ring := ring, consumer := consumer }

/-- One event. -/
def step (s : Session) : SessionEvent → Option Session
  | .call call => s.call call
  | .renewSender => some { s with producer := s.producer.renew }
  | .renewReceiver => some { s with consumer := s.consumer.renew }

/-- A run of calls. -/
def runCalls (s : Session) (calls : List SessionCall) : Option Session := calls.foldlM call s

/-- A run of events. -/
def run (s : Session) (events : List SessionEvent) : Option Session := events.foldlM step s

/-! ## the channel -/

/-- The number of slots popped so far. -/
def popped (s : Session) : Nat := s.consumer.log.position

/-- `slots` are the slots pushed so far: the popped ones, then those in the
ring; they decode to `frames`, which the producer's caller has seen go out. -/
structure Channel (s : Session) (slots : List Slot) (frames : List Frame) : Prop where
  popped_le : s.popped ≤ slots.length
  holds : s.ring.Holds s.popped (slots.drop s.popped)
  decodes : Decodes slots frames
  producer : s.producer.Inv frames

theorem init_channel (direction : UInt32) : (init (.initial direction)).Channel [] [] :=
  ⟨Nat.le_refl _, Ring.initial_holds direction, rfl, Producer.init_inv⟩

variable {s : Session} {slots : List Slot} {frames : List Frame}

/-- A call of the producer. -/
theorem Channel.send (h : s.Channel slots frames) (call : SendCall) :
    ∃ s' new more, s.call (.send call) = some s' ∧ s'.consumer = s.consumer ∧
      s'.Channel (slots ++ new) (frames ++ more) ∧
      (slots ++ new).drop s.popped = slots.drop s.popped ++ new ∧
      (frames ++ more).take s.popped = frames.take s.popped ∧
      ∀ rx, Matches s.producer.tx rx →
        ∃ rx', new.foldlM Receiver.accept rx = .ok rx' ∧ Matches s'.producer.tx rx' := by
  obtain ⟨p', m', new, more, hcall, hm', hdec, hinv, haccept⟩ := Producer.call_spec h.producer h.holds call
  have hle := h.popped_le
  have hlen := h.decodes.length_eq
  have hdrop : (slots ++ new).drop s.popped = slots.drop s.popped ++ new :=
    List.drop_append_of_le_length hle
  refine ⟨⟨m', p', s.consumer⟩, new, more, by rw [Session.call, hcall]; rfl, rfl, ⟨?_, ?_, ?_, hinv⟩, hdrop,
    List.take_append_of_le_length (by omega), haccept⟩
  · change s.popped ≤ _
    rw [List.length_append]
    omega
  · change m'.Holds s.popped ((slots ++ new).drop s.popped)
    rw [hdrop]
    exact hm'
  · exact h.decodes.append hdec

/-- A call of the consumer: `new` are the slots it pops. -/
theorem Channel.receive (h : s.Channel slots frames) (hrx : s.consumer.rx.state ≠ .failed .ECONNRESET)
    (call : ReceiveCall) : ∃ s' new rest more rx es, s.call (.receive call) = some s' ∧
      s'.producer = s.producer ∧ s'.Channel slots frames ∧
      slots.drop s.popped = new ++ rest ∧ slots.drop s'.popped = rest ∧
      frames.take s'.popped = frames.take s.popped ++ more ∧ Decodes new more ∧
      s'.consumer.log = more.foldl Trace.step s.consumer.log ∧
      new.foldlM Receiver.accept s.consumer.rx = .ok rx ∧
      (s'.consumer.rx = rx ∨ (∀ e, s.consumer.rx.state ≠ .failed e) ∧ ∃ e slot, new = [] ∧
        (slots.drop s.popped).head? = some slot ∧ s.consumer.rx.examine slot = .error e ∧
        s'.consumer.rx = { s.consumer.rx with state := .failed e }) ∧
      s'.consumer.errors = s.consumer.errors ++ es ∧
      ∀ e ∈ es, e = .EMSGSIZE ∨ e = .ECONNRESET ∨ s'.consumer.rx.state = .failed e := by
  obtain ⟨c', m', new, rest, more, rx, es, hcall, hq, hm', hdec, hlog, hfold, hrx', herrors, hes⟩ :=
    Consumer.call_spec h.holds hrx call
  have hpos : (⟨m', s.producer, c'⟩ : Session).popped = s.popped + new.length := by
    change c'.log.position = _
    rw [hlog, Trace.foldl_position, hdec.length_eq]
    rfl
  have hlen := congrArg List.length hq
  rw [List.length_drop, List.length_append] at hlen
  have hle := h.popped_le
  have hdrop : slots.drop (s.popped + new.length) = rest := by
    rw [← List.drop_drop, hq, List.drop_left]
  have hmore : (frames.drop s.popped).take new.length = more := by
    have htake := (h.decodes.drop s.popped).take new.length
    rw [hq, List.take_left] at htake
    exact htake.unique hdec
  refine ⟨⟨m', s.producer, c'⟩, new, rest, more, rx, es, by rw [Session.call, hcall]; rfl, rfl,
    ⟨by rw [hpos]; omega, by rw [hpos, hdrop]; exact hm', h.decodes, h.producer⟩, hq, by rw [hpos, hdrop], ?_,
    hdec, hlog, hfold, hrx', herrors, hes⟩
  rw [hpos, List.take_add, hmore]

end Session

/-! ## following a receiver across sessions -/

/-- What the caller has seen of a receiver, against the trace `t` of all slots
popped: each message it reported is one of the trace, and the message the
receiver is in is the trace's latest. -/
structure Follows (rx : Receiver) (log t : Trace) : Prop where
  position : log.position = t.position
  outcomes : ∀ o ∈ log.outcomes, o ∈ t.outcomes
  message : rx.state = .receiving → log.first = t.first ∧ log.bytes = t.bytes

theorem Follows.step {rx : Receiver} {log t : Trace} (h : Follows rx log t) {slot : Slot} {frame : Frame}
    {transition : Transition} (hex : rx.examine slot = .ok (frame, transition)) :
    Follows (rx.commit transition) (log.step frame) (t.step frame) := by
  have hopen : log.opening rx = t.opening rx := by
    unfold Trace.opening Trace.message
    split
    · rw [h.position]
    · next hrecv =>
        obtain ⟨hfirst, hbytes⟩ := h.message (by simpa using hrecv)
        rw [hfirst, hbytes]
  have hstate := Receiver.commit_state hex
  rw [Trace.step_of_examine hex, Trace.step_of_examine hex, hopen, h.position]
  split
  · next hend =>
      rw [if_pos hend] at hstate
      refine ⟨rfl, fun o ho => ?_, by simp [hstate]⟩
      rcases List.mem_append.mp ho with ho | ho
      · exact List.mem_append_left _ (h.outcomes o ho)
      · exact List.mem_append_right _ ho
  · exact ⟨rfl, h.outcomes, fun _ => ⟨rfl, rfl⟩⟩

/-- Accepted slots are followed. -/
theorem Follows.foldl {rx rx' : Receiver} {log t : Trace} (h : Follows rx log t) {slots : List Slot}
    {more : List Frame} (hacc : slots.foldlM Receiver.accept rx = .ok rx') (hdec : Decodes slots more) :
    Follows rx' (more.foldl Trace.step log) (more.foldl Trace.step t) := by
  refine accepted_induct (P := fun rx frames => Follows rx (frames.foldl Trace.step log)
    (frames.foldl Trace.step t)) hacc hdec h fun h hex => ?_
  rw [List.foldl_append, List.foldl_append]
  exact h.step hex

/-- Accepting a slot leaves a receiver that has not failed. -/
theorem accepted_failed {rx rx' : Receiver} {slots : List Slot} {e : Errno}
    (h : slots.foldlM Receiver.accept rx = .ok rx') (hf : rx'.state = .failed e) : rx.state = .failed e := by
  cases slots using List.reverseRecOn with
  | nil =>
      cases h
      exact hf
  | append_singleton slots slot =>
      obtain ⟨rx₁, -, hslot⟩ := foldlM_snoc.mp h
      obtain ⟨frame, transition, hex, rfl⟩ := Receiver.accept_iff_examine.mp hslot
      rw [Receiver.commit_state hex] at hf
      split at hf <;> cases hf

namespace Session

/-- The invariant across sessions. -/
def Traced (s : Session) : Prop :=
  ∃ slots frames, s.Channel slots frames ∧ s.consumer.rx.state ≠ .failed .ECONNRESET ∧
    Follows s.consumer.rx s.consumer.log (trace (frames.take s.popped))

/-- **Step**: every event keeps the invariant. -/
theorem Traced.step {s : Session} (h : s.Traced) (event : SessionEvent) :
    ∃ s', s.step event = some s' ∧ s'.Traced := by
  obtain ⟨slots, frames, hch, hrx, hfollows⟩ := h
  cases event with
  | renewSender =>
      exact ⟨_, rfl, slots, frames, ⟨hch.popped_le, hch.holds, hch.decodes, hch.producer.renew⟩, hrx, hfollows⟩
  | renewReceiver =>
      exact ⟨_, rfl, slots, frames, ⟨hch.popped_le, hch.holds, hch.decodes, hch.producer⟩, by simp [Consumer.renew,
        messageReceiverInit], hfollows.position, hfollows.outcomes, by simp [Consumer.renew, messageReceiverInit]⟩
  | call call =>
      cases call with
      | send call =>
          obtain ⟨s', new, more, hcall, hcons, hch', -, htake, -⟩ := hch.send call
          refine ⟨s', hcall, slots ++ new, frames ++ more, hch', by rw [hcons]; exact hrx, ?_⟩
          rw [popped, hcons]
          change Follows _ _ (trace ((frames ++ more).take s.popped))
          rw [htake]
          exact hfollows
      | receive call =>
          obtain ⟨s', new, rest, more, rx, es, hcall, -, hch', -, -, htake, hdec, hlog, hfold, hrx', -, -⟩ :=
            hch.receive hrx call
          have hnext := hfollows.foldl hfold hdec
          refine ⟨s', hcall, slots, frames, hch', ?_⟩
          rw [htake, trace_append, hlog]
          rcases hrx' with hrx' | ⟨hstate, e, slot, rfl, -, hex, hrx'⟩
          · rw [hrx']
            exact ⟨fun hf => hrx (accepted_failed hfold hf), hnext⟩
          · cases hfold
            rw [hrx']
            refine ⟨?_, hnext.position, hnext.outcomes, by simp⟩
            rcases Receiver.examine_error hstate hex with rfl | rfl <;> simp

/-- **Run**: the invariant holds after any events. -/
theorem Traced.run {s : Session} (h : s.Traced) (events : List SessionEvent) :
    ∃ s', s.run events = some s' ∧ s'.Traced :=
  run_steps (fun _ event h => h.step event) events h

theorem init_traced (direction : UInt32) : (init (.initial direction)).Traced :=
  ⟨[], [], init_channel direction, by simp [init, Consumer.init, messageReceiverInit], rfl,
    by simp [init, Consumer.init, Trace.init], by simp [init, Consumer.init, messageReceiverInit]⟩

end Session

/-- **No splicing across sessions.**  Take a ring just initialised, and any
order of sender calls, receiver calls, and replacements of the sender and of
the receiver by fresh ones.  Every call returns, and each message the
receiver has reported complete (or reset) so far is one that a single sender
session completed (or aborted) with exactly these bytes; the slots it was
read from were all pushed for that one message, from its first to its last. -/
theorem sessions_never_splice (direction : UInt32) (m ring : Ring)
    (hinit : (ringInitialize direction).run access m = some ((), ring)) (events : List SessionEvent) :
    ∃ s, (Session.init ring).run events = some s ∧
      ∀ o ∈ s.consumer.log.outcomes, ∃ msg ∈ s.producer.ended, msg.outcome = o ∧
        ∀ i, o.first ≤ i → i < o.upto → s.producer.tags[i]? = some msg.tag := by
  rw [run_ringInitialize, Option.some.injEq, Prod.mk.injEq] at hinit
  obtain ⟨-, rfl⟩ := hinit
  obtain ⟨s, hrun, slots, frames, hch, -, hfollows⟩ := (Session.init_traced direction).run events
  refine ⟨s, hrun, fun o ho => ?_⟩
  have hpre := Trace.outcomes_mono (trace (frames.take s.popped)) (frames.drop s.popped)
  rw [← trace_append, List.take_append_drop] at hpre
  have hmem : o ∈ s.producer.ended.map SentMessage.outcome := by
    rw [hch.producer.ended_eq]
    exact hpre.subset (hfollows.outcomes o ho)
  obtain ⟨msg, hmsg, rfl⟩ := List.mem_map.mp hmem
  exact ⟨msg, hmsg, rfl, (hch.producer.ended_owned msg hmsg).2⟩

/-- Instance: the sender is replaced in the middle of a message of 300 bytes,
and the new session sends a message of its own. -/
theorem sessions_never_splice_renewed : ∃ s, (Session.init (.initial 1)).run
      [.call (.send (.start 300)), .call (.send (.tryWrite (List.replicate 232 7))), .renewSender,
        .call (.send (.start 2)), .call (.send (.tryWrite [1, 2])), .call (.receive (.tryRead 232))] = some s ∧
    ∀ o ∈ s.consumer.log.outcomes, ∃ msg ∈ s.producer.ended, msg.outcome = o := by
  obtain ⟨s, hrun, h⟩ := sessions_never_splice 1 (.initial 1) _ (run_ringInitialize 1 _)
    [.call (.send (.start 300)), .call (.send (.tryWrite (List.replicate 232 7))), .renewSender,
      .call (.send (.start 2)), .call (.send (.tryWrite [1, 2])), .call (.receive (.tryRead 232))]
  refine ⟨s, hrun, fun o ho => ?_⟩
  obtain ⟨msg, hmsg, heq, -⟩ := h o ho
  exact ⟨msg, hmsg, heq⟩

/-! ## one session -/

/-- The payload of each message of the stream, the open one last. -/
def Trace.carried (t : Trace) : List (List UInt8) := t.outcomes.map Outcome.bytes ++ [t.bytes]

/-- What an accepted stream goes on to carry: an idle receiver is between
messages, and the open message of `t` is continued. -/
structure Continues (t : Trace) (rx : Receiver) (t' : Trace) : Prop where
  idle : rx.state = .idle → t'.bytes = []
  bytes : t.bytes <+: t'.carried.getD t.outcomes.length []
  outcomes : t.outcomes <+: t'.outcomes

/-- Replacing the last element by a longer one, and going on after it. -/
theorem prefix_getD {xs rest : List (List UInt8)} {a b : List UInt8} (hab : a <+: b) {k : Nat}
    (hk : k ≤ xs.length) : (xs ++ [a]).getD k [] <+: (xs ++ b :: rest).getD k [] := by
  rw [List.getD_eq_getElem?_getD, List.getD_eq_getElem?_getD]
  by_cases hlt : k < xs.length
  · have heq : (xs ++ b :: rest)[k]? = (xs ++ [a])[k]? := by
      rw [List.getElem?_append_left hlt, List.getElem?_append_left hlt]
    simp only [heq, List.prefix_rfl]
  · rw [List.getElem?_append_right (by omega), List.getElem?_append_right (by omega)]
    have hzero : k - xs.length = 0 := by omega
    simpa [hzero] using hab

theorem Continues.step {t t' : Trace} {rx : Receiver} (h : Continues t rx t') {slot : Slot} {frame : Frame}
    {transition : Transition} (hex : rx.examine slot = .ok (frame, transition)) :
    Continues t (rx.commit transition) (t'.step frame) := by
  have hopen : t'.bytes <+: (t'.opening rx).2 ++ frame.fragment := by
    cases hstate : rx.state with
    | idle =>
        rw [h.idle hstate]
        exact List.nil_prefix
    | receiving =>
        rw [Trace.opening_receiving hstate]
        exact List.prefix_append _ _
    | failed e =>
        obtain ⟨e', he'⟩ := Receiver.examine_failed hstate slot
        rw [hex] at he'
        cases he'
  have hle : t.outcomes.length ≤ (t'.outcomes.map Outcome.bytes).length := by
    rw [List.length_map]
    exact h.outcomes.length_le
  have hstate := Receiver.commit_state hex
  rw [Trace.step_of_examine hex]
  split
  · refine ⟨fun _ => rfl, h.bytes.trans ?_, h.outcomes.trans (List.prefix_append _ _)⟩
    rw [Trace.carried, Trace.carried, List.map_append, List.append_assoc]
    exact prefix_getD hopen hle
  · next hgoes =>
      rw [if_neg hgoes] at hstate
      exact ⟨by simp [hstate], h.bytes.trans (prefix_getD hopen hle), h.outcomes⟩

/-- What follows an accepted stream continues it. -/
theorem Continues.of_accepted {t : Trace} {rx rx' : Receiver} (hidle : rx.state = .idle → t.bytes = [])
    {slots : List Slot} {more : List Frame} (hacc : slots.foldlM Receiver.accept rx = .ok rx')
    (hdec : Decodes slots more) : Continues t rx' (more.foldl Trace.step t) := by
  refine accepted_induct (P := fun rx frames => Continues t rx (frames.foldl Trace.step t)) hacc hdec ?_
    fun h hex => ?_
  · refine ⟨hidle, ?_, List.prefix_rfl⟩
    rw [List.foldl_nil, Trace.carried, List.getD_eq_getElem?_getD, List.getElem?_append_right (by simp)]
    simp
  · rw [List.foldl_append]
    exact h.step hex

namespace Session

/-- The invariant of one session: the receiver's caller has seen the trace of
the popped slots, and the receiver would accept the rest and then be level
with the sender. -/
def Exact (s : Session) : Prop :=
  ∃ slots frames rx, s.Channel slots frames ∧ s.consumer.log = trace (frames.take s.popped) ∧
    (s.consumer.rx.state = .idle → s.consumer.log.bytes = []) ∧
    (slots.drop s.popped).foldlM Receiver.accept s.consumer.rx = .ok rx ∧ Matches s.producer.tx rx ∧
    ∀ e ∈ s.consumer.errors, e = .EMSGSIZE ∨ e = .ECONNRESET

/-- A receiver with an acceptable stream before it has not failed. -/
theorem not_failed_of_accepts {rx rx' : Receiver} {slots : List Slot}
    (h : slots.foldlM Receiver.accept rx = .ok rx') (hrx' : ∀ e, rx'.state ≠ .failed e) (e : Errno) :
    rx.state ≠ .failed e := by
  intro hf
  cases slots with
  | nil =>
      cases h
      exact hrx' e hf
  | cons slot slots =>
      obtain ⟨e', he'⟩ := Receiver.examine_failed hf slot
      rw [List.foldlM_cons, Receiver.accept, he'] at h
      cases h

/-- **Step**: every call keeps the invariant. -/
theorem Exact.call {s : Session} (h : s.Exact) (call : SessionCall) :
    ∃ s', s.call call = some s' ∧ s'.Exact := by
  obtain ⟨slots, frames, rx, hch, hlog, hidle, hacc, hmatch, herr⟩ := h
  cases call with
  | send call =>
      obtain ⟨s', new, more, hcall, hcons, hch', hdrop, htake, haccept⟩ := hch.send call
      obtain ⟨rx', hnew, hmatch'⟩ := haccept rx hmatch
      have hpop : s'.popped = s.popped := by rw [popped, hcons, popped]
      refine ⟨s', hcall, slots ++ new, frames ++ more, rx', hch', ?_, ?_, ?_, hmatch', ?_⟩
      · rw [hpop, hcons, htake, hlog]
      · rwa [hcons]
      · rw [hpop, hdrop, hcons, List.foldlM_append, hacc]
        exact hnew
      · rwa [hcons]
  | receive call =>
      have hnf := not_failed_of_accepts hacc hmatch.not_failed
      obtain ⟨s', new, rest, more, rx₁, es, hcall, hprod, hch', hq, hdrop, htake, hdec, hlog', hfold, hrx',
        herrors, hes⟩ := hch.receive (hnf _) call
      rw [hq, List.foldlM_append, hfold] at hacc
      -- The receiver does not fail: it would have to on a slot it accepts.
      have hrx : s'.consumer.rx = rx₁ := by
        rcases hrx' with hrx' | ⟨-, e, slot, rfl, hhead, hex, -⟩
        · exact hrx'
        · cases hfold
          obtain ⟨rest', rfl⟩ : ∃ rest', rest = slot :: rest' := by
            rw [hq] at hhead
            cases rest with
            | nil => cases hhead
            | cons x rest =>
                cases hhead
                exact ⟨rest, rfl⟩
          rw [show (Except.ok s.consumer.rx >>= fun rx => (slot :: rest').foldlM Receiver.accept rx) =
            (slot :: rest').foldlM Receiver.accept s.consumer.rx from rfl, List.foldlM_cons, Receiver.accept,
            hex] at hacc
          cases hacc
      have hnf' := not_failed_of_accepts hacc hmatch.not_failed
      refine ⟨s', hcall, slots, frames, rx, hch', ?_, ?_, ?_, by rw [hprod]; exact hmatch, ?_⟩
      · rw [htake, trace_append, hlog', hlog]
      · rw [hrx, hlog']
        exact (Continues.of_accepted hidle hfold hdec).idle
      · rw [hdrop, hrx]
        exact hacc
      · rw [herrors]
        intro e he
        rcases List.mem_append.mp he with he | he
        · exact herr e he
        · rcases hes e he with h | h | h
          · exact .inl h
          · exact .inr h
          · rw [hrx] at h
            exact absurd h (hnf' e)

theorem init_exact (direction : UInt32) : (init (.initial direction)).Exact :=
  ⟨[], [], messageReceiverInit, init_channel direction, rfl, fun _ => rfl, rfl, rfl,
    by simp [init, Consumer.init]⟩

end Session

/-- **Exact delivery over one session.**  Take a ring just initialised, a
sender and a receiver just initialised on it, and any order of their calls.
Every call returns, and then

* the receiver has not failed, and its calls have returned no other error
  than EMSGSIZE and ECONNRESET;
* the messages it has reported complete, with their bytes, and reset are the
  first of those the sender's calls completed, with the bytes they consumed,
  and aborted after publishing part of them, in the same order;
* the bytes delivered of the message in progress are a prefix of those the
  sender's calls reported consumed for that message. -/
theorem session_delivers_exactly (direction : UInt32) (m ring : Ring)
    (hinit : (ringInitialize direction).run access m = some ((), ring)) (calls : List SessionCall) :
    ∃ s, (Session.init ring).runCalls calls = some s ∧
      (∀ e, s.consumer.rx.state ≠ .failed e) ∧
      (∀ e ∈ s.consumer.errors, e = .EMSGSIZE ∨ e = .ECONNRESET) ∧
      s.consumer.log.outcomes <+: s.producer.ended.map SentMessage.outcome ∧
      s.consumer.log.bytes <+:
        (s.producer.ended.map (·.outcome.bytes) ++ [s.producer.bytes]).getD s.consumer.log.outcomes.length [] := by
  rw [run_ringInitialize, Option.some.injEq, Prod.mk.injEq] at hinit
  obtain ⟨-, rfl⟩ := hinit
  obtain ⟨s, hrun, slots, frames, rx, hch, hlog, hidle, hacc, hmatch, herr⟩ :=
    run_steps (fun _ call h => Session.Exact.call h call) calls (Session.init_exact direction)
  have hcont := Continues.of_accepted hidle hacc (hch.decodes.drop s.popped)
  rw [hlog, ← trace_append, List.take_append_drop] at hcont
  have hbytes : (trace frames).bytes = s.producer.bytes := by
    by_cases hp : s.producer.tx.sending = true ∧ s.producer.tx.publishedAny = true
    · exact (hch.producer.published hp.1 hp.2).2.1.symm
    · have hp' : s.producer.tx.sending = false ∨ s.producer.tx.publishedAny = false := by
        rcases not_and_or.mp hp with hp | hp
        · exact .inl (by simpa using hp)
        · exact .inr (by simpa using hp)
      rw [hch.producer.unpublished hp', hcont.idle (hmatch.idle hp')]
  refine ⟨s, hrun, Session.not_failed_of_accepts hacc hmatch.not_failed, herr, ?_, ?_⟩
  · rw [hch.producer.ended_eq, hlog]
    exact hcont.outcomes
  · have hcarried : s.producer.ended.map (·.outcome.bytes) ++ [s.producer.bytes] = (trace frames).carried := by
      rw [Trace.carried, ← hch.producer.ended_eq, hbytes, List.map_map]
      rfl
    rw [hcarried, hlog]
    exact hcont.bytes

/-- Instance: a message of three bytes, written in two calls and read in one. -/
theorem session_delivers_exactly_message : ∃ s, (Session.init (.initial 1)).runCalls
      [.send (.start 3), .send (.tryWrite [1, 2]), .send (.tryWrite [3]), .receive (.tryRead 232)] = some s ∧
    s.consumer.log.outcomes <+: s.producer.ended.map SentMessage.outcome := by
  obtain ⟨s, hrun, -, -, h, -⟩ := session_delivers_exactly 1 (.initial 1) _ (run_ringInitialize 1 _)
    [.send (.start 3), .send (.tryWrite [1, 2]), .send (.tryWrite [3]), .receive (.tryRead 232)]
  exact ⟨s, hrun, h⟩

end Axivc
