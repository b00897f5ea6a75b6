import Axivc.Grammar
import Axivc.RingQueue

/-!
# Axivc.Consumer

A receiver reading from the ring, call by call.

A `Consumer` is a receiver together with what its caller has seen of it: how
many slots its calls popped, the bytes they delivered, the messages they
reported complete or reset, and the errors they returned.  All of this is
read off the calls' results and the ring's head cursor.

The slots in the ring are arbitrary here.  `receiver_accepts_grammar` says
that the consumer pops exactly the longest prefix of them that the grammar of
`Axivc.Grammar` allows.
-/

namespace Axivc

open Prog Rely

/-! ## the calls on the ring memory -/

/-- Between `m` and `m'` the slots `slots` were popped; `seen` is what was
peeked since. -/
def RingReads (m : Ring) (slots : List Slot) (seen : Option (Option Slot)) (m' : Ring) : Prop :=
  ∀ n q, m.Holds n q → ∃ q', q = slots ++ q' ∧ m'.Holds (n + slots.length) q' ∧
    ∀ found, seen = some found → found = q'.head?

theorem ringReads_refl (m : Ring) : RingReads m [] none m :=
  fun _ q h => ⟨q, rfl, h, by simp⟩

/-- The ring of `ring.c`, used by the consumer alone. -/
theorem ring_popLog : PopLog (.alone access) ringProgram RingReads where
  stable h hr _ := by
    subst hr
    exact h
  peek {m slots seen m'} h := by
    rw [View.safe_alone]
    intro found m'' hrun
    rw [run_ringProgram, Option.some.injEq] at hrun
    intro n q hm
    obtain ⟨q', hq, hm', -⟩ := h n q hm
    rw [hm'.step_peek] at hrun
    obtain ⟨rfl, rfl⟩ := Prod.mk.inj hrun
    exact ⟨q', hq, hm', by simp⟩
  pop {m slots slot m'} h := by
    rw [View.safe_alone]
    intro _ m'' hrun
    rw [run_ringProgram, Option.some.injEq] at hrun
    intro n q hm
    obtain ⟨q', hq, hm', hseen⟩ := h n q hm
    obtain ⟨rest, rfl⟩ : ∃ rest, q' = slot :: rest := by
      cases q' with
      | nil => simp at hseen
      | cons x rest => simp at hseen; exact ⟨rest, by rw [hseen]⟩
    obtain ⟨m₁, hstep, hm₁⟩ := hm'.step_pop
    rw [hstep] at hrun
    obtain ⟨-, rfl⟩ := Prod.mk.inj hrun
    exact ⟨rest, by simp [hq], by rw [List.length_append]; exact hm₁, by simp⟩

/-- The head cursor moves by the number of slots popped. -/
theorem Ring.Holds.head_sub {m m' : Ring} {n k : Nat} {q q' : List Slot} (h : m.Holds n q)
    (h' : m'.Holds (n + k) q') (hk : k ≤ q.length) : (m'.head - m.head).toNat = k := by
  have hle := h.length_le
  have h32 : ringCapacity = 32 := rfl
  rw [h.head_eq, h'.head_eq, Cursor.toNat_ofNat_sub (by omega) (by omega)]
  omega

/-- `axivc_message_try_read` on a ring that holds the queue `q`. -/
theorem run_messageTryRead {m : Ring} {n : Nat} {q : List Slot} (h : m.Holds n q) (rx : Receiver)
    (outputLen : Nat) : ∃ rx' result m' slots seen q',
      (messageTryRead ringProgram rx outputLen).run access m = some ((rx', result), m') ∧
      q = slots ++ q' ∧ m'.Holds (n + slots.length) q' ∧ (m'.head - m.head).toNat = slots.length ∧
      (∀ found, seen = some found → found = q'.head?) ∧
      ReadResult rx outputLen slots seen rx' result := by
  obtain ⟨⟨⟨rx', result⟩, m'⟩, hrun⟩ :=
    (messageTryRead_returns ringProgram_returns rx outputLen).run_isSome access m
  obtain ⟨slots, seen, hreads, hresult⟩ :=
    View.safe_alone.mp (safe_messageTryRead ring_popLog outputLen (ringReads_refl m)) _ _ hrun
  obtain ⟨q', hq, hm', hseen⟩ := hreads n q h
  exact ⟨rx', result, m', slots, seen, q', hrun, hq, hm', h.head_sub hm' (by simp [hq]), hseen, hresult⟩

/-- `axivc_message_peek_meta` on a ring that holds the queue `q`. -/
theorem run_messagePeekMeta {m : Ring} {n : Nat} {q : List Slot} (h : m.Holds n q) (rx : Receiver) :
    ∃ rx' result m' seen, (messagePeekMeta ringProgram rx).run access m = some ((rx', result), m') ∧
      m'.Holds n q ∧ (m'.head - m.head).toNat = 0 ∧ (∀ found, seen = some found → found = q.head?) ∧
      PeekResult rx seen rx' result := by
  obtain ⟨⟨⟨rx', result⟩, m'⟩, hrun⟩ := (messagePeekMeta_returns ringProgram_returns rx).run_isSome access m
  obtain ⟨seen, hreads, hresult⟩ :=
    View.safe_alone.mp (safe_messagePeekMeta ring_popLog (ringReads_refl m)) _ _ hrun
  obtain ⟨q', hq, hm', hseen⟩ := hreads n q h
  rw [List.nil_append] at hq
  subst hq
  exact ⟨rx', result, m', seen, hrun, hm', h.head_sub (k := 0) hm' (Nat.zero_le _), hseen, hresult⟩

/-! ## what the caller sees -/

/-- Where the message that `rx` is in, or is about to begin, starts in the
stream, and its payload so far. -/
def Trace.opening (t : Trace) (rx : Receiver) : Nat × List UInt8 :=
  t.message (rx.state ≠ .receiving)

theorem Trace.opening_receiving {t : Trace} {rx : Receiver} (h : rx.state = .receiving) :
    t.opening rx = (t.first, t.bytes) := by
  simp [opening, message, h]

/-- The trace after a call that popped `count` slots, read off its result. -/
def Trace.observe (t : Trace) (rx : Receiver) (count : Nat) (result : Except Errno ReceiveProgress) :
    Trace :=
  let first := (t.opening rx).1
  let bytes := (t.opening rx).2
  let upto := t.position + count
  match result with
  | .ok progress =>
      if progress.complete then
        ⟨upto, first, [], t.outcomes ++ [⟨false, bytes ++ progress.output, first, upto⟩]⟩
      else if progress.consumedSlots = 0 then
        { t with position := upto }
      else
        ⟨upto, first, bytes ++ progress.output, t.outcomes⟩
  | .error e =>
      if e = .ECONNRESET then
        ⟨upto, first, [], t.outcomes ++ [⟨true, bytes, first, upto⟩]⟩
      else
        { t with position := upto }

theorem Trace.observe_position (t : Trace) (rx : Receiver) (count : Nat)
    (result : Except Errno ReceiveProgress) : (t.observe rx count result).position = t.position + count := by
  unfold Trace.observe
  cases result with
  | ok progress =>
      dsimp only
      split
      · rfl
      · split <;> rfl
  | error e =>
      dsimp only
      split <;> rfl

/-- A receiver and what its caller has seen of it. -/
structure Consumer where
  rx : Receiver
  log : Trace
  /-- errors returned so far, oldest first -/
  errors : List Errno

/-- The calls of a consumer. -/
inductive ReceiveCall where
  | peekMeta
  | tryRead (outputLen : Nat)

/-- The error of a call's result, if any. -/
def errorOf {α : Type} : Except Errno α → List Errno
  | .ok _ => []
  | .error e => [e]

namespace Consumer

/-- A receiver just initialised. -/
def init : Consumer := ⟨messageReceiverInit, .init, []⟩

/-- One call of the consumer on the ring memory. -/
def call (c : Consumer) (m : Ring) : ReceiveCall → Option (Consumer × Ring)
  | .peekMeta => do
      let ((rx, result), m') ← (messagePeekMeta ringProgram c.rx).run access m
      let position := c.log.position + (m'.head - m.head).toNat
      some (⟨rx, { c.log with position := position }, c.errors ++ errorOf result⟩, m')
  | .tryRead outputLen => do
      let ((rx, result), m') ← (messageTryRead ringProgram c.rx outputLen).run access m
      some (⟨rx, c.log.observe c.rx (m'.head - m.head).toNat result, c.errors ++ errorOf result⟩, m')

end Consumer

/-! ## the trace of what a receiver takes -/

section Taken

variable {rx rx' : Receiver} {slot : Slot} {frame : Frame} {transition : Transition}

/-- An accepted frame extends the receiver's message. -/
theorem Trace.step_of_examine (h : rx.examine slot = .ok (frame, transition)) (t : Trace) :
    t.step frame =
      if transition.aborted || transition.complete then
        ⟨t.position + 1, (t.opening rx).1, [], t.outcomes ++ [⟨transition.aborted,
          (t.opening rx).2 ++ frame.fragment, (t.opening rx).1, t.position + 1⟩]⟩
      else
        ⟨t.position + 1, (t.opening rx).1, (t.opening rx).2 ++ frame.fragment, t.outcomes⟩ := by
  obtain ⟨active, received, hbase, hcases⟩ := validateTransition_eq_ok.mp (Receiver.examine_eq_ok.mp h).2
  have hfirst : t.message frame.first = t.opening rx := by
    unfold Trace.opening
    cases hstate : rx.state with
    | idle => rw [((transitionBase_idle hstate).mp hbase).2.1]; rfl
    | receiving => rw [((transitionBase_receiving hstate).mp hbase).1]; rfl
    | failed e => simp [transitionBase, hstate] at hbase
  have hends : transition.aborted = frame.abort ∧ transition.complete = frame.last := by
    rcases hcases with ⟨habort, rfl⟩ | ⟨habort, -, -, rfl⟩
    · exact ⟨habort.symm, (Frame.abort_shape habort).2.1.symm⟩
    · exact ⟨habort.symm, rfl⟩
  rw [Trace.step_eq _ _ hfirst, hends.1, hends.2]

theorem Receiver.commit_state (h : rx.examine slot = .ok (frame, transition)) :
    (rx.commit transition).state =
      if transition.aborted || transition.complete then .idle else .receiving := by
  obtain ⟨active, received, hbase, ⟨-, rfl⟩ | ⟨-, -, -, rfl⟩⟩ :=
    validateTransition_eq_ok.mp (Receiver.examine_eq_ok.mp h).2
  · rfl
  · simp [Receiver.commit]

/-- Induction along a run of accepted slots. -/
theorem accepted_induct {P : Receiver → List Frame → Prop} {slots : List Slot} {more : List Frame}
    (hacc : slots.foldlM Receiver.accept rx = .ok rx') (hdec : Decodes slots more) (h₀ : P rx [])
    (hstep : ∀ {rx frames slot frame transition}, P rx frames →
      rx.examine slot = .ok (frame, transition) → P (rx.commit transition) (frames ++ [frame])) :
    P rx' more := by
  induction slots using List.reverseRecOn generalizing rx' more with
  | nil =>
      obtain rfl : more = [] := by simpa [Decodes] using hdec
      cases hacc
      exact h₀
  | append_singleton slots slot ih =>
      obtain ⟨rx₁, hacc₁, hslot⟩ := foldlM_snoc.mp hacc
      obtain ⟨init, frame, rfl, hinit, hframe⟩ := hdec.of_snoc
      obtain ⟨frame', transition, hex, rfl⟩ := Receiver.accept_iff_examine.mp hslot
      have heq := (Receiver.examine_eq_ok.mp hex).1
      rw [hframe, Except.ok.injEq] at heq
      subst heq
      exact hstep (ih hacc₁ hinit) hex

/-- The receiver's own account of a run of accepted slots. -/
theorem Takes.trace_eq {bytes : List UInt8} {slots : List Slot} (h : Takes rx bytes slots rx') :
    ∃ more, Decodes slots more ∧ slots.foldlM Receiver.accept rx = .ok rx' ∧
      (slots ≠ [] → rx'.state = .receiving) ∧
      ∀ t : Trace, (more.foldl Trace.step t).position = t.position + slots.length ∧
        (more.foldl Trace.step t).outcomes = t.outcomes ∧
        (more.foldl Trace.step t).opening rx' = ((t.opening rx).1, (t.opening rx).2 ++ bytes) := by
  induction h with
  | nil => exact ⟨[], rfl, rfl, fun h => absurd rfl h, fun t => ⟨rfl, rfl, by simp⟩⟩
  | @snoc rx₁ bytes slots slot frame transition h hex hc ha ih =>
      obtain ⟨more, hdec, hfold, -, htrace⟩ := ih
      have hframe := (Receiver.examine_eq_ok.mp hex).1
      have hrecv : (rx₁.commit transition).state = .receiving := by
        rw [Receiver.commit_state hex, ha, hc]
        rfl
      refine ⟨more ++ [frame], hdec.snoc hframe, foldlM_snoc.mpr ⟨rx₁, hfold, ?_⟩, fun _ => hrecv,
        fun t => ?_⟩
      · rw [Receiver.accept, hex]
      · obtain ⟨hpos, hout, hopen⟩ := htrace t
        rw [List.foldl_append, List.foldl_cons, List.foldl_nil, Trace.step_of_examine hex, ha, hc,
          Trace.opening_receiving hrecv, if_neg (by simp), hpos, hout, hopen, List.length_append,
          List.length_singleton, List.append_assoc, Nat.add_assoc]
        exact ⟨rfl, rfl, rfl⟩

/-- **Observation**: what the caller of `axivc_message_try_read` sees is the
trace of the slots it popped.  The receiver accepted all of them; it can only
have failed on the slot after them, having popped none. -/
theorem ReadResult.observe_eq {outputLen : Nat} {slots : List Slot} {seen : Option (Option Slot)}
    {result : Except Errno ReceiveProgress} (h : ReadResult rx outputLen slots seen rx' result)
    (hrx : rx.state ≠ .failed .ECONNRESET) :
    ∃ more rx₁, Decodes slots more ∧ slots.foldlM Receiver.accept rx = .ok rx₁ ∧
      (rx' = rx₁ ∨ (∀ e, rx.state ≠ .failed e) ∧ ∃ e slot, slots = [] ∧ seen = some (some slot) ∧
        rx.examine slot = .error e ∧ rx' = { rx with state := .failed e }) ∧
      ∀ t : Trace, t.observe rx slots.length result = more.foldl Trace.step t := by
  -- A call that ends without ending a message has seen what it took.
  have htakes {bytes : List UInt8} {slots : List Slot} {rx₁ : Receiver} (h : Takes rx bytes slots rx₁) :
      ∃ more, Decodes slots more ∧ slots.foldlM Receiver.accept rx = .ok rx₁ ∧
        ∀ t : Trace, t.observe rx slots.length (.ok ⟨bytes, slots.length, false⟩) =
          more.foldl Trace.step t := by
    obtain ⟨more, hdec, hfold, hrecv, htrace⟩ := h.trace_eq
    refine ⟨more, hdec, hfold, fun t => ?_⟩
    by_cases hnil : slots = []
    · subst hnil
      obtain rfl : more = [] := by simpa [Decodes] using hdec
      rfl
    · obtain ⟨hpos, hout, hopen⟩ := htrace t
      rw [Trace.opening_receiving (hrecv hnil), Prod.mk.injEq] at hopen
      have hlen : slots.length ≠ 0 := fun h => hnil (List.length_eq_zero_iff.mp h)
      simp only [Trace.observe, hlen, Bool.false_eq_true, if_false]
      rw [← hpos, ← hout, ← hopen.1, ← hopen.2]
  cases h with
  | failed he =>
      refine ⟨[], rx, rfl, rfl, .inl rfl, fun t => ?_⟩
      rw [Trace.observe, if_neg (by rintro rfl; exact hrx he)]
      rfl
  | empty _ ht =>
      obtain ⟨more, hdec, hfold, hobs⟩ := htakes ht
      exact ⟨more, _, hdec, hfold, .inl rfl, hobs⟩
  | deferred _ ht =>
      obtain ⟨more, hdec, hfold, hobs⟩ := htakes ht
      exact ⟨more, _, hdec, hfold, .inl rfl, hobs⟩
  | @complete bytes slots rx₁ slot frame transition hstate ht hex hc ha =>
      obtain ⟨more, hdec, hfold, -, htrace⟩ := ht.trace_eq
      refine ⟨more ++ [frame], rx₁.commit transition, hdec.snoc (Receiver.examine_eq_ok.mp hex).1,
        foldlM_snoc.mpr ⟨rx₁, hfold, by rw [Receiver.accept, hex]⟩, .inl rfl, fun t => ?_⟩
      obtain ⟨hpos, hout, hopen⟩ := htrace t
      rw [List.foldl_append, List.foldl_cons, List.foldl_nil, Trace.step_of_examine hex, ha, hc,
        if_pos (by rfl), hpos, hout, hopen, List.length_append, List.length_singleton]
      simp [Trace.observe, Nat.add_assoc]
  | @aborted slot frame transition hex ha =>
      obtain ⟨hframe, hval⟩ := Receiver.examine_eq_ok.mp hex
      have hnil : frame.fragment = [] := by
        obtain ⟨_, _, -, ⟨habort, -⟩ | ⟨-, -, -, rfl⟩⟩ := validateTransition_eq_ok.mp hval
        · exact (Frame.abort_shape habort).2.2
        · cases ha
      refine ⟨[frame], rx.commit transition, by simp [Decodes, hframe], ?_, .inl rfl, fun t => ?_⟩
      · rw [List.foldlM_cons, Receiver.accept, hex]
        rfl
      · rw [List.foldl_cons, List.foldl_nil, Trace.step_of_examine hex, ha, Bool.true_or, if_pos rfl, hnil,
          List.append_nil]
        rfl
  | short hex hlen => exact ⟨[], rx, rfl, rfl, .inl rfl, fun t => rfl⟩
  | protocol hstate hex =>
      refine ⟨[], rx, rfl, rfl, .inr ⟨hstate, _, _, rfl, rfl, hex, rfl⟩, fun t => ?_⟩
      rw [Trace.observe, if_neg]
      · rfl
      · rintro rfl
        rcases Receiver.examine_error hstate hex with h | h <;> cases h

end Taken

namespace Consumer

/-- **One call**: the consumer accepts the slots it pops, its caller sees
their trace, and if it fails then on the slot after them. -/
theorem call_spec {c : Consumer} {m : Ring} {n : Nat} {q : List Slot} (hm : m.Holds n q)
    (hc : c.rx.state ≠ .failed .ECONNRESET) (call : ReceiveCall) :
    ∃ c' m' slots q' more rx es, c.call m call = some (c', m') ∧ q = slots ++ q' ∧
      m'.Holds (n + slots.length) q' ∧ Decodes slots more ∧ c'.log = more.foldl Trace.step c.log ∧
      slots.foldlM Receiver.accept c.rx = .ok rx ∧
      (c'.rx = rx ∨ (∀ e, c.rx.state ≠ .failed e) ∧ ∃ e slot, slots = [] ∧ q.head? = some slot ∧
        c.rx.examine slot = .error e ∧ c'.rx = { c.rx with state := .failed e }) ∧
      c'.errors = c.errors ++ es ∧
      ∀ e ∈ es, e = .EMSGSIZE ∨ e = .ECONNRESET ∨ c'.rx.state = .failed e := by
  cases call with
  | peekMeta =>
      obtain ⟨rx', result, m', seen, hrun, hm', hhead, hseen, hresult⟩ := run_messagePeekMeta hm c.rx
      refine ⟨_, m', [], q, [], c.rx, errorOf result, by rw [call, hrun]; rfl, rfl, hm', rfl, ?_, rfl, ?_,
        rfl, ?_⟩
      · rw [hhead]
        rfl
      · cases hresult with
        | failed | receiving | empty | available => exact .inl rfl
        | protocol hidle hex => exact .inr ⟨by simp [hidle], _, _, rfl, (hseen _ rfl).symm, hex, rfl⟩
      · cases hresult with
        | failed he => simp [errorOf, he]
        | protocol => simp [errorOf]
        | receiving | empty | available => simp [errorOf]
  | tryRead outputLen =>
      obtain ⟨rx', result, m', slots, seen, q', hrun, hq, hm', hhead, hseen, hresult⟩ :=
        run_messageTryRead hm c.rx outputLen
      obtain ⟨more, rx₁, hdec, hfold, hrx, hobs⟩ := hresult.observe_eq hc
      refine ⟨_, m', slots, q', more, rx₁, errorOf result, by rw [call, hrun]; rfl, hq, hm', hdec, ?_,
        hfold, ?_, rfl, ?_⟩
      · rw [hhead]
        exact hobs c.log
      · rcases hrx with rfl | ⟨hstate, e, slot, rfl, hs, hex, rfl⟩
        · exact .inl rfl
        · refine .inr ⟨hstate, e, slot, rfl, ?_, hex, rfl⟩
          rw [hq]
          exact (hseen _ hs).symm
      · cases hresult with
        | failed he => simp [errorOf, he]
        | protocol => simp [errorOf]
        | aborted | short | empty | deferred | complete => simp [errorOf]

/-- A failed receiver answers every call with its error and touches nothing. -/
theorem call_failed {c : Consumer} {e : Errno} (hc : c.rx.state = .failed e) (he : e ≠ .ECONNRESET)
    (m : Ring) (call : ReceiveCall) : c.call m call = some ({ c with errors := c.errors ++ [e] }, m) := by
  have hzero : (m.head - m.head).toNat = 0 := by simp
  obtain ⟨rx, log, errors⟩ := c
  cases call with
  | peekMeta =>
      simp only at hc
      simp [Consumer.call, messagePeekMeta, hc, errorOf]
  | tryRead outputLen =>
      simp only at hc
      simp [Consumer.call, messageTryRead, processAvailableSlots, hc, errorOf, Trace.observe, he]

end Consumer

/-! ## arbitrary slots -/

/-- A ring that somebody fills with slots of any content, and its consumer. -/
structure Intake where
  ring : Ring
  consumer : Consumer
  /-- slots placed in the ring so far, oldest first -/
  placed : List Slot

/-- What may happen next: a slot is offered to the ring, or the consumer
makes a call. -/
inductive IntakeEvent where
  | place (slot : Slot)
  | call (call : ReceiveCall)

/-- The events that are calls of the consumer. -/
def IntakeEvent.isCall : IntakeEvent → Bool
  | .place _ => false
  | .call _ => true

namespace Intake

def init (ring : Ring) : Intake := ⟨ring, .init, []⟩

/-- One event.  A slot offered to a full ring is not placed. -/
def step (s : Intake) : IntakeEvent → Option Intake
  | .place slot => do
      let (ok, ring) ← (ringTryPushSlot slot).run access s.ring
      some { s with ring := ring, placed := if ok then s.placed ++ [slot] else s.placed }
  | .call call => do
      let (consumer, ring) ← s.consumer.call s.ring call
      some { s with ring := ring, consumer := consumer }

/-- A run of events. -/
def run (s : Intake) (events : List IntakeEvent) : Option Intake := events.foldlM step s

/-- The number of slots popped so far. -/
def popped (s : Intake) : Nat := s.consumer.log.position

/-- The receiver has accepted the popped slots, its caller has seen their
trace, and it has failed, if at all, on the slot after them. -/
structure Inv (s : Intake) : Prop where
  popped_le : s.popped ≤ s.placed.length
  holds : s.ring.Holds s.popped (s.placed.drop s.popped)
  accepted : ∃ frames rx, Decodes (s.placed.take s.popped) frames ∧
    (s.placed.take s.popped).foldlM Receiver.accept messageReceiverInit = .ok rx ∧
    s.consumer.log = trace frames ∧
    (s.consumer.rx = rx ∨ ∃ e slot, s.placed[s.popped]? = some slot ∧ rx.examine slot = .error e ∧
      s.consumer.rx = { rx with state := .failed e })

theorem init_inv (direction : UInt32) : (init (.initial direction)).Inv :=
  ⟨Nat.le_refl _, Ring.initial_holds direction, [], messageReceiverInit, rfl, rfl, rfl, .inl rfl⟩

/-- A receiver that has accepted everything has not failed. -/
theorem accepted_not_failed {slots : List Slot} {rx : Receiver}
    (h : slots.foldlM Receiver.accept messageReceiverInit = .ok rx) (e : Errno) : rx.state ≠ .failed e := by
  obtain ⟨frames, -, hframes⟩ := foldlM_accept_iff.mp h
  obtain ⟨done, opened, -, hparsed⟩ := parsed_of_accepted hframes
  rcases hparsed.state with ⟨hidle, -⟩ | ⟨hrecv, -⟩
  · simp [hidle]
  · simp [hrecv]

/-- The errors a receiver of arbitrary slots fails with. -/
theorem Inv.failed_error {s : Intake} (h : s.Inv) {e : Errno} (hrx : s.consumer.rx.state = .failed e) :
    e = .EPROTO ∨ e = .EPROTONOSUPPORT := by
  obtain ⟨frames, rx, -, hacc, -, rfl | ⟨e', slot, -, hex, heq⟩⟩ := h.accepted
  · exact absurd hrx (accepted_not_failed hacc e)
  · rw [heq] at hrx
    cases hrx
    exact Receiver.examine_error (accepted_not_failed hacc) hex

/-- **Step**: every event keeps the invariant. -/
theorem Inv.step {s : Intake} (h : s.Inv) (event : IntakeEvent) :
    ∃ s', s.step event = some s' ∧ s'.Inv := by
  obtain ⟨frames, rx, hdec, hacc, hlog, hrx⟩ := h.accepted
  have hpos : s.popped = frames.length := by rw [popped, hlog, trace_position]
  cases event with
  | place slot =>
      have hrun := run_ringProgram (.push slot) s.ring
      by_cases hfull : (s.placed.drop s.popped).length = ringCapacity
      · rw [h.holds.step_push_full hfull] at hrun
        exact ⟨s, by rw [Intake.step, show (ringTryPushSlot slot).run access s.ring = _ from hrun]; rfl, h⟩
      · have hroom := h.holds.length_le
        obtain ⟨m', hstep, hm'⟩ := h.holds.step_push (by omega) slot
        rw [hstep] at hrun
        refine ⟨_, by rw [Intake.step, show (ringTryPushSlot slot).run access s.ring = _ from hrun]; rfl, ?_⟩
        have hle := h.popped_le
        have htake : (s.placed ++ [slot]).take s.popped = s.placed.take s.popped :=
          List.take_append_of_le_length hle
        refine ⟨by simp [popped] at hle ⊢; omega, ?_, frames, rx, ?_, ?_, hlog, ?_⟩
        · change m'.Holds s.popped ((s.placed ++ [slot]).drop s.popped)
          rw [List.drop_append_of_le_length hle]
          exact hm'
        · exact (congrArg (Decodes · frames) htake).mpr hdec
        · exact (congrArg (List.foldlM Receiver.accept messageReceiverInit) htake).trans hacc
        · rcases hrx with hrx | ⟨e, x, hx, hex, hrx⟩
          · exact .inl hrx
          · refine .inr ⟨e, x, ?_, hex, hrx⟩
            rw [← hx]
            exact List.getElem?_append_left (List.getElem?_eq_some_iff.mp hx).1
  | call call =>
      rcases hrx with hrx | ⟨e, x, hx, hex, hrx⟩
      · obtain ⟨c', m', slots, q', more, rx₁, es, hcall, hq, hm', hdec', hlog', hfold, hrx', -, -⟩ :=
          Consumer.call_spec h.holds (by rw [hrx]; exact accepted_not_failed hacc _) call
        refine ⟨⟨m', c', s.placed⟩, by rw [Intake.step, hcall]; rfl, ?_⟩
        have hmore := hdec'.length_eq
        have hlog'' : c'.log = trace (frames ++ more) := by rw [hlog', hlog, trace_append]
        have hpos' : (⟨m', c', s.placed⟩ : Intake).popped = s.popped + slots.length := by
          rw [popped, hlog'', trace_position, List.length_append, hmore, hpos]
        have hlen := congrArg List.length hq
        rw [List.length_drop, List.length_append] at hlen
        have htake : s.placed.take (s.popped + slots.length) = s.placed.take s.popped ++ slots := by
          rw [List.take_add, hq, List.take_left]
        have hdrop : s.placed.drop (s.popped + slots.length) = q' := by
          rw [← List.drop_drop, hq, List.drop_left]
        have hle := h.popped_le
        refine ⟨by rw [hpos']; simp only; omega, by rw [hpos', hdrop]; exact hm', frames ++ more, rx₁, ?_, ?_,
          hlog'', ?_⟩
        · rw [hpos', htake]
          exact hdec.append hdec'
        · rw [hpos', htake, List.foldlM_append, hacc]
          rw [hrx] at hfold
          exact hfold
        · rcases hrx' with hrx' | ⟨-, e, x, rfl, hx, hex, hrx'⟩
          · exact .inl hrx'
          · cases hfold
            refine .inr ⟨e, x, ?_, hex, hrx'⟩
            rw [hpos', List.length_nil, Nat.add_zero, ← List.head?_drop]
            exact hx
      · have hne : e ≠ .ECONNRESET := by
          rcases h.failed_error (e := e) (by rw [hrx]) with rfl | rfl <;> simp
        have hcall := Consumer.call_failed (c := s.consumer) (by rw [hrx]) hne s.ring call
        exact ⟨⟨s.ring, { s.consumer with errors := s.consumer.errors ++ [e] }, s.placed⟩,
          by rw [Intake.step, hcall]; rfl, h.popped_le, h.holds, frames, rx, hdec, hacc, hlog,
          .inr ⟨e, x, hx, hex, hrx⟩⟩

/-- **Run**: the invariant holds after any events. -/
theorem Inv.run {s : Intake} (h : s.Inv) (events : List IntakeEvent) :
    ∃ s', s.run events = some s' ∧ s'.Inv :=
  run_steps (fun _ event h => h.step event) events h

/-- A prefix of a prefix of the grammar is one. -/
theorem viable_take {slots : List Slot} {k n : Nat} (hkn : k ≤ n) (h : Viable (slots.take n)) :
    Viable (slots.take k) := by
  obtain ⟨rx, hacc⟩ := (accepts_iff_viable _).mpr h
  have hsplit : slots.take n = slots.take k ++ (slots.drop k).take (n - k) := by
    rw [← List.take_add, Nat.add_sub_cancel' hkn]
  rw [hsplit, List.foldlM_append] at hacc
  refine (accepts_iff_viable _).mp ?_
  cases hk : (slots.take k).foldlM Receiver.accept messageReceiverInit with
  | error e =>
      rw [hk] at hacc
      cases hacc
  | ok rx₁ => exact ⟨rx₁, rfl⟩

/-- The slot a receiver failed on is not part of any word. -/
theorem Inv.not_viable {s : Intake} (h : s.Inv) {e : Errno} (hrx : s.consumer.rx.state = .failed e) :
    ∃ slot, s.placed[s.popped]? = some slot ∧ ¬ Viable (s.placed.take (s.popped + 1)) := by
  obtain ⟨frames, rx, -, hacc, -, rfl | ⟨e', slot, hslot, hex, -⟩⟩ := h.accepted
  · exact absurd hrx (accepted_not_failed hacc e)
  · refine ⟨slot, hslot, fun hv => ?_⟩
    obtain ⟨rx', hacc'⟩ := (accepts_iff_viable _).mpr hv
    rw [List.take_add_one, hslot, Option.toList_some] at hacc'
    obtain ⟨rx₁, hacc₁, hslot'⟩ := foldlM_snoc.mp hacc'
    rw [hacc] at hacc₁
    cases hacc₁
    rw [Receiver.accept, hex] at hslot'
    cases hslot'

/-- With room for a whole fragment, a call that pops nothing has found the
ring empty or has failed. -/
theorem Inv.stops {s s' : Intake} (h : s.Inv) {outputLen : Nat} (hlen : fragmentCapacity ≤ outputLen)
    (hstep : s.step (.call (.tryRead outputLen)) = some s') (hpop : s'.popped = s.popped) :
    s.popped = s.placed.length ∨ ∃ e, s'.consumer.rx.state = .failed e := by
  obtain ⟨rx', result, m', slots, seen, q', hrun, hq, hm', hhead, hseen, hresult⟩ :=
    run_messageTryRead h.holds s.consumer.rx outputLen
  rw [Intake.step, Consumer.call, hrun] at hstep
  cases hstep
  have hle := h.popped_le
  have hempty (hs : slots = []) (hn : seen = some none) : s.popped = s.placed.length := by
    subst hs
    have hnil : s.placed.drop s.popped = [] := by
      rw [hq, List.nil_append]
      exact List.head?_eq_none_iff.mp (hseen _ hn).symm
    have := congrArg List.length hnil
    rw [List.length_drop, List.length_nil] at this
    omega
  have hnil : slots = [] := by
    have hpos := Trace.observe_position s.consumer.log s.consumer.rx (m'.head - s.ring.head).toNat result
    rw [hhead] at hpos
    have hsame : (s.consumer.log.observe s.consumer.rx (m'.head - s.ring.head).toNat result).position =
        s.consumer.log.position := hpop
    rw [hhead] at hsame
    exact List.length_eq_zero_iff.mp (by omega)
  cases hresult with
  | failed he => exact .inr ⟨_, he⟩
  | protocol => exact .inr ⟨_, rfl⟩
  | short hex hl =>
      next frame _ =>
        have := frame.fragment_le
        omega
  | empty => exact .inl (hempty hnil rfl)
  | deferred _ _ hne => exact absurd hnil hne
  | complete => simp at hnil
  | aborted => simp at hnil

/-- A failed receiver stays as it is, whatever comes. -/
theorem Inv.run_failed {s : Intake} (h : s.Inv) {e : Errno} (hrx : s.consumer.rx.state = .failed e)
    (events : List IntakeEvent) :
    ∃ s', s.run events = some s' ∧ s'.consumer.rx = s.consumer.rx ∧ s'.popped = s.popped ∧
      s'.consumer.errors = s.consumer.errors ++ List.replicate (events.filter (·.isCall)).length e := by
  induction events generalizing s with
  | nil => exact ⟨s, rfl, rfl, rfl, by simp⟩
  | cons event events ih =>
      obtain ⟨s₁, hstep, h₁⟩ := h.step event
      have hrun (s' : Intake) (hr : s₁.run events = some s') : s.run (event :: events) = some s' := by
        rw [Intake.run, List.foldlM_cons, hstep]
        exact hr
      cases event with
      | place slot =>
          have hsame : s₁.consumer = s.consumer := by
            rw [Intake.step, show (ringTryPushSlot slot).run access s.ring = _ from
              run_ringProgram (.push slot) s.ring] at hstep
            cases hstep
            rfl
          obtain ⟨s', hr, hrx', hpop, herr⟩ := ih h₁ (by rw [hsame, hrx])
          rw [hsame] at hrx' herr
          exact ⟨s', hrun s' hr, hrx', by rw [hpop, popped, hsame, popped], herr⟩
      | call call =>
          have hne : e ≠ .ECONNRESET := by
            rcases h.failed_error hrx with rfl | rfl <;> simp
          rw [Intake.step, Consumer.call_failed hrx hne] at hstep
          cases hstep
          obtain ⟨s', hr, hrx', hpop, herr⟩ := ih h₁ hrx
          refine ⟨s', hrun s' hr, hrx', hpop, ?_⟩
          rw [herr]
          simp [List.replicate_succ, IntakeEvent.isCall]

end Intake

/-- **The receiver accepts exactly the Message V1 grammar.**  Let arbitrary
slots be placed in an initialised ring, at any time, and let the consumer
make any calls.  Then every call returns, and at every point

* the popped slots decode to a prefix of `(Message | Aborted)*`, and the
  messages and resets reported so far, with their bytes, are those of the
  frames, the bytes delivered since being the payload of the open message;
* a read with room for a fragment that pops nothing has popped the longest
  such prefix, and has failed if a slot is left;
* once the receiver has failed, the slot after the popped ones is still at
  the head of the ring and continues no word; and every later call returns
  the same error and pops nothing. -/
theorem receiver_accepts_grammar (direction : UInt32) (events : List IntakeEvent) :
    ∃ s, (Intake.init (.initial direction)).run events = some s ∧
      Viable (s.placed.take s.popped) ∧
      (∃ done opened, Decodes (s.placed.take s.popped) (done ++ opened) ∧
        Word s.consumer.log.outcomes done ∧ s.consumer.log.bytes = payload opened ∧
        (opened = [] ∨ ∃ msg, Opening msg opened)) ∧
      (∀ outputLen, fragmentCapacity ≤ outputLen →
        ∃ s', s.step (.call (.tryRead outputLen)) = some s' ∧ (s'.popped = s.popped →
          (∀ n, n ≤ s.placed.length → Viable (s.placed.take n) → n ≤ s.popped) ∧
          (s.popped < s.placed.length → ∃ e, s'.consumer.rx.state = .failed e))) ∧
      ∀ e, s.consumer.rx.state = .failed e →
        (∃ slot, (ringProgram .peek).run access s.ring = some (some slot, s.ring) ∧
          s.placed[s.popped]? = some slot ∧ ¬ Viable (s.placed.take (s.popped + 1))) ∧
        ∀ more, ∃ s', s.run more = some s' ∧ s'.consumer.rx = s.consumer.rx ∧ s'.popped = s.popped ∧
          s'.consumer.errors = s.consumer.errors ++ List.replicate (more.filter (·.isCall)).length e := by
  obtain ⟨s, hrun, hinv⟩ := (Intake.init_inv direction).run events
  obtain ⟨frames, rx, hdec, hacc, hlog, -⟩ := hinv.accepted
  refine ⟨s, hrun, (accepts_iff_viable _).mp ⟨rx, hacc⟩, ?_, fun outputLen hlen => ?_, fun e he => ⟨?_, ?_⟩⟩
  · obtain ⟨frames', hdec', hframes⟩ := foldlM_accept_iff.mp hacc
    obtain ⟨done, opened, hsplit, hparsed⟩ := parsed_of_accepted hframes
    have hsame : frames' = frames := hdec'.unique hdec
    refine ⟨done, opened, by rw [hsplit]; exact hdec', ?_, ?_, ?_⟩
    · rw [hlog, ← hsame, ← hsplit]
      exact hparsed.word
    · rw [hlog, ← hsame, ← hsplit]
      exact hparsed.bytes
    · rcases hparsed.state with ⟨-, hnil⟩ | ⟨-, hopening, -⟩
      · exact .inl hnil
      · exact .inr ⟨_, hopening⟩
  · obtain ⟨s', hstep, hinv'⟩ := hinv.step (.call (.tryRead outputLen))
    refine ⟨s', hstep, fun hpop => ?_⟩
    have hplaced : s'.placed = s.placed := by
      cases hcall : s.consumer.call s.ring (.tryRead outputLen) with
      | none =>
          rw [Intake.step, hcall] at hstep
          cases hstep
      | some r =>
          rw [Intake.step, hcall] at hstep
          cases hstep
          rfl
    rcases hinv.stops hlen hstep hpop with hall | ⟨e, he⟩
    · exact ⟨fun n hn _ => by omega, fun hlt => by omega⟩
    · obtain ⟨slot, -, hnv⟩ := hinv'.not_viable he
      rw [hpop, hplaced] at hnv
      refine ⟨fun n hn hv => ?_, fun _ => ⟨e, he⟩⟩
      by_contra hlt
      exact hnv (Intake.viable_take (by omega) hv)
  · obtain ⟨slot, hslot, hnv⟩ := hinv.not_viable he
    refine ⟨slot, ?_, hslot, hnv⟩
    rw [run_ringProgram, hinv.holds.step_peek, List.head?_drop, hslot]
  · exact hinv.run_failed he

end Axivc
