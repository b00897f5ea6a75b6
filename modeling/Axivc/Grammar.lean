import Axivc.Receiver
import Mathlib.Data.List.Induction

/-!
# Axivc.Grammar

The grammar of AxVisor IV Message V1, and the receiver's state machine as an
acceptor of it.

A stream of frames is a sequence of messages and aborted messages.  A message
is one FIRST frame, then frames without FIRST of the same id and length, the
last of which carries LAST, with as many payload bytes as the length says; an
aborted message is such a start cut off by an ABORT frame of the same id and
length.  `Word` says this of whole lists of frames, without any state.

`Receiver.acceptFrame` is the state machine, one frame at a time.
`accepts_iff_viable` relates the two: it gets through a list of frames exactly
when the list can be completed to a word of the grammar.

`Trace` is the bookkeeping on top: which messages a stream of frames contains
and where each of them lies, whatever the frames' ids and lengths.
-/

namespace Axivc

/-- The end of a message on one side of the ring: the payload it carried, the
positions in the stream of its first slot and after its last slot, and
whether it was aborted. -/
structure Outcome where
  aborted : Bool
  bytes : List UInt8
  first : Nat
  upto : Nat
  deriving DecidableEq

/-! ## the grammar -/

/-- The payload of a list of frames. -/
def payload (frames : List Frame) : List UInt8 := frames.flatMap Frame.fragment

/-- Frames that carry data of the message `msg`, from its FIRST frame on. -/
structure Belongs (msg : MessageMeta) (frames : List Frame) : Prop where
  starts : ∃ frame rest, frames = frame :: rest ∧ frame.first = true ∧ ∀ f ∈ rest, f.first = false
  same : ∀ f ∈ frames, f.messageId = msg.id ∧ f.messageLen = msg.len ∧ f.abort = false

/-- A message that has begun and not ended. -/
structure Opening (msg : MessageMeta) (frames : List Frame) : Prop where
  belongs : Belongs msg frames
  not_last : ∀ f ∈ frames, f.last = false
  total_le : (payload frames).length ≤ msg.len.toNat

/-- One whole message. -/
def IsMessage (frames : List Frame) : Prop :=
  ∃ msg init last, frames = init ++ [last] ∧ Belongs msg frames ∧ (∀ f ∈ init, f.last = false) ∧
    last.last = true ∧ (payload frames).length = msg.len.toNat

/-- A message cut off by an ABORT frame of its own. -/
def IsAborted (frames : List Frame) : Prop :=
  ∃ msg init last, frames = init ++ [last] ∧ Opening msg init ∧ last.abort = true ∧
    last.messageId = msg.id ∧ last.messageLen = msg.len

/-- `(Message | Aborted)*`, with what the messages carry. -/
inductive Word : List Outcome → List Frame → Prop where
  | nil : Word [] []
  | message {outcomes : List Outcome} {frames more : List Frame} : Word outcomes frames →
      IsMessage more →
      Word (outcomes ++ [⟨false, payload more, frames.length, frames.length + more.length⟩])
        (frames ++ more)
  | aborted {outcomes : List Outcome} {frames more : List Frame} : Word outcomes frames →
      IsAborted more →
      Word (outcomes ++ [⟨true, payload more, frames.length, frames.length + more.length⟩])
        (frames ++ more)

/-- The slots decode to the frames. -/
def Decodes (slots : List Slot) (frames : List Frame) : Prop :=
  slots.map decodeFrame = frames.map .ok

/-- The slots decode to a prefix of `(Message | Aborted)*`. -/
def Viable (slots : List Slot) : Prop :=
  ∃ frames more outcomes, Decodes slots frames ∧ Word outcomes (frames ++ more)

/-! ## the acceptor -/

namespace Receiver

/-- Validate a frame and commit to it. -/
def acceptFrame (rx : Receiver) (frame : Frame) : Except Errno Receiver :=
  match validateTransition rx frame with
  | .error e => .error e
  | .ok transition => .ok (rx.commit transition)

/-- Decode and validate a slot and commit to it. -/
def accept (rx : Receiver) (slot : Slot) : Except Errno Receiver :=
  match rx.examine slot with
  | .error e => .error e
  | .ok (_, transition) => .ok (rx.commit transition)

theorem acceptFrame_eq_ok {rx rx' : Receiver} {frame : Frame} :
    rx.acceptFrame frame = .ok rx' ↔
      ∃ transition, validateTransition rx frame = .ok transition ∧ rx' = rx.commit transition := by
  unfold acceptFrame
  cases validateTransition rx frame <;> simp [eq_comm]

theorem accept_eq_ok {rx rx' : Receiver} {slot : Slot} :
    rx.accept slot = .ok rx' ↔ ∃ frame, decodeFrame slot = .ok frame ∧ rx.acceptFrame frame = .ok rx' := by
  unfold accept acceptFrame examine
  cases decodeFrame slot with
  | error e => simp
  | ok frame =>
      simp only [Except.ok.injEq, exists_eq_left']
      cases validateTransition rx frame <;> rfl

theorem accept_iff_examine {rx rx' : Receiver} {slot : Slot} :
    rx.accept slot = .ok rx' ↔
      ∃ frame transition, rx.examine slot = .ok (frame, transition) ∧ rx' = rx.commit transition := by
  unfold accept
  cases rx.examine slot with
  | error e => simp
  | ok decision =>
      obtain ⟨frame, transition⟩ := decision
      simp [eq_comm]

end Receiver

/-- Accepting a list and then one more. -/
theorem foldlM_snoc {α β : Type} {f : β → α → Except Errno β} {b b' : β} {as : List α} {a : α} :
    (as ++ [a]).foldlM f b = .ok b' ↔ ∃ c, as.foldlM f b = .ok c ∧ f c a = .ok b' := by
  rw [List.foldlM_append]
  cases as.foldlM f b with
  | error e => simp [bind, Except.bind]
  | ok c =>
      simp only [bind, Except.bind, List.foldlM_cons, List.foldlM_nil, Except.ok.injEq, exists_eq_left']
      cases f c a <;> simp [pure, Except.pure]

theorem Decodes.length_eq {slots : List Slot} {frames : List Frame} (h : Decodes slots frames) :
    frames.length = slots.length := by
  simpa using (congrArg List.length h).symm

theorem Decodes.unique {slots : List Slot} {frames frames' : List Frame} (h : Decodes slots frames)
    (h' : Decodes slots frames') : frames = frames' := by
  have heq : frames.map (Except.ok (ε := Errno)) = frames'.map .ok := h.symm.trans h'
  exact List.map_injective_iff.mpr (fun _ _ h => Except.ok.inj h) heq

theorem Decodes.append {slots slots' : List Slot} {frames frames' : List Frame} (h : Decodes slots frames)
    (h' : Decodes slots' frames') : Decodes (slots ++ slots') (frames ++ frames') := by
  unfold Decodes at *
  rw [List.map_append, List.map_append, h, h']

theorem Decodes.snoc {slots : List Slot} {frames : List Frame} {slot : Slot} {frame : Frame}
    (h : Decodes slots frames) (hslot : decodeFrame slot = .ok frame) :
    Decodes (slots ++ [slot]) (frames ++ [frame]) :=
  h.append (by simp [Decodes, hslot])

theorem Decodes.of_snoc {slots : List Slot} {frames : List Frame} {slot : Slot}
    (h : Decodes (slots ++ [slot]) frames) :
    ∃ init frame, frames = init ++ [frame] ∧ Decodes slots init ∧ decodeFrame slot = .ok frame := by
  rw [Decodes, List.map_append, List.map_singleton] at h
  obtain ⟨init, last, rfl, hinit, hlast⟩ := List.map_eq_append_iff.mp h.symm
  obtain ⟨frame, rfl, hframe⟩ := List.map_eq_singleton_iff.mp hlast
  exact ⟨init, frame, rfl, hinit.symm, hframe.symm⟩

theorem Decodes.take {slots : List Slot} {frames : List Frame} (h : Decodes slots frames) (n : Nat) :
    Decodes (slots.take n) (frames.take n) := by
  unfold Decodes at *
  rw [List.map_take, List.map_take, h]

theorem Decodes.drop {slots : List Slot} {frames : List Frame} (h : Decodes slots frames) (n : Nat) :
    Decodes (slots.drop n) (frames.drop n) := by
  unfold Decodes at *
  rw [List.map_drop, List.map_drop, h]

/-- Accepting slots is accepting the frames they decode to. -/
theorem foldlM_accept_iff {slots : List Slot} {rx rx' : Receiver} :
    slots.foldlM Receiver.accept rx = .ok rx' ↔
      ∃ frames, Decodes slots frames ∧ frames.foldlM Receiver.acceptFrame rx = .ok rx' := by
  induction slots using List.reverseRecOn generalizing rx' with
  | nil => simp [Decodes, eq_comm]
  | append_singleton slots slot ih =>
      rw [foldlM_snoc]
      constructor
      · rintro ⟨rx₁, hslots, hslot⟩
        obtain ⟨frames, hdec, hframes⟩ := ih.mp hslots
        obtain ⟨frame, hframe, haccept⟩ := Receiver.accept_eq_ok.mp hslot
        exact ⟨frames ++ [frame], hdec.snoc hframe, foldlM_snoc.mpr ⟨rx₁, hframes, haccept⟩⟩
      · rintro ⟨frames, hdec, hframes⟩
        obtain ⟨init, frame, rfl, hinit, hframe⟩ := hdec.of_snoc
        obtain ⟨rx₁, hframes, haccept⟩ := foldlM_snoc.mp hframes
        exact ⟨rx₁, ih.mpr ⟨init, hinit, hframes⟩, Receiver.accept_eq_ok.mpr ⟨frame, hframe, haccept⟩⟩

/-! ## bookkeeping -/

/-- What a stream of frames has carried so far: the position reached, where
the latest message began, its payload so far, and the messages ended. -/
structure Trace where
  position : Nat
  first : Nat
  bytes : List UInt8
  outcomes : List Outcome

namespace Trace

def init : Trace := ⟨0, 0, [], []⟩

/-- Where the message of the next frame starts, and its payload so far: a
FIRST frame begins a message whatever came before it. -/
def message (t : Trace) (first : Bool) : Nat × List UInt8 :=
  if first then (t.position, []) else (t.first, t.bytes)

/-- One more frame; LAST and ABORT end the message. -/
def step (t : Trace) (frame : Frame) : Trace :=
  let (first, bytes) := t.message frame.first
  if frame.abort || frame.last then
    ⟨t.position + 1, first, [], t.outcomes ++ [⟨frame.abort, bytes ++ frame.fragment, first, t.position + 1⟩]⟩
  else
    ⟨t.position + 1, first, bytes ++ frame.fragment, t.outcomes⟩

theorem step_eq (t : Trace) (frame : Frame) {msg : Nat × List UInt8}
    (h : t.message frame.first = msg) : t.step frame =
      if frame.abort || frame.last then
        ⟨t.position + 1, msg.1, [], t.outcomes ++
          [⟨frame.abort, msg.2 ++ frame.fragment, msg.1, t.position + 1⟩]⟩
      else
        ⟨t.position + 1, msg.1, msg.2 ++ frame.fragment, t.outcomes⟩ := by
  rw [step, h]

end Trace

/-- The trace of a stream of frames. -/
def trace (frames : List Frame) : Trace := frames.foldl Trace.step Trace.init

theorem trace_append (frames more : List Frame) :
    trace (frames ++ more) = more.foldl Trace.step (trace frames) := List.foldl_append

theorem trace_snoc (frames : List Frame) (frame : Frame) :
    trace (frames ++ [frame]) = (trace frames).step frame := by
  rw [trace_append]
  rfl

theorem Trace.foldl_position (t : Trace) (frames : List Frame) :
    (frames.foldl Trace.step t).position = t.position + frames.length := by
  induction frames generalizing t with
  | nil => rfl
  | cons frame frames ih =>
      have hstep : (t.step frame).position = t.position + 1 := by
        rw [Trace.step_eq _ _ rfl]
        split <;> rfl
      rw [List.foldl_cons, ih, hstep, List.length_cons]
      omega

theorem Trace.outcomes_mono (t : Trace) (frames : List Frame) :
    t.outcomes <+: (frames.foldl Trace.step t).outcomes := by
  induction frames generalizing t with
  | nil => exact List.prefix_rfl
  | cons frame frames ih =>
      refine List.IsPrefix.trans ?_ (ih (t.step frame))
      rw [Trace.step_eq _ _ rfl]
      split
      · exact List.prefix_append _ _
      · exact List.prefix_rfl

theorem trace_position (frames : List Frame) : (trace frames).position = frames.length := by
  rw [trace, Trace.foldl_position]
  exact Nat.zero_add _

/-! ## accepted streams are prefixes of words -/

theorem payload_append (xs ys : List Frame) : payload (xs ++ ys) = payload xs ++ payload ys :=
  List.flatMap_append

theorem payload_singleton (frame : Frame) : payload [frame] = frame.fragment := by
  simp [payload]

theorem payload_length_snoc (opened : List Frame) (frame : Frame) :
    (payload (opened ++ [frame])).length = (payload opened).length + frame.fragment.length := by
  rw [payload_append, payload_singleton, List.length_append]

theorem Belongs.single {frame : Frame} (hfirst : frame.first = true) (habort : frame.abort = false) :
    Belongs ⟨frame.messageId, frame.messageLen⟩ [frame] :=
  ⟨⟨frame, [], rfl, hfirst, by simp⟩, by simp [habort]⟩

theorem Belongs.snoc {msg : MessageMeta} {frames : List Frame} {frame : Frame} (h : Belongs msg frames)
    (hfirst : frame.first = false) (hid : frame.messageId = msg.id) (hlen : frame.messageLen = msg.len)
    (habort : frame.abort = false) : Belongs msg (frames ++ [frame]) := by
  obtain ⟨f, rest, rfl, hf, hrest⟩ := h.starts
  refine ⟨⟨f, rest ++ [frame], rfl, hf, fun g hg => ?_⟩, fun g hg => ?_⟩
  · rcases List.mem_append.mp hg with hg | hg
    · exact hrest g hg
    · rw [List.mem_singleton.mp hg, hfirst]
  · rcases List.mem_append.mp hg with hg | hg
    · exact h.same g hg
    · rw [List.mem_singleton.mp hg]
      exact ⟨hid, hlen, habort⟩

/-- The receiver's record after a stream of frames that splits into whole
messages, `done`, and the begun one, `opened`. -/
structure Parsed (rx : Receiver) (done opened : List Frame) : Prop where
  word : Word (trace (done ++ opened)).outcomes done
  bytes : (trace (done ++ opened)).bytes = payload opened
  first : opened ≠ [] → (trace (done ++ opened)).first = done.length
  state : rx.state = .idle ∧ opened = [] ∨
    rx.state = .receiving ∧ Opening rx.active opened ∧ rx.received.toNat = (payload opened).length

namespace Parsed

variable {rx rx' : Receiver} {done opened : List Frame} {frame : Frame}

/-- Nothing has been accepted yet. -/
theorem of_idle (h : rx.state = .idle) : Parsed rx [] [] :=
  ⟨.nil, rfl, fun h => absurd rfl h, .inl ⟨h, rfl⟩⟩

/-- The trace after a frame that begins a message exactly when none is open. -/
theorem trace_snoc (h : Parsed rx done opened) (hfirst : frame.first = true ↔ opened = []) :
    trace (done ++ (opened ++ [frame])) =
      if frame.abort || frame.last then
        ⟨done.length + (opened ++ [frame]).length, done.length, [], (trace (done ++ opened)).outcomes ++
          [⟨frame.abort, payload (opened ++ [frame]), done.length, done.length + (opened ++ [frame]).length⟩]⟩
      else
        ⟨done.length + (opened ++ [frame]).length, done.length, payload (opened ++ [frame]),
          (trace (done ++ opened)).outcomes⟩ := by
  have hmessage : (trace (done ++ opened)).message frame.first = (done.length, payload opened) := by
    by_cases hopen : opened = []
    · rw [Trace.message, if_pos (hfirst.mpr hopen), trace_position, hopen, List.append_nil]
      rfl
    · rw [Trace.message, if_neg fun hf => hopen (hfirst.mp hf), h.first hopen, h.bytes]
  have hupto : (done ++ opened).length + 1 = done.length + (opened ++ [frame]).length := by
    simp only [List.length_append, List.length_singleton, Nat.add_assoc]
  rw [← List.append_assoc, Axivc.trace_snoc, Trace.step_eq _ _ hmessage, trace_position, hupto,
    payload_append, payload_singleton]

/-- A frame that ends the open message. -/
theorem ends (h : Parsed rx done opened) (hfirst : frame.first = true ↔ opened = [])
    (hend : (frame.abort || frame.last) = true) (hidle : rx'.state = .idle)
    (hword : if frame.abort then IsAborted (opened ++ [frame]) else IsMessage (opened ++ [frame])) :
    Parsed rx' (done ++ (opened ++ [frame])) [] := by
  have htrace := h.trace_snoc hfirst
  rw [if_pos hend] at htrace
  have hnil := List.append_nil (done ++ (opened ++ [frame]))
  refine ⟨?_, by rw [hnil, htrace]; rfl, fun h => absurd rfl h, .inl ⟨hidle, rfl⟩⟩
  rw [hnil, htrace]
  cases habort : frame.abort with
  | true =>
      rw [habort, if_pos rfl] at hword
      exact h.word.aborted hword
  | false =>
      rw [habort, if_neg (by simp)] at hword
      exact h.word.message hword

/-- A frame that keeps the message open. -/
theorem continues (h : Parsed rx done opened) (hfirst : frame.first = true ↔ opened = [])
    (habort : frame.abort = false) (hlast : frame.last = false) (hstate : rx'.state = .receiving)
    (hopen : Opening rx'.active (opened ++ [frame]))
    (hreceived : rx'.received.toNat = (payload (opened ++ [frame])).length) :
    Parsed rx' done (opened ++ [frame]) := by
  have htrace := h.trace_snoc hfirst
  rw [if_neg (by simp [habort, hlast])] at htrace
  refine ⟨?_, by rw [htrace], fun _ => by rw [htrace], .inr ⟨hstate, hopen, hreceived⟩⟩
  rw [htrace]
  exact h.word

/-- The frames a receiver is ready for: FIRST when idle, the rest of the
active message otherwise.  `opened` then belongs to the message `active` that
the frame belongs to. -/
theorem base (h : Parsed rx done opened) {active : MessageMeta} {received : UInt64}
    (hbase : transitionBase rx frame = .ok (active, received)) :
    (frame.first = true ↔ opened = []) ∧ received.toNat = (payload opened).length ∧
    (∀ f ∈ opened, f.last = false) ∧ frame.messageId = active.id ∧ frame.messageLen = active.len ∧
    (frame.abort = true → Opening active opened) ∧
    (frame.abort = false → Belongs active (opened ++ [frame])) := by
  rcases h.state with ⟨hidle, rfl⟩ | ⟨hrecv, hopening, hlen⟩
  · obtain ⟨habort, hfirst, heq⟩ := (transitionBase_idle hidle).mp hbase
    obtain ⟨rfl, rfl⟩ := Prod.mk.inj heq
    exact ⟨by simp [hfirst], rfl, by simp, rfl, rfl, by simp [habort], fun _ => .single hfirst habort⟩
  · obtain ⟨hfirst, hid, hmlen, heq⟩ := (transitionBase_receiving hrecv).mp hbase
    obtain ⟨rfl, rfl⟩ := Prod.mk.inj heq
    have hne : opened ≠ [] := by
      obtain ⟨f, rest, rfl, -⟩ := hopening.belongs.starts
      simp
    exact ⟨by simp [hfirst, hne], hlen, hopening.not_last, hid, hmlen, fun _ => hopening,
      fun habort => hopening.belongs.snoc hfirst hid hmlen habort⟩

section Steps

variable {transition : Transition}

/-- An accepted ABORT frame cuts off the open message. -/
theorem isAborted (h : Parsed rx done opened) (hval : validateTransition rx frame = .ok transition)
    (hab : transition.aborted = true) :
    (frame.first = true ↔ opened = []) ∧ frame.abort = true ∧ transition.nextState = .idle ∧
    IsAborted (opened ++ [frame]) := by
  obtain ⟨active, received, hbase, ⟨habort, rfl⟩ | ⟨-, -, -, rfl⟩⟩ := validateTransition_eq_ok.mp hval
  · obtain ⟨hfirst, -, -, hid, hlen, hopening, -⟩ := h.base hbase
    exact ⟨hfirst, habort, rfl, active, opened, frame, rfl, hopening habort, habort, hid, hlen⟩
  · cases hab

/-- An accepted LAST frame completes the open message. -/
theorem isMessage (h : Parsed rx done opened) (hval : validateTransition rx frame = .ok transition)
    (hc : transition.complete = true) :
    (frame.first = true ↔ opened = []) ∧ frame.abort = false ∧ frame.last = true ∧
    transition.nextState = .idle ∧ IsMessage (opened ++ [frame]) := by
  obtain ⟨active, received, hbase, ⟨-, rfl⟩ | ⟨habort, -, hlast, rfl⟩⟩ := validateTransition_eq_ok.mp hval
  · cases hc
  · obtain ⟨hfirst, hreceived, hnl, -, -, -, hbelongs⟩ := h.base hbase
    have hl : frame.last = true := hc
    refine ⟨hfirst, habort, hl, if_pos hl, active, opened, frame, rfl, hbelongs habort, hnl, hl, ?_⟩
    rw [payload_length_snoc, ← hreceived]
    exact hlast hl

/-- Any other accepted frame keeps the message open. -/
theorem snoc (h : Parsed rx done opened) (hval : validateTransition rx frame = .ok transition)
    (hc : transition.complete = false) (hab : transition.aborted = false) :
    Parsed (rx.commit transition) done (opened ++ [frame]) := by
  obtain ⟨active, received, hbase, ⟨-, rfl⟩ | ⟨habort, hle, -, rfl⟩⟩ := validateTransition_eq_ok.mp hval
  · cases hab
  · obtain ⟨hfirst, hreceived, hnl, -, -, -, hbelongs⟩ := h.base hbase
    have hl : frame.last = false := hc
    have htotal := payload_length_snoc opened frame
    refine h.continues hfirst habort hl ?_ ?_ ?_
    · simp [Receiver.commit, hl]
    · refine ⟨hbelongs habort, fun f hf => ?_, by rw [htotal, ← hreceived]; exact hle⟩
      rcases List.mem_append.mp hf with hf | hf
      · exact hnl f hf
      · rw [List.mem_singleton.mp hf, hl]
    · rw [htotal, ← hreceived]
      exact frame.toNat_add_fragment hle

end Steps

/-- **Step**: accepting a frame extends the parse. -/
theorem step (h : Parsed rx done opened) (haccept : rx.acceptFrame frame = .ok rx') :
    ∃ done' opened', done' ++ opened' = done ++ opened ++ [frame] ∧ Parsed rx' done' opened' := by
  obtain ⟨transition, hval, rfl⟩ := Receiver.acceptFrame_eq_ok.mp haccept
  have hassoc : done ++ opened ++ [frame] = done ++ (opened ++ [frame]) := List.append_assoc ..
  cases hab : transition.aborted with
  | true =>
      obtain ⟨hfirst, habort, hidle, hword⟩ := h.isAborted hval hab
      refine ⟨_, [], by rw [hassoc, List.append_nil], h.ends hfirst (by simp [habort]) hidle ?_⟩
      rwa [if_pos habort]
  | false =>
      cases hc : transition.complete with
      | true =>
          obtain ⟨hfirst, habort, hlast, hidle, hword⟩ := h.isMessage hval hc
          refine ⟨_, [], by rw [hassoc, List.append_nil], h.ends hfirst (by simp [hlast]) hidle ?_⟩
          rwa [if_neg (by simp [habort])]
      | false => exact ⟨done, opened ++ [frame], hassoc.symm, h.snoc hval hc hab⟩

end Parsed

/-- **Run**: what the receiver has accepted so far parses. -/
theorem parsed_of_accepted {frames : List Frame} {rx : Receiver}
    (h : frames.foldlM Receiver.acceptFrame messageReceiverInit = .ok rx) :
    ∃ done opened, done ++ opened = frames ∧ Parsed rx done opened := by
  induction frames using List.reverseRecOn generalizing rx with
  | nil =>
      cases h
      exact ⟨[], [], rfl, .of_idle rfl⟩
  | append_singleton frames frame ih =>
      obtain ⟨rx₁, hframes, hframe⟩ := foldlM_snoc.mp h
      obtain ⟨done, opened, rfl, hparsed⟩ := ih hframes
      exact hparsed.step hframe

/-! ## words are accepted -/

/-- The receiver has read the frames `opened` of the message `msg` and
nothing since. -/
def Within (rx : Receiver) (msg : MessageMeta) (opened : List Frame) : Prop :=
  rx.state = .idle ∧ opened = [] ∨
    rx.state = .receiving ∧ opened ≠ [] ∧ rx.active = msg ∧ rx.received.toNat = (payload opened).length

section Words

variable {msg : MessageMeta} {opened : List Frame} {frame : Frame} {rx : Receiver}

/-- Dropping the last frame of a message's frames. -/
theorem Belongs.of_snoc (h : Belongs msg (opened ++ [frame])) :
    (frame.first = true ∧ opened = []) ∨ (frame.first = false ∧ Belongs msg opened) := by
  obtain ⟨f, rest, heq, hfirst, hrest⟩ := h.starts
  cases opened with
  | nil =>
      obtain ⟨rfl, rfl⟩ := List.cons.inj heq
      exact .inl ⟨hfirst, rfl⟩
  | cons g opened =>
      obtain ⟨rfl, rfl⟩ := List.cons.inj heq
      refine .inr ⟨hrest frame (by simp), ⟨⟨g, opened, rfl, hfirst, fun f hf => hrest f (by simp [hf])⟩, ?_⟩⟩
      exact fun f hf => h.same f (by rw [List.cons_append]; simp at hf ⊢; tauto)

/-- The next frame of a message is accepted. -/
theorem accept_data (hrx : Within rx msg opened) (h : Belongs msg (opened ++ [frame]))
    (hle : (payload (opened ++ [frame])).length ≤ msg.len.toNat)
    (hlast : frame.last = true → (payload (opened ++ [frame])).length = msg.len.toNat) :
    ∃ rx', rx.acceptFrame frame = .ok rx' ∧
      if frame.last then rx'.state = .idle else Within rx' msg (opened ++ [frame]) := by
  obtain ⟨hid, hlen, habort⟩ := h.same frame (by simp)
  rw [payload_length_snoc] at hle hlast
  have hbase : ∃ received : UInt64, transitionBase rx frame = .ok (msg, received) ∧
      received.toNat = (payload opened).length := by
    rcases hrx with ⟨hidle, rfl⟩ | ⟨hrecv, hne, hactive, hreceived⟩
    · rcases h.of_snoc with ⟨hfirst, -⟩ | ⟨-, hb⟩
      · refine ⟨0, (transitionBase_idle hidle).mpr ⟨habort, hfirst, ?_⟩, rfl⟩
        rw [hid, hlen]
      · obtain ⟨_, _, heq, -⟩ := hb.starts
        cases heq
    · rcases h.of_snoc with ⟨-, hnil⟩ | ⟨hfirst, -⟩
      · exact absurd hnil hne
      · refine ⟨rx.received, (transitionBase_receiving hrecv).mpr ⟨hfirst, ?_, ?_, by rw [hactive]⟩, hreceived⟩
        · rw [hid, hactive]
        · rw [hlen, hactive]
  obtain ⟨received, hbase, hreceived⟩ := hbase
  rw [← hreceived] at hle hlast
  refine ⟨_, Receiver.acceptFrame_eq_ok.mpr ⟨_, validateTransition_eq_ok.mpr
    ⟨msg, received, hbase, .inr ⟨habort, hle, hlast, rfl⟩⟩, rfl⟩, ?_⟩
  cases hl : frame.last with
  | true => simp [Receiver.commit]
  | false =>
      refine .inr ⟨by simp [Receiver.commit], by simp, rfl, ?_⟩
      rw [payload_length_snoc, ← hreceived]
      exact frame.toNat_add_fragment hle

/-- A message's start is accepted. -/
theorem accept_opening {opened : List Frame} (hrx : rx.state = .idle) (h : Opening msg opened) :
    ∃ rx', opened.foldlM Receiver.acceptFrame rx = .ok rx' ∧ Within rx' msg opened := by
  induction opened using List.reverseRecOn with
  | nil => exact ⟨rx, rfl, .inl ⟨hrx, rfl⟩⟩
  | append_singleton opened frame ih =>
      have hlen := payload_length_snoc opened frame
      have hpre : ∃ rx', opened.foldlM Receiver.acceptFrame rx = .ok rx' ∧ Within rx' msg opened := by
        rcases h.belongs.of_snoc with ⟨-, rfl⟩ | ⟨-, hb⟩
        · exact ⟨rx, rfl, .inl ⟨hrx, rfl⟩⟩
        · have htotal := h.total_le
          exact ih ⟨hb, fun f hf => h.not_last f (by simp [hf]), by omega⟩
      obtain ⟨rx₁, hfold, hwithin⟩ := hpre
      have hnl : frame.last = false := h.not_last frame (by simp)
      obtain ⟨rx', haccept, hpost⟩ := accept_data hwithin h.belongs h.total_le (by simp [hnl])
      rw [hnl, if_neg (by simp)] at hpost
      exact ⟨rx', foldlM_snoc.mpr ⟨rx₁, hfold, haccept⟩, hpost⟩

/-- A whole message is accepted. -/
theorem accept_message {frames : List Frame} (hrx : rx.state = .idle) (h : IsMessage frames) :
    ∃ rx', frames.foldlM Receiver.acceptFrame rx = .ok rx' ∧ rx'.state = .idle := by
  obtain ⟨msg, init, last, rfl, hbelongs, hnl, hl, htotal⟩ := h
  have hlen := payload_length_snoc init last
  have hpre : ∃ rx', init.foldlM Receiver.acceptFrame rx = .ok rx' ∧ Within rx' msg init := by
    rcases hbelongs.of_snoc with ⟨-, rfl⟩ | ⟨-, hb⟩
    · exact ⟨rx, rfl, .inl ⟨hrx, rfl⟩⟩
    · exact accept_opening hrx ⟨hb, hnl, by omega⟩
  obtain ⟨rx₁, hfold, hwithin⟩ := hpre
  obtain ⟨rx', haccept, hpost⟩ := accept_data hwithin hbelongs (by omega) (fun _ => htotal)
  rw [hl, if_pos rfl] at hpost
  exact ⟨rx', foldlM_snoc.mpr ⟨rx₁, hfold, haccept⟩, hpost⟩

/-- An aborted message is accepted. -/
theorem accept_aborted {frames : List Frame} (hrx : rx.state = .idle) (h : IsAborted frames) :
    ∃ rx', frames.foldlM Receiver.acceptFrame rx = .ok rx' ∧ rx'.state = .idle := by
  obtain ⟨msg, init, last, rfl, hopening, habort, hid, hlen⟩ := h
  obtain ⟨rx₁, hfold, hwithin⟩ := accept_opening hrx hopening
  rcases hwithin with ⟨-, rfl⟩ | ⟨hrecv, -, rfl, -⟩
  · obtain ⟨_, _, heq, -⟩ := hopening.belongs.starts
    cases heq
  · have hbase : transitionBase rx₁ last = .ok (rx₁.active, rx₁.received) :=
      (transitionBase_receiving hrecv).mpr ⟨(Frame.abort_shape habort).1, hid, hlen, rfl⟩
    exact ⟨_, foldlM_snoc.mpr ⟨rx₁, hfold, Receiver.acceptFrame_eq_ok.mpr ⟨_, validateTransition_eq_ok.mpr
      ⟨_, _, hbase, .inl ⟨habort, rfl⟩⟩, rfl⟩⟩, rfl⟩

/-- A word of the grammar is accepted. -/
theorem accept_word {outcomes : List Outcome} {frames : List Frame} (h : Word outcomes frames) :
    ∃ rx, frames.foldlM Receiver.acceptFrame messageReceiverInit = .ok rx ∧ rx.state = .idle := by
  induction h with
  | nil => exact ⟨_, rfl, rfl⟩
  | message _ hmore ih =>
      obtain ⟨rx, hfold, hidle⟩ := ih
      obtain ⟨rx', hfold', hidle'⟩ := accept_message hidle hmore
      exact ⟨rx', by rw [List.foldlM_append, hfold]; exact hfold', hidle'⟩
  | aborted _ hmore ih =>
      obtain ⟨rx, hfold, hidle⟩ := ih
      obtain ⟨rx', hfold', hidle'⟩ := accept_aborted hidle hmore
      exact ⟨rx', by rw [List.foldlM_append, hfold]; exact hfold', hidle'⟩

end Words

/-- The ABORT frame that cuts off the message `msg`. -/
def abortFrame (msg : MessageMeta) (h : msg.id ≠ 0) : Frame where
  messageId := msg.id
  messageLen := msg.len
  first := false
  last := false
  abort := true
  fragment := []
  id_ne_zero := h
  fragment_le := Nat.zero_le _
  shape := rfl

/-- **Acceptance**: the receiver gets through the slots exactly when they
decode to a prefix of `(Message | Aborted)*`. -/
theorem accepts_iff_viable (slots : List Slot) :
    (∃ rx, slots.foldlM Receiver.accept messageReceiverInit = .ok rx) ↔ Viable slots := by
  constructor
  · rintro ⟨rx, h⟩
    obtain ⟨frames, hdec, hframes⟩ := foldlM_accept_iff.mp h
    obtain ⟨done, opened, rfl, hparsed⟩ := parsed_of_accepted hframes
    rcases hparsed.state with ⟨-, rfl⟩ | ⟨-, hopening, -⟩
    · exact ⟨_, [], _, hdec, by rw [List.append_nil, List.append_nil]; exact hparsed.word⟩
    · -- An open message can still be cut off.
      obtain ⟨f, rest, hcons, -⟩ := hopening.belongs.starts
      have hid : rx.active.id ≠ 0 := by
        rw [← (hopening.belongs.same f (by simp [hcons])).1]
        exact f.id_ne_zero
      have hword := hparsed.word.aborted
        ⟨rx.active, opened, abortFrame rx.active hid, rfl, hopening, rfl, rfl, rfl⟩
      rw [← List.append_assoc] at hword
      exact ⟨_, _, _, hdec, hword⟩
  · rintro ⟨frames, more, outcomes, hdec, hword⟩
    obtain ⟨rx, hfold, -⟩ := accept_word hword
    rw [List.foldlM_append] at hfold
    cases hframes : frames.foldlM Receiver.acceptFrame messageReceiverInit with
    | error e =>
        rw [hframes] at hfold
        cases hfold
    | ok rx₁ => exact ⟨rx₁, foldlM_accept_iff.mpr ⟨frames, hdec, hframes⟩⟩

end Axivc
