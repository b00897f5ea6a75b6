import Axivc.Lib.Rely
import Axivc.SendRuns

/-!
# Axivc.Demo

The two demo programs, `demo/publish` and `demo/subscribe`, running against
each other over the two rings of one region.

A ring is the bounded queue of `ring_refines_bounded_queue`.  A send pushes
the frames of its message one by one, as `fragmentation_canonical` says, and
waits while its ring is full; a receive finds no message or takes a whole one
out.  The publisher sends all requests before it receives anything, the
subscriber all data before it takes the first request: each may fill its ring
while the other is not reading yet.  `demo_deadlock_free_iff` says for which
lengths of the messages they cannot block each other.
-/

namespace Axivc

namespace Demo

open Prog Rely

/-! ## application messages -/

/-- `enum ivc_app_message_kind` -/
inductive AppKind where
  | request
  | ack
  | data
  deriving DecidableEq

/-- `IVC_APP_HEADER_LEN` -/
def appHeaderLen : Nat := 11

/-- `IVC_APP_MAX_MESSAGE_LEN` -/
def appMaxMessageLen : Nat := 7484

/-- `MAX_EMPTY_POLLS` -/
def maxEmptyPolls : Nat := 3000

/-- `ACK_BODY` -/
def ackBody : String := "ack from linux subscriber"

/-- A message of the demo protocol.  Its bytes are a function of these fields:
a request or data message has the pattern body, an ack has `ACK_BODY`. -/
structure AppMessage where
  kind : AppKind
  sequence : UInt64
  len : Nat
  deriving DecidableEq

/-- `ivc_app_encode_pattern` succeeds: the header and a `u16` body length fit. -/
def encodesPattern (len : Nat) : Bool := decide (appHeaderLen ≤ len) && decide (len - appHeaderLen ≤ 65535)

/-- `ivc_app_request_lengths` and `ivc_app_data_lengths`; every message fits in
the programs' payload buffers. -/
structure AppLengths where
  requests : List Nat
  data : List Nat
  fits : ∀ len ∈ requests ++ data, appHeaderLen ≤ len ∧ len ≤ appMaxMessageLen

/-- The tables of `app_proto.c`. -/
def appLengths : AppLengths where
  requests := [231, 232, 233, 7424, 7484]
  data := [233, 7425, 7484]
  fits := by decide

/-! ## sending and receiving -/

/-- The frames of a message of `len` bytes. -/
def slotCount (len : Nat) : Nat := (len + (fragmentCapacity - 1)) / fragmentCapacity

/-- That many frames a successful `axivc_send_message` pushes. -/
theorem length_of_canonical {id : UInt64} {buf : List UInt8} {slots : List Slot}
    (h : Canonical id buf slots) : slots.length = slotCount buf.length := h.count

/-- A slot on a ring: one frame of a message. -/
structure DemoSlot where
  message : AppMessage
  index : Nat

/-- The frames of a message, in order. -/
def fragments (m : AppMessage) : List DemoSlot := (List.range (slotCount m.len)).map (⟨m, ·⟩)

@[simp] theorem length_fragments (m : AppMessage) : (fragments m).length = slotCount m.len := by
  simp [fragments]

/-- What a process does to the rings: a push waits for room on the ring it
sends on, a pop for a slot on the ring it receives from. -/
inductive DemoOp where
  | push (slot : DemoSlot)
  | peek
  | pop

@[reducible] def demoIface : Iface where
  Op := DemoOp
  Res
    | .push _ => Unit
    | .peek => Option DemoSlot
    | .pop => DemoSlot

/-- Push frame after frame. -/
def pushSlots : List DemoSlot → Prog demoIface Unit
  | [] => .ret ()
  | slot :: slots => .act (.push slot) fun _ => pushSlots slots

/-- Take `n` slots out. -/
def popSlots : Nat → Prog demoIface Unit
  | 0 => .ret ()
  | n + 1 => .act .pop fun _ => popSlots n

/-- `ivc_publisher_send`, `ivc_subscriber_send` -/
def ivcSend (m : AppMessage) : Prog demoIface Unit := pushSlots (fragments m)

/-- `ivc_publisher_recv`, `ivc_subscriber_recv` with a buffer of
`IVC_APP_MAX_MESSAGE_LEN` bytes: `none` when there is no message. -/
def ivcRecv : Prog demoIface (Except Errno (Option AppMessage)) :=
  .act .peek fun front =>
    match front with
    | none => .ret (.ok none)
    | some slot =>
        if slot.message.len > appMaxMessageLen then .ret (.error .EMSGSIZE)
        else popSlots (slotCount slot.message.len) >>= fun _ => .ret (.ok (some slot.message))

/-! ## the programs -/

/-- Send a pattern message for each length of a table. -/
def sendPatterns (kind : AppKind) : List Nat → Nat → Prog demoIface Bool
  | [], _ => pure true
  | len :: lengths, index => do
      if encodesPattern len then
        ivcSend ⟨kind, .ofNat (index + 1), len⟩
        sendPatterns kind lengths (index + 1)
      else pure false

/-- `send_requests` -/
def sendRequests (lengths : List Nat) : Prog demoIface Bool := sendPatterns .request lengths 0

/-- `send_data_messages` -/
def sendDataMessages (lengths : List Nat) : Prog demoIface Bool := sendPatterns .data lengths 0

/-- `send_ack` -/
def sendAck (sequence : UInt64) : Prog demoIface Unit :=
  ivcSend ⟨.ack, sequence, appHeaderLen + ackBody.length⟩

/-- The polling part of both receive loops: the next message, or `none` when a
receive fails or too many in a row have found nothing. -/
def nextMessage : Nat → Prog demoIface (Option AppMessage)
  | 0 => ivcRecv >>= fun result =>
      match result with
      | .ok (some m) => .ret (some m)
      | _ => .ret none
  | polls + 1 => ivcRecv >>= fun result =>
      match result with
      | .ok (some m) => .ret (some m)
      | .ok none => nextMessage polls
      | .error _ => .ret none

/-- `receive_requests`, an ack after each -/
def receiveRequests : List Nat → Nat → Prog demoIface Bool
  | [], _ => pure true
  | len :: lengths, received => do
      match ← nextMessage maxEmptyPolls with
      | none => pure false
      | some m =>
          if m.kind = .request ∧ m.sequence = .ofNat (received + 1) ∧ m.len = len then do
            sendAck m.sequence
            receiveRequests lengths (received + 1)
          else pure false

/-- `receive_replies`: `acks` of them are left, from number `expectedAck` on,
and the data messages of lengths `data`, from number `expectedData` on. -/
def receiveReplies (acks expectedAck : Nat) (data : List Nat) (expectedData : Nat) : Prog demoIface Bool :=
  match acks with
  | 0 => pure true
  | acks + 1 => nextMessage maxEmptyPolls >>= fun found =>
      match found with
      | none => pure false
      | some m =>
          match m.kind with
          | .ack =>
              if m.sequence ≠ .ofNat expectedAck ∨ m.len ≠ appHeaderLen + ackBody.length then pure false
              -- the last ack comes after all data
              else if acks = 0 ∧ data ≠ [] then pure false
              else receiveReplies acks (expectedAck + 1) data expectedData
          | .data =>
              match data with
              | [] => pure false
              | len :: data =>
                  if m.sequence = .ofNat expectedData ∧ m.len = len then
                    receiveReplies (acks + 1) expectedAck data (expectedData + 1)
                  else pure false
          | .request => pure false
termination_by acks + data.length

/-- `demo/publish` between publishing and unpublishing the channel -/
def publishDemo (lengths : AppLengths) : Prog demoIface Bool := do
  if ← sendRequests lengths.requests then
    receiveReplies lengths.requests.length 1 lengths.data 1
  else pure false

/-- `demo/subscribe` between subscribing and unsubscribing -/
def subscribeDemo (lengths : AppLengths) : Prog demoIface Bool := do
  if ← sendDataMessages lengths.data then
    receiveRequests lengths.requests 0
  else pure false

/-! ## the two processes -/

/-- The two ends of the channel. -/
inductive DemoSide where
  | publisher
  | subscriber
  deriving DecidableEq

/-- The end a side talks to. -/
def DemoSide.other : DemoSide → DemoSide
  | .publisher => .subscriber
  | .subscriber => .publisher

/-- For each side the ring it sends on, whether it runs, and how many slots it
has pushed and popped. -/
structure DemoState where
  ring : DemoSide → List DemoSlot
  started : DemoSide → Bool
  pushed : DemoSide → Nat
  popped : DemoSide → Nat

namespace DemoState

/-- Both rings are empty. -/
def init : DemoState := ⟨fun _ => [], fun _ => false, fun _ => 0, fun _ => 0⟩

def push (s : DemoState) (i : DemoSide) (slot : DemoSlot) : DemoState :=
  { s with
    ring := Function.update s.ring i (s.ring i ++ [slot])
    pushed := Function.update s.pushed i (s.pushed i + 1) }

def pop (s : DemoState) (i : DemoSide) (rest : List DemoSlot) : DemoState :=
  { s with
    ring := Function.update s.ring i.other rest
    popped := Function.update s.popped i (s.popped i + 1) }

end DemoState

/-- Both programs, at single pushes and pops; neither push nor pop can be
performed before there is room or a slot. -/
def demoMachine (lengths : AppLengths) : Machine DemoSide demoIface DemoState Unit Bool where
  body side _ _ :=
    match side with
    | .publisher => publishDemo lengths
    | .subscriber => subscribeDemo lengths
  exec i o s r t :=
    match o, r with
    | .push slot, _ => (s.ring i).length < ringCapacity ∧ t = s.push i slot
    | .peek, r => r = (s.ring i.other).head? ∧ t = s
    | .pop, r => ∃ rest, s.ring i.other = r :: rest ∧ t = s.pop i rest
  start i _ s t := s.started i = false ∧ t = { s with started := Function.update s.started i true }
  finish _ _ s t := t = s
  env _ _ := False

abbrev DemoConfig := Config DemoSide demoIface DemoState Bool

/-- Side `i` is in a send, and the ring it sends on is full. -/
def Waits (c : DemoConfig) (i : DemoSide) : Prop :=
  (∃ slot k, c.thread i = some (.act (.push slot) k)) ∧ (c.shared.ring i).length = ringCapacity

/-- Both sides wait for the other to make room. -/
def Deadlocked (c : DemoConfig) : Prop := Waits c .publisher ∧ Waits c .subscriber

/-- Then nothing but a timeout can happen any more. -/
theorem Deadlocked.stuck {lengths : AppLengths} {c c' : DemoConfig} (h : Deadlocked c) :
    ¬ (demoMachine lengths).Step c c' := by
  have hwaits (i : DemoSide) : Waits c i := by
    cases i with
    | publisher => exact h.1
    | subscriber => exact h.2
  intro hstep
  cases hstep with
  | env he => exact he
  | start i call hi _ =>
      obtain ⟨⟨slot, k, hthread⟩, -⟩ := hwaits i
      rw [hthread] at hi
      cases hi
  | act i r hi he =>
      obtain ⟨⟨slot, k, hthread⟩, hfull⟩ := hwaits i
      rw [hthread] at hi
      cases hi
      exact absurd hfull (Nat.ne_of_lt he.1)
  | finish i hi _ =>
      obtain ⟨⟨slot, k, hthread⟩, -⟩ := hwaits i
      rw [hthread] at hi
      cases hi

/-! ## what a waiting side has done -/

section Outline

variable (lengths : AppLengths)

/-- All slots of the messages of a table. -/
def slotTotal (table : List Nat) : Nat := (table.map slotCount).sum

theorem slotTotal_append (table table' : List Nat) :
    slotTotal (table ++ table') = slotTotal table + slotTotal table' := by
  simp [slotTotal]

@[simp] theorem slotTotal_cons (len : Nat) (table : List Nat) :
    slotTotal (len :: table) = slotCount len + slotTotal table := by
  simp [slotTotal]

/-- A side that has pushed `pushed` slots and popped `popped` may be in a
send: the publisher has popped nothing and has requests left; the subscriber
is in its data messages and has popped nothing, or is in an ack and has popped
the requests up to it. -/
def Sends : DemoSide → Nat → Nat → Prop
  | .publisher, pushed, popped => popped = 0 ∧ pushed < slotTotal lengths.requests
  | .subscriber, pushed, popped => popped = slotTotal (lengths.requests.take (pushed + 1 - slotTotal lengths.data))

/-- What the other side leaves as it is. -/
def Kept (i : DemoSide) (s t : DemoState) : Prop :=
  t.started i = s.started i ∧ t.pushed i = s.pushed i ∧ t.popped i = s.popped i

/-- The slots on a ring are those pushed and not yet popped. -/
def Counts (s : DemoState) : Prop := ∀ i, (s.ring i).length + s.popped i.other = s.pushed i

def demoOutline : Machine.Outline (demoMachine lengths) where
  inv := Counts
  pre i o s :=
    match o with
    | .push _ => Sends lengths i (s.pushed i) (s.popped i)
    | _ => True
  rely := Kept
  guar i s t := ∀ j, j ≠ i → Kept j s t
  post i _ s := s.started i = true
  idle i s := s.started i = false → s.pushed i = 0 ∧ s.popped i = 0
  rely_refl _ _ := ⟨rfl, rfl, rfl⟩
  rely_trans _ _ _ _ h h' := ⟨h'.1.trans h.1, h'.2.1.trans h.2.1, h'.2.2.trans h.2.2⟩
  guar_rely hij _ h := h _ (Ne.symm hij)
  env_rely _ h := h.elim
  idle_stable h hr _ hs := by
    rw [hr.1] at hs
    rw [hr.2.1, hr.2.2]
    exact h hs
  finish_ok {i a s t} hi hp hf := by
    obtain rfl : t = s := hf
    refine ⟨hi, fun _ _ => ⟨rfl, rfl, rfl⟩, fun h => ?_⟩
    rw [show t.started i = true from hp] at h
    cases h

variable {lengths} {i : DemoSide} {s t : DemoState} {pushed popped : Nat}

/-- Side `i` runs, and has pushed and popped so many slots. -/
structure At (i : DemoSide) (pushed popped : Nat) (s : DemoState) : Prop where
  started : s.started i = true
  pushed_eq : s.pushed i = pushed
  popped_eq : s.popped i = popped

theorem At.stable (h : At i pushed popped s) (hr : Kept i s t) : At i pushed popped t :=
  ⟨hr.1.trans h.started, hr.2.1.trans h.pushed_eq, hr.2.2.trans h.popped_eq⟩

theorem Counts.push (h : Counts s) (i : DemoSide) (slot : DemoSlot) : Counts (s.push i slot) := by
  intro j
  have hj := h j
  by_cases hij : j = i
  · subst hij
    simp only [DemoState.push, Function.update_self, List.length_append, List.length_singleton]
    omega
  · simpa [DemoState.push, Function.update_of_ne hij] using hj

theorem Counts.pop (h : Counts s) {i : DemoSide} {slot : DemoSlot} {rest : List DemoSlot}
    (hring : s.ring i.other = slot :: rest) : Counts (s.pop i rest) := by
  intro j
  have hj := h j
  cases i <;> cases j <;> simp_all [DemoState.pop, DemoSide.other] <;> omega

/-- A send. -/
theorem safe_pushSlots {slots : List DemoSlot} (hs : At i pushed popped s)
    (hsends : ∀ n < slots.length, Sends lengths i (pushed + n) popped) :
    ((demoOutline lengths).view i).Safe (fun _ t => At i (pushed + slots.length) popped t) (pushSlots slots) s := by
  induction slots generalizing s pushed with
  | nil => exact fun t ht _ => hs.stable ht
  | cons slot slots ih =>
      intro t ht hi
      have ht' := hs.stable ht
      refine ⟨?_, fun _ u hu => ?_⟩
      · have hsend := hsends 0 (by simp)
        rw [← ht'.pushed_eq, ← ht'.popped_eq] at hsend
        exact hsend
      obtain ⟨-, rfl⟩ := hu
      refine ⟨Counts.push hi i slot, fun j hj => ⟨rfl, Function.update_of_ne hj .., rfl⟩, ?_⟩
      have hnext : At i (pushed + 1) popped (t.push i slot) :=
        ⟨ht'.started, by simp [DemoState.push, ht'.pushed_eq], ht'.popped_eq⟩
      have hrest := ih hnext fun n hn => by
        rw [Nat.add_assoc, Nat.add_comm 1 n]
        exact hsends (n + 1) (by simpa using hn)
      rw [List.length_cons, Nat.add_comm slots.length 1, ← Nat.add_assoc]
      exact hrest

/-- Taking slots out. -/
theorem safe_popSlots (n : Nat) (hs : At i pushed popped s) :
    ((demoOutline lengths).view i).Safe (fun _ t => At i pushed (popped + n) t) (popSlots n) s := by
  induction n generalizing s popped with
  | zero => exact fun t ht _ => hs.stable ht
  | succ n ih =>
      intro t ht hi
      have ht' := hs.stable ht
      refine ⟨trivial, fun slot u hu => ?_⟩
      obtain ⟨rest, hring, rfl⟩ := hu
      refine ⟨Counts.pop hi hring, fun j hj => ⟨rfl, rfl, Function.update_of_ne hj ..⟩, ?_⟩
      have hnext : At i pushed (popped + 1) (t.pop i rest) :=
        ⟨ht'.started, ht'.pushed_eq, by simp [DemoState.pop, ht'.popped_eq]⟩
      rw [Nat.add_comm n 1, ← Nat.add_assoc]
      exact ih hnext

/-- The slots of what a receive has found. -/
def taken : Option AppMessage → Nat
  | none => 0
  | some m => slotCount m.len

/-- A receive takes a whole message out, or nothing. -/
theorem safe_ivcRecv (hs : At i pushed popped s) :
    ((demoOutline lengths).view i).Safe
      (fun result t => At i pushed (popped + taken (result.toOption.getD none)) t) ivcRecv s := by
  intro t ht hi
  refine ⟨trivial, fun front u hu => ?_⟩
  obtain ⟨-, rfl⟩ := hu
  refine ⟨hi, fun _ _ => ⟨rfl, rfl, rfl⟩, ?_⟩
  have hu := hs.stable ht
  cases front with
  | none => exact fun v hv _ => hu.stable hv
  | some slot =>
      dsimp only
      split
      · exact fun v hv _ => hu.stable hv
      · refine View.Safe.bind ((safe_popSlots _ hu).mono fun _ v _ hv => ?_)
        exact fun w hw _ => hv.stable hw

theorem safe_nextMessage (polls : Nat) (hs : At i pushed popped s) :
    ((demoOutline lengths).view i).Safe (fun found t => At i pushed (popped + taken found) t) (nextMessage polls) s := by
  induction polls generalizing s with
  | zero =>
      refine View.Safe.bind ((safe_ivcRecv hs).mono fun result t _ ht => ?_)
      match result with
      | .ok (some m) => exact fun u hu _ => ht.stable hu
      | .ok none => exact fun u hu _ => ht.stable hu
      | .error e => exact fun u hu _ => ht.stable hu
  | succ polls ih =>
      refine View.Safe.bind ((safe_ivcRecv hs).mono fun result t _ ht => ?_)
      match result with
      | .ok (some m) => exact fun u hu _ => ht.stable hu
      | .ok none => exact ih ht
      | .error e => exact fun u hu _ => ht.stable hu

/-- Sending a table of messages. -/
theorem safe_sendPatterns (kind : AppKind) (table : List Nat) (index : Nat) (hs : At i pushed popped s)
    (hsends : ∀ n < slotTotal table, Sends lengths i (pushed + n) popped) :
    ((demoOutline lengths).view i).Safe (fun sent t => t.started i = true ∧
      (sent = true → At i (pushed + slotTotal table) popped t)) (sendPatterns kind table index) s := by
  induction table generalizing index pushed s with
  | nil => exact fun t ht _ => ⟨(hs.stable ht).started, fun _ => hs.stable ht⟩
  | cons len table ih =>
      rw [slotTotal_cons] at hsends ⊢
      rw [sendPatterns]
      split
      · refine View.Safe.bind ((safe_pushSlots hs fun n hn => hsends n ?_).mono fun _ t _ ht => ?_)
        · rw [length_fragments] at hn
          exact Nat.lt_add_right _ hn
        · rw [length_fragments] at ht
          dsimp only at ht
          have hrest := ih (index + 1) ht fun n hn => by
            rw [Nat.add_assoc]
            exact hsends _ (by omega)
          rw [Nat.add_assoc] at hrest
          exact hrest
      · exact fun t ht _ => ⟨(hs.stable ht).started, by simp⟩

/-- The publisher sends nothing while it receives. -/
theorem safe_receiveReplies (acks expectedAck : Nat) (data : List Nat) (expectedData : Nat)
    (hs : At .publisher pushed popped s) :
    ((demoOutline lengths).view .publisher).Safe (fun _ t => t.started .publisher = true)
      (receiveReplies acks expectedAck data expectedData) s := by
  have hstop {a : Bool} {popped : Nat} {s : DemoState} (hs : At .publisher pushed popped s) :
      ((demoOutline lengths).view .publisher).Safe (fun _ t => t.started .publisher = true) (.ret a) s :=
    fun t ht _ => (hs.stable ht).started
  fun_induction receiveReplies acks expectedAck data expectedData generalizing s popped with
  | case1 => exact hstop hs
  | case2 expectedAck data expectedData acks ihack ihdata =>
      refine View.Safe.bind ((safe_nextMessage _ hs).mono fun found t _ ht => ?_)
      cases found with
      | none => exact hstop ht
      | some m =>
          dsimp only
          cases m.kind with
          | request => exact hstop ht
          | ack =>
              dsimp only
              split
              · exact hstop ht
              · split
                · exact hstop ht
                · exact ihack ht
          | data =>
              cases data with
              | nil => exact hstop ht
              | cons len data =>
                  dsimp only
                  split
                  · exact ihdata ht
                  · exact hstop ht

/-- An ack is one slot. -/
theorem slotCount_ack : slotCount (appHeaderLen + ackBody.length) = 1 := by decide

theorem slotTotal_take_succ {table : List Nat} {n len : Nat} {rest : List Nat} (h : table.drop n = len :: rest) :
    slotTotal (table.take (n + 1)) = slotTotal (table.take n) + slotCount len := by
  have hget : table[n]? = some len := by rw [← List.head?_drop, h, List.head?_cons]
  simp [slotTotal, List.take_add_one, hget]

/-- The subscriber acknowledges a request when it has taken out all up to
it. -/
theorem safe_receiveRequests {table : List Nat} {received : Nat} (htable : lengths.requests.drop received = table)
    (hs : At .subscriber (slotTotal lengths.data + received) (slotTotal (lengths.requests.take received)) s) :
    ((demoOutline lengths).view .subscriber).Safe (fun _ t => t.started .subscriber = true)
      (receiveRequests table received) s := by
  induction table generalizing received s with
  | nil => exact fun t ht _ => (hs.stable ht).started
  | cons len table ih =>
      refine View.Safe.bind ((safe_nextMessage _ hs).mono fun found t _ ht => ?_)
      cases found with
      | none => exact fun u hu _ => (ht.stable hu).started
      | some m =>
          dsimp only
          split
          · next hvalid =>
              rw [taken, hvalid.2.2, ← slotTotal_take_succ htable] at ht
              refine View.Safe.bind ((safe_pushSlots ht fun n hn => ?_).mono fun _ u _ hu => ?_)
              · obtain rfl : n = 0 := by
                  rw [length_fragments, slotCount_ack] at hn
                  omega
                rw [Sends, show slotTotal lengths.data + received + 0 + 1 - slotTotal lengths.data = received + 1 by omega]
              · rw [length_fragments, slotCount_ack, Nat.add_assoc] at hu
                refine ih ?_ hu
                rw [← List.drop_drop, htable, List.drop_one, List.tail_cons]
          · exact fun u hu _ => (ht.stable hu).started

theorem demo_starts : (demoOutline lengths).Starts := by
  rintro i call s t hi hidle ⟨hnot, rfl⟩
  refine ⟨hi, fun j hj => ⟨Function.update_of_ne hj .., rfl, rfl⟩, ?_⟩
  obtain ⟨hpushed, hpopped⟩ := hidle hnot
  have hat : At i 0 0 { s with started := Function.update s.started i true } :=
    ⟨Function.update_self .., hpushed, hpopped⟩
  cases i with
  | publisher =>
      refine View.Safe.bind ((safe_sendPatterns .request _ 0 hat fun n hn => ?_).mono fun sent t _ ht => ?_)
      · exact ⟨rfl, by rwa [Nat.zero_add]⟩
      · cases sent with
        | false => exact fun u hu _ => hu.1.trans ht.1
        | true => exact safe_receiveReplies _ _ _ _ (ht.2 rfl)
  | subscriber =>
      refine View.Safe.bind ((safe_sendPatterns .data _ 0 hat fun n hn => ?_).mono fun sent t _ ht => ?_)
      · rw [Sends, show 0 + n + 1 - slotTotal lengths.data = 0 by omega]
        rfl
      · cases sent with
        | false => exact fun u hu _ => hu.1.trans ht.1
        | true =>
            have hsent := ht.2 rfl
            rw [Nat.zero_add] at hsent
            exact safe_receiveRequests List.drop_zero hsent

/-- When both wait, what the subscriber has not taken yet is more than a ring
holds. -/
theorem Deadlocked.backlog {c : DemoConfig} (hc : (demoMachine lengths).Reachable .init c) (h : Deadlocked c) :
    ringCapacity < slotTotal (lengths.requests.drop (ringCapacity + 1 - slotTotal lengths.data)) := by
  have hgood := (demoOutline lengths).good demo_starts (fun _ => rfl) (fun _ _ => ⟨rfl, rfl⟩) hc
  obtain ⟨⟨⟨slot, k, hp⟩, hpfull⟩, ⟨slot', k', hs⟩, hsfull⟩ := h
  obtain ⟨hnone, hmore⟩ : Sends lengths .publisher _ _ := hgood.pre hp
  have htaken : Sends lengths .subscriber _ _ := hgood.pre hs
  have hpring := hgood.1 .publisher
  have hsring := hgood.1 .subscriber
  rw [DemoSide.other, hpfull] at hpring
  rw [DemoSide.other, hsfull, hnone, Nat.add_zero] at hsring
  rw [Sends, ← hsring] at htaken
  have hsplit : slotTotal (lengths.requests.take (ringCapacity + 1 - slotTotal lengths.data)) +
      slotTotal (lengths.requests.drop (ringCapacity + 1 - slotTotal lengths.data)) = slotTotal lengths.requests := by
    rw [← slotTotal_append, List.take_append_drop]
  omega

end Outline

/-! ## the way into a deadlock -/

section Reach

variable {lengths : AppLengths} {P Q : Prog demoIface Bool} {xs ys : List DemoSlot}

/-- A value for each side. -/
def both {α : Type} (p q : α) : DemoSide → α
  | .publisher => p
  | .subscriber => q

@[simp] theorem update_both_publisher {α : Type} (p q p' : α) :
    Function.update (both p q) .publisher p' = both p' q := by
  funext i
  cases i <;> simp [both]

@[simp] theorem update_both_subscriber {α : Type} (p q q' : α) :
    Function.update (both p q) .subscriber q' = both p q' := by
  funext i
  cases i <;> simp [both]

/-- Some interleaving leads to where the publisher has `P` left and the
subscriber `Q`, with `xs` on the ring to the subscriber and `ys` on the ring
to the publisher. -/
def Reaches (lengths : AppLengths) (P Q : Prog demoIface Bool) (xs ys : List DemoSlot) : Prop :=
  ∃ s, (demoMachine lengths).Reachable .init ⟨s, both (some P) (some Q)⟩ ∧ s.ring = both xs ys

theorem Reaches.begin (lengths : AppLengths) : Reaches lengths (publishDemo lengths) (subscribeDemo lengths) [] [] := by
  have hquiet : (demoMachine lengths).Reachable .init (Machine.quiet .init) := .refl
  have hpublisher := hquiet.start .publisher () rfl ⟨rfl, rfl⟩
  have hboth := hpublisher.start .subscriber () rfl ⟨rfl, rfl⟩
  have hthreads : Function.update (Function.update (fun _ => none) .publisher (some (publishDemo lengths)))
      .subscriber (some (subscribeDemo lengths)) = both (some (publishDemo lengths)) (some (subscribeDemo lengths)) := by
    funext i
    cases i <;> simp [both]
  refine ⟨_, hthreads ▸ hboth, ?_⟩
  funext i
  cases i <;> rfl

theorem Reaches.publisher_push {x : DemoSlot} {k : Unit → Prog demoIface Bool}
    (h : Reaches lengths (.act (.push x) k) Q xs ys) (hroom : xs.length < ringCapacity) :
    Reaches lengths (k ()) Q (xs ++ [x]) ys := by
  obtain ⟨s, hs, hring⟩ := h
  have hexec : (demoMachine lengths).exec .publisher (.push x) s () (s.push .publisher x) :=
    ⟨by rw [hring]; exact hroom, rfl⟩
  have hstep := hs.act .publisher () rfl hexec
  rw [update_both_publisher] at hstep
  refine ⟨_, hstep, ?_⟩
  simp only [DemoState.push, hring, update_both_publisher]
  rfl

theorem Reaches.subscriber_push {y : DemoSlot} {k : Unit → Prog demoIface Bool}
    (h : Reaches lengths P (.act (.push y) k) xs ys) (hroom : ys.length < ringCapacity) :
    Reaches lengths P (k ()) xs (ys ++ [y]) := by
  obtain ⟨s, hs, hring⟩ := h
  have hexec : (demoMachine lengths).exec .subscriber (.push y) s () (s.push .subscriber y) :=
    ⟨by rw [hring]; exact hroom, rfl⟩
  have hstep := hs.act .subscriber () rfl hexec
  rw [update_both_subscriber] at hstep
  refine ⟨_, hstep, ?_⟩
  simp only [DemoState.push, hring, update_both_subscriber]
  rfl

theorem Reaches.subscriber_peek {x : DemoSlot} {k : Option DemoSlot → Prog demoIface Bool}
    (h : Reaches lengths P (.act .peek k) (x :: xs) ys) : Reaches lengths P (k (some x)) (x :: xs) ys := by
  obtain ⟨s, hs, hring⟩ := h
  have hexec : (demoMachine lengths).exec .subscriber .peek s (some x) s := by
    refine ⟨?_, rfl⟩
    rw [hring]
    rfl
  have hstep := hs.act .subscriber (some x) rfl hexec
  rw [update_both_subscriber] at hstep
  exact ⟨s, hstep, hring⟩

theorem Reaches.subscriber_pop {x : DemoSlot} {k : DemoSlot → Prog demoIface Bool}
    (h : Reaches lengths P (.act .pop k) (x :: xs) ys) : Reaches lengths P (k x) xs ys := by
  obtain ⟨s, hs, hring⟩ := h
  have hexec : (demoMachine lengths).exec .subscriber .pop s x (s.pop .subscriber xs) := by
    refine ⟨xs, ?_, rfl⟩
    rw [hring]
    rfl
  have hstep := hs.act .subscriber x rfl hexec
  rw [update_both_subscriber] at hstep
  refine ⟨_, hstep, ?_⟩
  simp [DemoState.pop, hring, DemoSide.other]

/-- The publisher pushes while there is room. -/
theorem Reaches.publisher_pushSlots {zs : List DemoSlot} {k : Unit → Prog demoIface Bool}
    (h : Reaches lengths (pushSlots zs >>= k) Q xs ys) (hroom : xs.length + zs.length ≤ ringCapacity) :
    Reaches lengths (k ()) Q (xs ++ zs) ys := by
  induction zs generalizing xs with
  | nil =>
      rw [List.append_nil]
      exact h
  | cons z zs ih =>
      rw [List.length_cons] at hroom
      have hnext := ih (h.publisher_push (by omega)) (by simp only [List.length_append, List.length_singleton]; omega)
      simpa using hnext

/-- The subscriber pushes while there is room. -/
theorem Reaches.subscriber_pushSlots {zs : List DemoSlot} {k : Unit → Prog demoIface Bool}
    (h : Reaches lengths P (pushSlots zs >>= k) xs ys) (hroom : ys.length + zs.length ≤ ringCapacity) :
    Reaches lengths P (k ()) xs (ys ++ zs) := by
  induction zs generalizing ys with
  | nil =>
      rw [List.append_nil]
      exact h
  | cons z zs ih =>
      rw [List.length_cons] at hroom
      have hnext := ih (h.subscriber_push (by omega)) (by simp only [List.length_append, List.length_singleton]; omega)
      simpa using hnext

/-- The publisher pushes, and the subscriber takes out what it has pushed. -/
theorem Reaches.relay {zs : List DemoSlot} {k k' : Unit → Prog demoIface Bool}
    (h : Reaches lengths (pushSlots zs >>= k) (popSlots zs.length >>= k') [] ys) :
    Reaches lengths (k ()) (k' ()) [] ys := by
  induction zs with
  | nil => exact h
  | cons z zs ih => exact ih (h.publisher_push (by decide)).subscriber_pop

/-- A receive that finds a slot takes out the message of it. -/
theorem nextMessage_bind (polls : Nat) (k : Option AppMessage → Prog demoIface Bool) :
    ∃ g, (nextMessage polls >>= k) = .act .peek g ∧ ∀ slot : DemoSlot, slot.message.len ≤ appMaxMessageLen →
      g (some slot) = popSlots (slotCount slot.message.len) >>= fun _ => k (some slot.message) := by
  cases polls with
  | zero | succ =>
      refine ⟨_, rfl, fun slot hlen => ?_⟩
      change ((ite (slot.message.len > appMaxMessageLen) _ _ >>= _) >>= k) = _
      rw [if_neg (Nat.not_lt.mpr hlen), Prog.bind_assoc, Prog.bind_assoc]
      rfl

/-- The publisher sends a message to the subscriber, which waits for one. -/
theorem Reaches.message {m : AppMessage} (hpos : 0 < slotCount m.len) (hlen : m.len ≤ appMaxMessageLen)
    {polls : Nat} {k : Unit → Prog demoIface Bool} {k' : Option AppMessage → Prog demoIface Bool}
    (h : Reaches lengths (ivcSend m >>= k) (nextMessage polls >>= k') [] ys) :
    Reaches lengths (k ()) (k' (some m)) [] ys := by
  obtain ⟨n, hn⟩ := Nat.exists_eq_succ_of_ne_zero (Nat.pos_iff_ne_zero.mp hpos)
  obtain ⟨rest, hrest⟩ : ∃ rest, fragments m = ⟨m, 0⟩ :: rest := by
    rw [fragments, hn, List.range_succ_eq_map]
    exact ⟨_, rfl⟩
  have hcount : slotCount m.len = rest.length + 1 := by rw [← length_fragments, hrest, List.length_cons]
  obtain ⟨g, hg, hfound⟩ := nextMessage_bind polls k'
  rw [ivcSend, hrest, hg] at h
  have hpeeked := (h.publisher_push (by decide)).subscriber_peek
  rw [hfound _ hlen, hcount] at hpeeked
  exact hpeeked.subscriber_pop.relay

theorem pushSlots_append (xs ys : List DemoSlot) :
    pushSlots (xs ++ ys) = pushSlots xs >>= fun _ => pushSlots ys := by
  induction xs with
  | nil => rfl
  | cons x xs ih => exact congrArg (Prog.act (DemoOp.push x)) (funext fun _ => ih)

/-- The slots of the messages of a table. -/
def patternSlots (kind : AppKind) : List Nat → Nat → List DemoSlot
  | [], _ => []
  | len :: table, index => fragments ⟨kind, .ofNat (index + 1), len⟩ ++ patternSlots kind table (index + 1)

@[simp] theorem length_patternSlots (kind : AppKind) (table : List Nat) (index : Nat) :
    (patternSlots kind table index).length = slotTotal table := by
  induction table generalizing index with
  | nil => rfl
  | cons len table ih => simp [patternSlots, ih]

/-- A table of messages that fit is sent slot after slot. -/
theorem sendPatterns_eq (kind : AppKind) {table : List Nat}
    (hfits : ∀ len ∈ table, appHeaderLen ≤ len ∧ len ≤ appMaxMessageLen) (index : Nat) :
    sendPatterns kind table index = pushSlots (patternSlots kind table index) >>= fun _ => .ret true := by
  induction table generalizing index with
  | nil => rfl
  | cons len table ih =>
      have hlen := hfits len List.mem_cons_self
      have hencodes : encodesPattern len = true := by
        simp only [encodesPattern, Bool.and_eq_true, decide_eq_true_eq]
        have hmax : appMaxMessageLen = 7484 := rfl
        omega
      rw [sendPatterns, if_pos hencodes, ih (fun l hl => hfits l (List.mem_cons_of_mem _ hl)), patternSlots,
        pushSlots_append, Prog.bind_assoc]
      rfl

/-- The publisher fills its ring while the subscriber waits for room on the
other. -/
theorem Reaches.deadlock {zs : List DemoSlot} {y : DemoSlot} {k k' : Unit → Prog demoIface Bool}
    (h : Reaches lengths (pushSlots zs >>= k) (.act (.push y) k') [] ys) (hzs : ringCapacity < zs.length)
    (hys : ys.length = ringCapacity) : ∃ c, (demoMachine lengths).Reachable .init c ∧ Deadlocked c := by
  obtain ⟨z, ws, hdrop⟩ := List.exists_cons_of_length_pos (l := zs.drop ringCapacity) (by
    rw [List.length_drop]
    omega)
  have htake : (zs.take ringCapacity).length = ringCapacity := by
    rw [List.length_take]
    omega
  rw [← List.take_append_drop ringCapacity zs, pushSlots_append, Prog.bind_assoc, hdrop] at h
  obtain ⟨s, hs, hring⟩ := h.publisher_pushSlots (by rw [List.length_nil, htake, Nat.zero_add])
  refine ⟨_, hs, ⟨⟨z, _, rfl⟩, ?_⟩, ⟨y, k', rfl⟩, ?_⟩
  · rw [hring]
    exact htake
  · rw [hring]
    exact hys

/-- From where the subscriber receives, with `ys` on its ring: the acks fill
it up, then the publisher fills its own. -/
theorem Reaches.requests_deadlock {table : List Nat}
    (hfits : ∀ len ∈ table, appHeaderLen ≤ len ∧ len ≤ appMaxMessageLen) {index : Nat}
    {k : Unit → Prog demoIface Bool}
    (h : Reaches lengths (pushSlots (patternSlots .request table index) >>= k) (receiveRequests table index) [] ys)
    (hys : ys.length ≤ ringCapacity)
    (hback : ringCapacity < slotTotal (table.drop (ringCapacity + 1 - ys.length))) :
    ∃ c, (demoMachine lengths).Reachable .init c ∧ Deadlocked c := by
  induction table generalizing index ys with
  | nil =>
      rw [List.drop_nil] at hback
      exact absurd hback (by decide)
  | cons len table ih =>
      have hlen := hfits len List.mem_cons_self
      have hpos : 0 < slotCount len := by
        have hcap : fragmentCapacity = 232 := rfl
        have hheader : appHeaderLen = 11 := rfl
        rw [slotCount, hcap]
        omega
      rw [patternSlots, pushSlots_append, Prog.bind_assoc] at h
      have hreceived := h.message hpos hlen.2
      dsimp only at hreceived
      rw [if_pos ⟨rfl, rfl, rfl⟩] at hreceived
      -- The subscriber is about to acknowledge.
      obtain ⟨ack, hack⟩ : ∃ ack, fragments ⟨.ack, .ofNat (index + 1), appHeaderLen + ackBody.length⟩ = [ack] := by
        rw [← List.length_eq_one_iff, length_fragments, slotCount_ack]
      rw [sendAck, ivcSend, hack] at hreceived
      have hdrop : (len :: table).drop (ringCapacity + 1 - ys.length) = table.drop (ringCapacity - ys.length) := by
        rw [Nat.sub_add_comm hys, List.drop_succ_cons]
      rw [hdrop] at hback
      by_cases hfull : ys.length = ringCapacity
      · rw [hfull, Nat.sub_self, List.drop_zero] at hback
        exact hreceived.deadlock (by rw [length_patternSlots]; exact hback) hfull
      · refine ih (fun l hl => hfits l (List.mem_cons_of_mem _ hl))
          (hreceived.subscriber_push (Nat.lt_of_le_of_ne hys hfull)) ?_ ?_
        · rw [List.length_append, List.length_singleton]
          omega
        · rw [List.length_append, List.length_singleton, Nat.add_sub_add_right]
          exact hback

/-- **The way into a deadlock**, when what the subscriber has not taken by the
time its ring is full is more than the other ring holds. -/
theorem demo_deadlocks
    (h : ringCapacity < slotTotal (lengths.requests.drop (ringCapacity + 1 - slotTotal lengths.data))) :
    ∃ c, (demoMachine lengths).Reachable .init c ∧ Deadlocked c := by
  have hrequests : ∀ len ∈ lengths.requests, appHeaderLen ≤ len ∧ len ≤ appMaxMessageLen :=
    fun len hlen => lengths.fits len (List.mem_append_left _ hlen)
  have hdata : ∀ len ∈ lengths.data, appHeaderLen ≤ len ∧ len ≤ appMaxMessageLen :=
    fun len hlen => lengths.fits len (List.mem_append_right _ hlen)
  have hbegin := Reaches.begin lengths
  rw [publishDemo, sendRequests, sendPatterns_eq _ hrequests, subscribeDemo, sendDataMessages,
    sendPatterns_eq _ hdata, Prog.bind_assoc, Prog.bind_assoc] at hbegin
  by_cases hmany : slotTotal lengths.data ≤ ringCapacity
  · -- All data fit; the acks fill the ring up.
    have hsent := hbegin.subscriber_pushSlots (by
      rw [length_patternSlots, List.length_nil]
      omega)
    refine hsent.requests_deadlock hrequests ?_ ?_
    · rw [List.nil_append, length_patternSlots]
      exact hmany
    · rw [List.nil_append, length_patternSlots]
      exact h
  · -- The data fill the ring before the subscriber receives anything.
    rw [Nat.sub_eq_zero_of_le (by omega), List.drop_zero] at h
    obtain ⟨y, ws, hdrop⟩ :=
      List.exists_cons_of_length_pos (l := (patternSlots .data lengths.data 0).drop ringCapacity) (by
        rw [List.length_drop, length_patternSlots]
        omega)
    have htake : ((patternSlots .data lengths.data 0).take ringCapacity).length = ringCapacity := by
      rw [List.length_take, length_patternSlots]
      omega
    rw [← List.take_append_drop ringCapacity (patternSlots .data lengths.data 0), pushSlots_append, Prog.bind_assoc,
      hdrop] at hbegin
    have hfilled := hbegin.subscriber_pushSlots (by rw [htake, List.length_nil, Nat.zero_add])
    exact hfilled.deadlock (by rw [length_patternSlots]; exact h) htake

/-- **When the demo programs cannot block each other.**  For any tables of
messages that fit, no interleaving leads both into a send on a full ring if and
only if the requests that the subscriber has not taken by the time its ring is
full, `ringCapacity + 1` slots less its data into its acks, fit on the ring
that the publisher sends on. -/
theorem demo_deadlock_free_iff (lengths : AppLengths) :
    (∀ c, (demoMachine lengths).Reachable .init c → ¬ Deadlocked c) ↔
      slotTotal (lengths.requests.drop (ringCapacity + 1 - slotTotal lengths.data)) ≤ ringCapacity := by
  constructor
  · intro hfree
    by_contra hlong
    obtain ⟨c, hc, hdead⟩ := demo_deadlocks (Nat.lt_of_not_le hlong)
    exact hfree c hc hdead
  · intro hfits c hc hdead
    exact absurd (hdead.backlog hc) (Nat.not_lt.mpr hfits)

/-- With the tables of `app_proto.c` the publisher has 69 slots to send and the
subscriber 68 before either receives: both rings fill up, and then nothing can
happen any more. -/
theorem app_lengths_deadlock :
    ∃ c, (demoMachine appLengths).Reachable .init c ∧ Deadlocked c ∧
      ∀ c', ¬ (demoMachine appLengths).Step c c' := by
  obtain ⟨c, hc, hdead⟩ := demo_deadlocks (show ringCapacity < slotTotal
    (appLengths.requests.drop (ringCapacity + 1 - slotTotal appLengths.data)) by decide)
  exact ⟨c, hc, hdead, fun _ => hdead.stuck⟩

end Reach

end Demo

end Axivc
