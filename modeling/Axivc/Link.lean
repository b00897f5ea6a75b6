import Axivc.LinkSend
import Axivc.LinkRecv

/-!
# Axivc.Link

One direction of a channel, from `write(2)` to `read(2)`.

Any number of writers on one endpoint and any number of readers on the peer's
share a ring and nothing else.  A push that reports room had it (`Room`), a
peek that finds a slot finds the next one (`Finds`); a push may also report a
full ring, and a peek an empty one, when it likes.  Each operation of a call is
one step, and the steps interleave in any order.

The writers keep the stream one a receiver gets through, whatever the readers
do; so the readers' peer keeps to the protocol, and both ends know where the
messages begin (`Axivc.Wire`).  What a read returns is then what one write was
given, and a write that succeeded is read once.
-/

namespace Axivc

open Prog Rely

/-! ## the model -/

/-- A push that reports room had it: `taken` slots have been popped. -/
def Room (taken : Nat) : (o : EndpointOp ringIface Transmit) → Outlet → (endpointIface ringIface Transmit).Res o → Prop
  | .ring (.push _), s, true => s.stream.length < taken + ringCapacity
  | _, _, _ => True

/-- A peek that finds a slot finds the next one of the stream. -/
def Finds (stream : List Slot) :
    (o : EndpointOp ringIface Receiver) → Inlet → (endpointIface ringIface Receiver).Res o → Prop
  | .ring .peek, s, some slot => stream[s.taken.length]? = some slot
  | _, _, _ => True

/-- Any number of `write(2)` calls, `taken` slots having been popped. -/
def roomCalls (target : NotifyTarget) (taken : Nat) :
    Machine Nat (endpointIface ringIface Transmit) (Guarded Outlet SendLog) SendArgs (Except Errno Nat) :=
  (outlet.restrict (Room taken)).calls (writeBody target) .fresh .ends

/-- The two ends. -/
structure Link where
  writers : Config Nat (endpointIface ringIface Transmit) (Guarded Outlet SendLog) (Except Errno Nat)
  readers : Config Nat (endpointIface ringIface Receiver) (Guarded Inlet RecvLog) (Except Errno Nat)

namespace Link

/-- The slots pushed so far. -/
def stream (c : Link) : List Slot := c.writers.shared.record.stream

/-- The slots popped so far. -/
def taken (c : Link) : List Slot := c.readers.shared.record.taken

/-- A channel just initialised. -/
def initial : Link where
  writers := Machine.quiet (Monitor.initial ⟨transmitInit, []⟩)
  readers := Machine.quiet (Monitor.initial ⟨messageReceiverInit, [], none⟩)

/-- One step of a call at either end. -/
inductive Step (tx rx : NotifyTarget) : Link → Link → Prop where
  | write {c : Link} {w} : (roomCalls tx c.taken.length).Step c.writers w → Step tx rx c { c with writers := w }
  | read {c : Link} {r} : (readCalls rx (Finds c.stream)).Step c.readers r → Step tx rx c { c with readers := r }

/-- The states some interleaving leads to. -/
def Reachable (tx rx : NotifyTarget) (c : Link) : Prop := Relation.ReflTransGen (Step tx rx) initial c

/-! ## the ring between the ends -/

variable {tx rx : NotifyTarget} {c : Link}

/-- What holds of the ring, and of each end by itself. -/
structure Inv (tx rx : NotifyTarget) (c : Link) : Prop where
  writers : (writeCalls tx).Reachable (Monitor.initial ⟨transmitInit, []⟩) c.writers
  readers : (readCalls rx Lawful).Reachable (Monitor.initial ⟨messageReceiverInit, [], none⟩) c.readers
  order : c.taken <+: c.stream
  seen : ∀ slot, c.readers.shared.record.seen = some slot → c.stream[c.taken.length]? = some slot
  room : c.stream.length ≤ c.taken.length + ringCapacity

theorem inv_initial : Inv tx rx initial :=
  ⟨.refl, .refl, List.prefix_rfl, by rintro slot ⟨⟩, Nat.zero_le _⟩

/-- Only a push changes the stream. -/
theorem outlet_stream (o : EndpointOp ringIface Transmit) (r : (endpointIface ringIface Transmit).Res o) (s : Outlet)
    {taken : Nat} (hr : Room taken o s r) (hroom : s.stream.length ≤ taken + ringCapacity) :
    s.stream <+: (outlet.act o r s).stream ∧ (outlet.act o r s).stream.length ≤ taken + ringCapacity := by
  cases o with
  | ring o =>
      cases o with
      | push slot =>
          match r with
          | true =>
              have hlt : s.stream.length < taken + ringCapacity := hr
              refine ⟨List.prefix_append _ _, ?_⟩
              change (s.stream ++ [slot]).length ≤ _
              rw [List.length_append]
              exact hlt
          | false => exact ⟨List.prefix_rfl, hroom⟩
      | peek => exact ⟨List.prefix_rfl, hroom⟩
      | pop => exact ⟨List.prefix_rfl, hroom⟩
  | _ => exact ⟨List.prefix_rfl, hroom⟩

/-- Only a pop changes what has been taken, and it takes what was found. -/
theorem inlet_taken (o : EndpointOp ringIface Receiver) (r : (endpointIface ringIface Receiver).Res o) (s : Inlet)
    {stream : List Slot} (hr : Finds stream o s r) (horder : s.taken <+: stream)
    (hseen : ∀ slot, s.seen = some slot → stream[s.taken.length]? = some slot) :
    s.taken <+: (inlet.act o r s).taken ∧ (inlet.act o r s).taken <+: stream ∧
      ∀ slot, (inlet.act o r s).seen = some slot → stream[(inlet.act o r s).taken.length]? = some slot := by
  cases o with
  | ring o =>
      cases o with
      | push slot => exact ⟨List.prefix_rfl, horder, hseen⟩
      | peek =>
          match r with
          | none => exact ⟨List.prefix_rfl, horder, hseen⟩
          | some slot =>
              refine ⟨List.prefix_rfl, horder, ?_⟩
              rintro x ⟨⟩
              exact hr
      | pop =>
          refine ⟨List.prefix_append _ _, ?_, by rintro slot ⟨⟩⟩
          change s.taken ++ s.seen.toList <+: stream
          cases hs : s.seen with
          | none =>
              rw [Option.toList_none, List.append_nil]
              exact horder
          | some slot =>
              obtain ⟨rest, rfl⟩ := horder
              have hnext := hseen slot hs
              rw [List.getElem?_append_right (Nat.le_refl _), Nat.sub_self] at hnext
              obtain ⟨more, rfl⟩ : ∃ more, rest = slot :: more := by
                cases rest with
                | nil => cases hnext
                | cons x more => exact ⟨more, by rw [Option.some.inj hnext]⟩
              exact ⟨more, by simp⟩
  | _ => exact ⟨List.prefix_rfl, horder, hseen⟩

/-- What a peek finds keeps to the protocol. -/
theorem Inv.lawful (h : Inv tx rx c) (o : EndpointOp ringIface Receiver) (r : (endpointIface ringIface Receiver).Res o)
    (hr : Finds c.stream o c.readers.shared.record r) : Lawful o c.readers.shared.record r := by
  cases o with
  | ring o =>
      cases o with
      | peek =>
          match r with
          | none => trivial
          | some slot =>
              have hnext : c.stream[c.taken.length]? = some slot := hr
              refine ⟨fun x hx => Option.some.inj (hnext.symm.trans (h.seen x hx)), ?_⟩
              refine (writers_wire h.writers).of_start ?_
              obtain ⟨rest, hrest⟩ := h.order
              change c.taken ++ [slot] <+: c.stream
              rw [← hrest, List.getElem?_append_right (Nat.le_refl _), Nat.sub_self] at hnext
              cases rest with
              | nil => cases hnext
              | cons x more =>
                  cases hnext
                  exact ⟨more, by rw [← hrest]; simp⟩
      | push slot => trivial
      | pop => trivial
  | _ => trivial

theorem Inv.step {c' : Link} (h : Inv tx rx c) (hstep : Step tx rx c c') : Inv tx rx c' := by
  cases hstep with
  | @write w hw =>
      have hstream : c.stream <+: w.shared.record.stream ∧
          w.shared.record.stream.length ≤ c.taken.length + ringCapacity := by
        rcases Monitor.calls_record hw with heq | ⟨o, r, hr, heq⟩
        · rw [heq]
          exact ⟨List.prefix_rfl, h.room⟩
        · rw [heq]
          exact outlet_stream o r _ hr.2 h.room
      refine ⟨h.writers.tail (Monitor.calls_loosen hw), h.readers, h.order.trans hstream.1, fun slot hslot => ?_, hstream.2⟩
      obtain ⟨more, hmore⟩ := hstream.1
      change w.shared.record.stream[c.taken.length]? = some slot
      rw [← hmore]
      exact List.getElem?_append_left (List.getElem?_eq_some_iff.mp (h.seen slot hslot)).1 ▸ h.seen slot hslot
  | @read r hr =>
      have htaken : c.taken <+: r.shared.record.taken ∧ r.shared.record.taken <+: c.stream ∧
          ∀ slot, r.shared.record.seen = some slot → c.stream[r.shared.record.taken.length]? = some slot := by
        rcases Monitor.calls_record hr with heq | ⟨o, a, ha, heq⟩
        · rw [heq]
          exact ⟨List.prefix_rfl, h.order, h.seen⟩
        · rw [heq]
          exact inlet_taken o a _ ha.2 h.order h.seen
      refine ⟨h.writers, h.readers.tail (Monitor.calls_step hr fun _ o _ a _ _ ha => h.lawful o a ha), htaken.2.1,
        htaken.2.2, ?_⟩
      have hle := htaken.1.length_le
      have hroom := h.room
      change c.stream.length ≤ r.shared.record.taken.length + ringCapacity
      omega

theorem Reachable.inv (h : Reachable tx rx c) : Inv tx rx c := by
  induction h with
  | refl => exact inv_initial
  | tail _ hstep ih => exact ih.step hstep

/-! ## whose slots they are -/

/-- The write with the log `w` pushed the slots the read with the log `r`
popped. -/
structure SameSlots (w : SendLog) (r : RecvLog) : Prop where
  start : w.start = r.start
  slots : w.pushed = r.popped

/-- The writes and what they pushed. -/
theorem Inv.pushed (h : Inv tx rx c) {i : Nat} {w : SendLog} (hi : c.writers.shared.log i = some w) :
    Pushed c.stream w := (writers_agree h.writers).kept i w hi

/-- The reads and what they popped. -/
theorem Inv.drawn (h : Inv tx rx c) {j : Nat} {r : RecvLog} (hj : c.readers.shared.log j = some r) :
    Drawn c.taken r := (readers_good h.readers).1.kept j r hj

/-- Reads that popped the same slot are one read. -/
theorem Inv.read_unique (h : Inv tx rx c) {j j' : Nat} {r r' : RecvLog} {q q' : Nat}
    (hj : c.readers.shared.log j = some r) (hq : r.start = some q) (hj' : c.readers.shared.log j' = some r')
    (hq' : r'.start = some q') (hlt : q < q' + r'.popped.length) (hlt' : q' < q + r.popped.length) : j' = j := by
  by_contra hne
  have hapart := (readers_good h.readers).1.turns.apart j j' r r' q q' (Ne.symm hne) hj hj' hq hq'
  change q + r.popped.length ≤ q' ∨ q' + r'.popped.length ≤ q at hapart
  omega

/-- **A whole message that was popped is one that was pushed.** -/
theorem Inv.write_of_read (h : Inv tx rx c) {j : Nat} {r : RecvLog} (hj : c.readers.shared.log j = some r)
    {frames : List Frame} (hdec : Decodes r.popped frames) (hwhole : Whole frames) (hne : r.popped ≠ []) :
    ∃ i w, c.writers.shared.log i = some w ∧ SameSlots w r ∧ Carries w.buf w.pushed frames := by
  obtain ⟨p, hp, hstretch⟩ := (h.drawn hj).stretch hne
  have hstretch := hstretch.mono h.order
  have hpos := List.length_pos_of_ne_nil hne
  -- The write that pushed the last slot of the message.
  have hlast : p + r.popped.length - 1 < c.stream.length := by
    have := hstretch.length_le
    omega
  obtain ⟨i, w, q, hi, hq, hle, hlt⟩ := (writers_agree h.writers).turns.covered _ hlast
  change q ≤ p + r.popped.length - 1 at hle
  change p + r.popped.length - 1 < q + w.pushed.length at hlt
  have hw : w.pushed ≠ [] := List.ne_nil_of_length_pos (by omega)
  obtain ⟨q', hq', hstretch'⟩ := (h.pushed hi).stretch hw
  obtain rfl : q = q' := Option.some.inj (Eq.trans (Eq.symm hq) hq')
  obtain ⟨frames', hcarries⟩ := (h.pushed hi).carries hw
  obtain ⟨rfl, hslots⟩ := hstretch'.eq_of_covers hcarries.decodes hcarries.piece hstretch hdec hwhole hne hle hlt
  refine ⟨i, w, hi, ⟨hq'.trans hp.symm, hslots⟩, ?_⟩
  obtain rfl : frames' = frames := (hslots ▸ hcarries.decodes).unique hdec
  exact hcarries

/-! ## a run -/

section Run

/-- The writers let alone: locks are free, copies succeed, and the clock stands
still. -/
def performWrite (i : Nat) (o : EndpointOp ringIface Transmit) (s : Guarded Outlet SendLog) :
    (endpointIface ringIface Transmit).Res o × Guarded Outlet SendLog :=
  let world : World := ⟨decide (s.record.stream.length < 0 + ringCapacity), none, 0⟩
  let half : Guarded (HalfState Transmit) (CallLog SendArgs Transmit) := ⟨⟨s.record.half, false⟩, s.owner, fun _ => none⟩
  (world.answer half o, outlet.after i o (world.answer half o) s)

/-- The readers let alone. -/
def performRead (stream : List Slot) (i : Nat) (o : EndpointOp ringIface Receiver) (s : Guarded Inlet RecvLog) :
    (endpointIface ringIface Receiver).Res o × Guarded Inlet RecvLog :=
  let world : World := ⟨false, stream[s.record.taken.length]?, 0⟩
  let half : Guarded (HalfState Receiver) (CallLog RecvArgs Receiver) := ⟨⟨s.record.rx, false⟩, s.owner, fun _ => none⟩
  (world.answer half o, inlet.after i o (world.answer half o) s)

theorem exec_performWrite (i : Nat) (o : EndpointOp ringIface Transmit) (s : Guarded Outlet SendLog) :
    (outlet.restrict (Room 0)).Exec i o s (performWrite i o s).1 (performWrite i o s).2 := by
  let half : Guarded (HalfState Transmit) (CallLog SendArgs Transmit) := ⟨⟨s.record.half, false⟩, s.owner, fun _ => none⟩
  have hexec := World.exec_perform ⟨decide (s.record.stream.length < 0 + ringCapacity), none, 0⟩ ⟨true, 0, 0⟩ i o half
  refine ⟨⟨?_, ?_⟩, fun htakes => ?_, rfl⟩
  · cases o with
    | mutexLockInterruptible => exact hexec.allowed
    | load => rfl
    | copyFromUser => exact Nat.zero_le _
    | _ => trivial
  · cases o with
    | ring o =>
        cases o with
        | push slot =>
            change Room 0 (.ring (.push slot)) s.record (decide (s.record.stream.length < 0 + ringCapacity))
            by_cases hroom : s.record.stream.length < 0 + ringCapacity
            · rw [decide_eq_true hroom]
              exact hroom
            · rw [decide_eq_false hroom]
              trivial
        | peek => trivial
        | pop => trivial
    | _ => trivial
  · cases o with
    | mutexLockInterruptible =>
        by_contra hne
        have hanswer : (performWrite i .mutexLockInterruptible s).1 = .error .EINTR := if_neg hne
        have hfalse : outlet.takes .mutexLockInterruptible (.error .EINTR) = true := hanswer ▸ htakes
        cases hfalse
    | _ => cases htakes

theorem exec_performRead (stream : List Slot) (i : Nat) (o : EndpointOp ringIface Receiver) (s : Guarded Inlet RecvLog) :
    (inlet.restrict (Finds stream)).Exec i o s (performRead stream i o s).1 (performRead stream i o s).2 := by
  let half : Guarded (HalfState Receiver) (CallLog RecvArgs Receiver) := ⟨⟨s.record.rx, false⟩, s.owner, fun _ => none⟩
  have hexec := World.exec_perform ⟨false, stream[s.record.taken.length]?, 0⟩ ⟨true, 0, 0⟩ i o half
  refine ⟨⟨?_, ?_⟩, fun htakes => ?_, rfl⟩
  · cases o with
    | mutexLockInterruptible => exact hexec.allowed
    | load => rfl
    | copyToUser => exact Nat.zero_le _
    | _ => trivial
  · cases o with
    | ring o =>
        cases o with
        | peek =>
            change Finds stream (.ring .peek) s.record (stream[s.record.taken.length]?)
            cases hnext : stream[s.record.taken.length]? with
            | none => trivial
            | some slot => exact hnext
        | push slot => trivial
        | pop => trivial
    | _ => trivial
  · cases o with
    | mutexLockInterruptible =>
        by_contra hne
        have hanswer : (performRead stream i .mutexLockInterruptible s).1 = .error .EINTR := if_neg hne
        have hfalse : inlet.takes .mutexLockInterruptible (.error .EINTR) = true := hanswer ▸ htakes
        cases hfalse
    | _ => cases htakes

/-- The writers first, and then the readers. -/
theorem Reachable.of_calls {w r} (hw : (roomCalls tx 0).Reachable (Monitor.initial ⟨transmitInit, []⟩) w)
    (hr : (readCalls rx (Finds w.shared.record.stream)).Reachable
      (Monitor.initial ⟨messageReceiverInit, [], none⟩) r) : Reachable tx rx ⟨w, r⟩ := by
  have hwrites : Reachable tx rx ⟨w, initial.readers⟩ := by
    clear hr
    induction hw with
    | refl => exact .refl
    | tail _ hstep ih => exact ih.tail (.write hstep)
  induction hr with
  | refl => exact hwrites
  | tail _ hstep ih => exact ih.tail (.read hstep)

/-- The byte 42 to write. -/
def byteOut : SendArgs := ⟨1, [42], by decide⟩

/-- A buffer of one byte to read to. -/
def byteIn : RecvArgs := ⟨1, 1⟩

/-- A write of one byte, and a read of it. -/
theorem byte_runs : ∃ s t w r,
    (writeBody ⟨true, 3, 7⟩ byteOut).run (performWrite 0) ⟨⟨transmitInit, []⟩, none,
      Function.update (fun _ => none) 0 (some (.fresh byteOut))⟩ = some (.ok 1, s) ∧
    (readBody ⟨false, 3, 7⟩ byteIn).run (performRead s.record.stream 0) ⟨⟨messageReceiverInit, [], none⟩, none,
      Function.update (fun _ => none) 0 (some (.fresh byteIn))⟩ = some (.ok 1, t) ∧
    s.log 0 = some w ∧ t.log 0 = some r ∧ w.start = some 0 ∧ w.pushed.length = 1 ∧ t.record.taken.length = 1 := by
  refine ⟨_, _, _, _, rfl, rfl, rfl, rfl, ?_, ?_, ?_⟩
  · rfl
  · rfl
  · rfl

/-- The byte has been written and read. -/
theorem byte_delivered : ∃ c w r, Reachable ⟨true, 3, 7⟩ ⟨false, 3, 7⟩ c ∧
    c.writers.shared.log 0 = some w ∧ w.result = some (.ok 1) ∧ w.start = some 0 ∧ w.pushed.length = 1 ∧
    c.readers.shared.log 0 = some r ∧ r.result = some (.ok 1) ∧ c.taken.length = 1 := by
  obtain ⟨s, t, w, r, hwrite, hread, hw, hr, hstart, hpushed, htaken⟩ := byte_runs
  have hquiet : (roomCalls ⟨true, 3, 7⟩ 0).Reachable (Monitor.initial ⟨transmitInit, []⟩)
      ⟨Monitor.initial ⟨transmitInit, []⟩, fun _ => none⟩ := Relation.ReflTransGen.refl
  have hwritten := ((hquiet.start 0 byteOut rfl ⟨rfl, rfl⟩).run (exec_performWrite 0) hwrite).finish 0
    (Function.update_self ..) rfl
  have hquiet' : (readCalls ⟨false, 3, 7⟩ (Finds s.record.stream)).Reachable
      (Monitor.initial ⟨messageReceiverInit, [], none⟩)
      ⟨Monitor.initial ⟨messageReceiverInit, [], none⟩, fun _ => none⟩ := Relation.ReflTransGen.refl
  have hreads := ((hquiet'.start 0 byteIn rfl ⟨rfl, rfl⟩).run (exec_performRead _ 0) hread).finish 0
    (Function.update_self ..) rfl
  refine ⟨_, { w with result := some (.ok 1) }, { r with result := some (.ok 1) }, Reachable.of_calls hwritten hreads,
    ?_, rfl, hstart, hpushed, ?_, rfl, htaken⟩
  · change Function.update s.log 0 ((s.log 0).map (SendLog.ends (.ok 1))) 0 = _
    rw [Function.update_self, hw]
    rfl
  · change Function.update t.log 0 ((t.log 0).map (RecvLog.ends (.ok 1))) 0 = _
    rw [Function.update_self, hr]
    rfl

end Run

/-! ## what a read returns -/

/-- `Got c r a`: what a read that returned `a` got, by what was written. -/
inductive Got (c : Link) (r : RecvLog) : Except Errno Nat → Prop where
  | nothing {a : Except Errno Nat} : r.popped = [] → a = .ok 0 ∨ a = .error .EINTR ∨ a = .error .EMSGSIZE → Got c r a
  | message {i : Nat} {w : SendLog} : c.writers.shared.log i = some w → SameSlots w r → w.buf ≠ [] →
      w.buf.length ≤ r.count.toNat → r.buffer = Holding w.buf → (∀ b, w.result = some b → b = .ok w.buf.length) →
      Got c r (.ok w.buf.length)
  | aborted {i : Nat} {w : SendLog} : c.writers.shared.log i = some w → SameSlots w r → w.pushed ≠ [] →
      (∀ n, w.result ≠ some (.ok n)) → Got c r (.error .ECONNRESET)
  | stuck {e : Errno} : Stuck e → Got c r (.error e)

theorem Inv.got (h : Inv tx rx c) {j : Nat} {r : RecvLog} {a : Except Errno Nat}
    (hj : c.readers.shared.log j = some r) (ha : r.result = some a) : Got c r a := by
  cases (h.drawn hj).settled a ha with
  | nothing hnil ha => exact .nothing hnil ha
  | failed _ he => exact .stuck he
  | @message frames hdec hmsg hne hcount hbuf =>
      have hpopped : r.popped ≠ [] := by
        intro hnil
        rw [hnil] at hdec
        exact not_message_nil hdec hmsg
      obtain ⟨i, w, hi, hsame, hcarries⟩ := h.write_of_read hj hdec (.inl hmsg) hpopped
      rw [hcarries.bytes hmsg] at hne hcount hbuf ⊢
      refine .message hi hsame hne hcount hbuf fun b hb => ?_
      have hsent := (h.pushed hi).settled b hb
      cases b with
      | ok n => rw [hsent.1]
      | error e => exact absurd hmsg (hsent frames hcarries.decodes)
  | @aborted frames hdec hword =>
      have hpopped := IsAborted.ne_nil hdec hword
      obtain ⟨i, w, hi, hsame, hcarries⟩ := h.write_of_read hj hdec (.inr hword) hpopped
      refine .aborted hi hsame (hsame.slots ▸ hpopped) fun n hn => ?_
      obtain ⟨-, frames', hdec', hmsg⟩ := (h.pushed hi).settled _ hn
      obtain rfl := hcarries.decodes.unique hdec'
      exact hword.not_message hmsg
  | fault => exact .stuck (.inl rfl)
  | gaveUp _ _ he => exact .stuck (.inr he)

/-- **A read returns one written message, or says why not.**  In every run of
any number of writers and readers on one direction of a channel: a read that
returned a count above zero has popped exactly the slots of one write, and its
buffer holds the bytes of that write and nothing else; that write has not
failed.  ECONNRESET is the message of a write that did not succeed.  Besides,
a read finds nothing, is interrupted or has too small a buffer, and has popped
nothing, or is stuck; no read fails by the protocol.  No two reads popped the
same slots. -/
theorem read_returns_written (tx rx : NotifyTarget) (c : Link) (hc : Reachable tx rx c) (j : Nat) (r : RecvLog)
    (a : Except Errno Nat) (hj : c.readers.shared.log j = some r) (ha : r.result = some a) :
    Got c r a ∧ ∀ j' r', c.readers.shared.log j' = some r' → r.popped ≠ [] → r'.popped ≠ [] → r'.start = r.start →
      j' = j := by
  have hinv := hc.inv
  refine ⟨hinv.got hj ha, fun j' r' hj' hne hne' hstart => ?_⟩
  obtain ⟨p, hp, -⟩ := (hinv.drawn hj).stretch hne
  have hpos := List.length_pos_of_ne_nil hne
  have hpos' := List.length_pos_of_ne_nil hne'
  exact hinv.read_unique hj hp hj' (hstart.trans hp) (by omega) (by omega)

/-- Instance: one byte. -/
theorem read_returns_written_byte : ∃ c r, Reachable ⟨true, 3, 7⟩ ⟨false, 3, 7⟩ c ∧
    c.readers.shared.log 0 = some r ∧ r.result = some (.ok 1) ∧ Got c r (.ok 1) := by
  obtain ⟨c, w, r, hc, -, -, -, -, hr, hresult, -⟩ := byte_delivered
  exact ⟨c, r, hc, hr, hresult, (read_returns_written _ _ c hc 0 r _ hr hresult).1⟩

/-! ## what becomes of a write -/

/-- `Received c w p j r`: the read `j` popped all the slots of the write `w`,
which are those from `p` on, and if it has returned it popped no others, and
returned the message or EFAULT. -/
structure Received (c : Link) (w : SendLog) (p j : Nat) (r : RecvLog) : Prop where
  log : c.readers.shared.log j = some r
  covers : ∃ q, r.start = some q ∧ q ≤ p ∧ p + w.pushed.length ≤ q + r.popped.length
  returns : ∀ a, r.result = some a → SameSlots w r ∧
    (a = .ok w.buf.length ∧ r.buffer = Holding w.buf ∨ a = .error .EFAULT)

/-- The last slot of a message has been popped: so has the message, by one
read. -/
theorem Inv.received (h : Inv tx rx c) {i p : Nat} {w : SendLog} (hi : c.writers.shared.log i = some w)
    (hp : w.start = some p) (hne : w.pushed ≠ []) {frames : List Frame} (hdec : Decodes w.pushed frames)
    (hmsg : IsMessage frames) (hpopped : p + w.pushed.length ≤ c.taken.length) : ∃ j r, Received c w p j r := by
  have hpos := List.length_pos_of_ne_nil hne
  obtain ⟨p', hp', hstretch⟩ := (h.pushed hi).stretch hne
  obtain rfl : p = p' := Option.some.inj (hp.symm.trans hp')
  obtain ⟨frames', hcarries⟩ := (h.pushed hi).carries hne
  obtain rfl := hcarries.decodes.unique hdec
  have hlast : p + w.pushed.length - 1 < c.taken.length := by omega
  obtain ⟨j, r, q, hj, hq, hle, hlt⟩ := (readers_good h.readers).1.turns.covered _ hlast
  change q ≤ p + w.pushed.length - 1 at hle
  change p + w.pushed.length - 1 < q + r.popped.length at hlt
  have hr : r.popped ≠ [] := List.ne_nil_of_length_pos (by omega)
  obtain ⟨q', hq', hstretch'⟩ := (h.drawn hj).stretch hr
  obtain rfl : q = q' := Option.some.inj (Eq.trans (Eq.symm hq) hq')
  have hstretch' := hstretch'.mono h.order
  refine ⟨j, r, hj, ⟨q, hq', ?_, by omega⟩, fun a ha => ?_⟩
  · -- A read does not begin inside a message.
    by_contra hlater
    have hin := hstretch.inside hdec (.inl (.inl hmsg)) (j := q - p) (by omega) (by omega)
    rw [Nat.add_sub_of_le (by omega)] at hin
    exact hin hstretch'.between
  · obtain ⟨frames', hdec', hpiece, hends⟩ := ((h.drawn hj).settled a ha).piece hr
    obtain ⟨rfl, hslots⟩ := hstretch'.eq_of_covers hdec' hpiece hstretch hdec (.inl hmsg) hne hle hlt
    rw [hslots] at hdec'
    obtain rfl := hdec.unique hdec'
    refine ⟨⟨hp.trans hq'.symm, hslots.symm⟩, ?_⟩
    rw [← hcarries.bytes hmsg]
    exact hends hmsg

/-- **A write that succeeded is read once.**  In every run: when all the slots
of a write that returned success have been popped, they were popped by one
read, and no other read popped any of them; if that read has returned, they
are all it popped, and it returned the message, its buffer holding the bytes
of the write, or EFAULT because of its own buffer. -/
theorem written_read_once (tx rx : NotifyTarget) (c : Link) (hc : Reachable tx rx c) (i n : Nat) (w : SendLog)
    (hi : c.writers.shared.log i = some w) (hn : w.result = some (.ok n)) :
    n = w.buf.length ∧ ∃ p, w.start = some p ∧ w.pushed ≠ [] ∧ w.pushed <+: c.stream.drop p ∧
      (p + w.pushed.length ≤ c.taken.length → ∃ j r, Received c w p j r ∧
        ∀ j' r' q', c.readers.shared.log j' = some r' → r'.start = some q' → p < q' + r'.popped.length →
          q' < p + w.pushed.length → j' = j) := by
  have hinv := hc.inv
  obtain ⟨hlen, frames, hdec, hmsg⟩ := (hinv.pushed hi).settled _ hn
  have hne : w.pushed ≠ [] := by
    intro hnil
    rw [hnil] at hdec
    exact not_message_nil hdec hmsg
  obtain ⟨p, hp, hstretch⟩ := (hinv.pushed hi).stretch hne
  refine ⟨hlen, p, hp, hne, hstretch.found, fun hpopped => ?_⟩
  obtain ⟨j, r, hreceived⟩ := hinv.received hi hp hne hdec hmsg hpopped
  refine ⟨j, r, hreceived, fun j' r' q' hj' hq' hlt hlt' => ?_⟩
  obtain ⟨q, hq, hle, hcovers⟩ := hreceived.covers
  exact hinv.read_unique hreceived.log hq hj' hq' (by omega) (by omega)

/-- Instance: one byte. -/
theorem written_read_once_byte : ∃ c w j r, Reachable ⟨true, 3, 7⟩ ⟨false, 3, 7⟩ c ∧
    c.writers.shared.log 0 = some w ∧ w.result = some (.ok 1) ∧ Received c w 0 j r := by
  obtain ⟨c, w, r, hc, hw, hresult, hstart, hpushed, -, -, htaken⟩ := byte_delivered
  obtain ⟨-, p, hp, -, -, hreceived⟩ := written_read_once _ _ c hc 0 1 w hw hresult
  obtain rfl : 0 = p := Option.some.inj (hstart.symm.trans hp)
  obtain ⟨j, r', h, -⟩ := hreceived (by omega)
  exact ⟨c, w, j, r', hc, hw, hresult, h⟩

/-! ## the ring -/

/-- **The ring is used as a bounded queue.**  In every state any interleaving
reaches, what has been popped is the start of what has been pushed, at most
`ringCapacity` slots are in flight, and a read that is about to pop has found
the slot that is next. -/
theorem ring_used_as_queue (tx rx : NotifyTarget) (c : Link) (hc : Reachable tx rx c) :
    c.taken <+: c.stream ∧ c.stream.length ≤ c.taken.length + ringCapacity ∧
      ∀ j k, c.readers.thread j = some (.act (.ring .pop) k) →
        ∃ slot, c.readers.shared.record.seen = some slot ∧ c.stream[c.taken.length]? = some slot := by
  have hinv := hc.inv
  refine ⟨hinv.order, hinv.room, fun j k hj => ?_⟩
  have hgood := readers_good hinv.readers
  have hneeds : c.readers.shared.record.seen ≠ none := by
    rcases hgood.pre hj with ⟨howner, hneeds⟩ | hquiet
    · obtain ⟨g, -, hlog, -⟩ := hgood.1.turns.latest j howner
      exact hneeds g hlog
    · have hpop := hquiet () ⟨messageReceiverInit, [], some Slot.zero⟩
      cases congrArg Inlet.seen hpop
  obtain ⟨slot, hslot⟩ := Option.ne_none_iff_exists'.mp hneeds
  exact ⟨slot, hslot, hinv.seen slot hslot⟩

/-- Instance: one byte has been pushed, and popped again. -/
theorem ring_used_as_queue_byte : ∃ c, Reachable ⟨true, 3, 7⟩ ⟨false, 3, 7⟩ c ∧ c.taken.length = 1 ∧
    c.taken <+: c.stream := by
  obtain ⟨c, w, r, hc, -, -, -, -, -, -, htaken⟩ := byte_delivered
  exact ⟨c, hc, htaken, (ring_used_as_queue _ _ c hc).1⟩

end Link

end Axivc
