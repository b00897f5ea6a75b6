import Axivc.DeviceRead

/-!
# Axivc.DoubleFetch

One `read(2)` against a peer that owns its side of the shared memory.

`axivc_recv_message` fetches the first frame of a message twice: once in
`axivc_message_peek_meta`, for the announced length it compares with the size
of the caller's buffer, and once more in `axivc_message_try_read`, for the
length the receiver then goes by.  Here the ring is the one of `ring.c`, and
between any two of its memory accesses the peer may do what it likes to the
slots and to the tail cursor.

A receiver in the middle of a message goes by the length it has in its own
record, and a peer that leaves a published slot alone shows the same frame
twice; in both cases no copy reaches past the buffer.  Otherwise a peer can
show a short frame first and a long one later (`overruns`).
-/

namespace Axivc

open Prog Rely

/-! ## the peer -/

/-- What a peer may do to the shared memory over any time; the head cursor is
the consumer's. -/
structure Peer where
  moves : Ring → Ring → Prop
  head : ∀ {m m'}, moves m m' → m'.head = m.head
  refl : ∀ m, moves m m
  trans : ∀ {m m' m''}, moves m m' → moves m' m'' → moves m m''

/-- `slot` is published, and the next one to be consumed. -/
def Front (slot : Slot) (m : Ring) : Prop := m.head ≠ m.tail ∧ m.slots (slotIndex m.head) = slot

theorem Front.unique {slot slot' : Slot} {m : Ring} (h : Front slot m) (h' : Front slot' m) : slot = slot' :=
  h.2.symm.trans h'.2

namespace Peer

/-- A peer that does whatever it likes to the slots and to its own cursor. -/
def tampering : Peer where
  moves m m' := ∃ tail slots, m' = { m with tail := tail, slots := slots }
  head := by
    rintro m _ ⟨tail, slots, rfl⟩
    rfl
  refl m := ⟨m.tail, m.slots, rfl⟩
  trans := by
    rintro m _ _ ⟨tail, slots, rfl⟩ ⟨tail', slots', rfl⟩
    exact ⟨tail', slots', rfl⟩

/-- A peer that neither rewrites nor withdraws the published slot that is
consumed next, and does whatever it likes besides. -/
def keepingFront : Peer where
  moves m m' := tampering.moves m m' ∧ ∀ slot, Front slot m → Front slot m'
  head h := tampering.head h.1
  refl m := ⟨tampering.refl m, fun _ h => h⟩
  trans h h' := ⟨tampering.trans h.1 h'.1, fun slot hs => h'.2 slot (h.2 slot hs)⟩

end Peer

/-! ## one call -/

/-- The receiver of an endpoint, and the shared memory of its ring. -/
structure ReaderState where
  rx : Receiver
  ring : Ring

/-- The ring of `ring.c` as an endpoint uses it. -/
def memoryRing : RingImpl (endpointIface ringMemory Receiver) :=
  fun o => (ringProgram o).subst fun a => op (I := endpointIface ringMemory Receiver) (.ring a)

namespace ReaderState

/-- The answers an operation can have. -/
def Answers (s : ReaderState) :
    (o : EndpointOp ringMemory Receiver) → (endpointIface ringMemory Receiver).Res o → Prop
  | .load, r => r = s.rx
  | .ring a, r => r = (access a s.ring).1
  | .copyToUser _ bytes, r => r ≤ bytes.length
  | _, _ => True

/-- The state after an operation. -/
def effect (s : ReaderState) : EndpointOp ringMemory Receiver → ReaderState
  | .store rx => { s with rx := rx }
  | .ring a => { s with ring := (access a s.ring).2 }
  | _ => s

end ReaderState

/-- A single call of `axivc_recv_message` with room for `count` bytes, at
single memory accesses, against a peer. -/
def readerMachine (peer : Peer) (target : NotifyTarget) (iterations : Nat) (count : UInt64) :
    Machine Unit (endpointIface ringMemory Receiver) ReaderState Unit (Except Errno Nat) where
  body _ _ _ := recvMessage memoryRing target iterations count
  exec _ o s r t := s.Answers o r ∧ t = s.effect o
  start _ _ s t := t = s
  finish _ _ _ _ := False
  env s t := ∃ ring, peer.moves s.ring ring ∧ t = { s with ring := ring }

/-- Against the peer, a call that finds the receiver `rx` never copies to an
offset at or after `count`, and never returns more than `count`. -/
def NeverOverruns (peer : Peer) (rx : Receiver) (count : UInt64) : Prop :=
  ∀ target iterations ring c, (readerMachine peer target iterations count).Reachable ⟨rx, ring⟩ c →
    (∀ offset bytes k, c.thread () = some (.act (.copyToUser offset bytes) k) →
      offset + bytes.length ≤ count.toNat) ∧
    ∀ n, c.thread () = some (.ret (.ok n)) → n ≤ count.toNat

/-! ## how much a read can still deliver -/

namespace Receiver

variable {rx rx' : Receiver} {slot : Slot} {frame : Frame} {transition : Transition}

/-- What is missing of the message being received. -/
def missing (rx : Receiver) : Nat := rx.active.len.toNat - rx.received.toNat

/-- Accepting a frame that does not abort: what it delivers and what is
missing afterwards make up what was missing before. -/
theorem missing_commit (h : rx.examine slot = .ok (frame, transition)) (ha : transition.aborted = false) :
    (rx.state = .receiving → frame.fragment.length + (rx.commit transition).missing = rx.missing) ∧
    (rx.state = .idle → frame.fragment.length + (rx.commit transition).missing = frame.messageLen.toNat) ∧
    (transition.complete = false → (rx.commit transition).state = .receiving) := by
  obtain ⟨active, received, hbase, ⟨-, rfl⟩ | ⟨-, hle, -, rfl⟩⟩ :=
    validateTransition_eq_ok.mp (examine_eq_ok.mp h).2
  · cases ha
  · have hadd := frame.toNat_add_fragment hle
    refine ⟨fun hrecv => ?_, fun hidle => ?_, fun hc => ?_⟩
    · obtain ⟨-, -, -, heq⟩ := (transitionBase_receiving hrecv).mp hbase
      cases heq
      simp only [missing, commit, hadd]
      omega
    · obtain ⟨-, -, heq⟩ := (transitionBase_idle hidle).mp hbase
      cases heq
      simp only [missing, commit, hadd]
      simp only [UInt64.toNat_zero] at hle ⊢
      omega
    · simp only [commit] at hc ⊢
      rw [hc]
      rfl

end Receiver

section Delivered

variable {rx rx' : Receiver} {slots : List Slot} {bytes : List UInt8}

/-- In the middle of a message, what a read delivers comes off what is
missing. -/
theorem Takes.missing_receiving (h : Takes rx bytes slots rx') (hrx : rx.state = .receiving) :
    rx'.state = .receiving ∧ bytes.length + rx'.missing = rx.missing := by
  induction h with
  | nil => exact ⟨hrx, by simp⟩
  | snoc _ hex hc ha ih =>
      obtain ⟨hrecv, -, hstate⟩ := Receiver.missing_commit hex ha
      have hsum := hrecv ih.1
      have hbytes := ih.2
      refine ⟨hstate hc, ?_⟩
      rw [List.length_append]
      omega

/-- From the start of a message, what a read delivers comes off the length
in the first slot it has popped. -/
theorem Takes.missing_idle (h : Takes rx bytes slots rx') (hrx : rx.state = .idle) :
    slots = [] ∨ ∃ slot frame, slots.head? = some slot ∧ decodeFrame slot = .ok frame ∧
      rx'.state = .receiving ∧ bytes.length + rx'.missing = frame.messageLen.toNat := by
  induction h with
  | nil => exact .inl rfl
  | @snoc rx' bytes slots slot frame transition htakes hex hc ha ih =>
      obtain ⟨hrecv, hidle, hstate⟩ := Receiver.missing_commit hex ha
      right
      cases ih with
      | inl hnil =>
          obtain ⟨rfl, rfl⟩ := htakes.of_nil hnil
          subst hnil
          exact ⟨slot, frame, rfl, (Receiver.examine_eq_ok.mp hex).1, hstate hc, hidle hrx⟩
      | inr hfirst =>
          obtain ⟨first, frame', hhead, hdec, hstate', hlen⟩ := hfirst
          refine ⟨first, frame', by rw [List.head?_append, hhead]; rfl, hdec, hstate hc, ?_⟩
          have hsum := hrecv hstate'
          rw [List.length_append]
          omega

/-- What one read may deliver: no more than is missing of a message begun
before, or than the first slot popped announces. -/
theorem ReadResult.within (budget : Nat) {outputLen : Nat} {seen : Option (Option Slot)} {progress : ReceiveProgress}
    (h : ReadResult rx outputLen slots seen rx' (.ok progress))
    (hrecv : rx.state = .receiving → rx.missing ≤ budget)
    (hidle : rx.state = .idle → ∀ slot frame, slots.head? = some slot → decodeFrame slot = .ok frame →
      frame.messageLen.toNat ≤ budget) :
    progress.output.length ≤ budget ∧ (progress.complete = false →
      slots = [] ∧ rx' = rx ∧ progress.output = [] ∨
      rx'.state = .receiving ∧ progress.output.length + rx'.missing ≤ budget) := by
  -- A run of slots none of which ends the message.
  have htakes {bytes : List UInt8} {slots' : List Slot} {rx'' : Receiver} (hnf : ∀ e, rx.state ≠ .failed e)
      (ht : Takes rx bytes slots' rx'') (hhead : ∀ slot, slots'.head? = some slot → slots.head? = some slot) :
      slots' = [] ∧ rx'' = rx ∧ bytes = [] ∨ rx''.state = .receiving ∧ bytes.length + rx''.missing ≤ budget := by
    cases hstate : rx.state with
    | failed e => exact absurd hstate (hnf e)
    | receiving =>
        obtain ⟨hs, hsum⟩ := ht.missing_receiving hstate
        have hle := hrecv hstate
        exact .inr ⟨hs, by omega⟩
    | idle =>
        rcases ht.missing_idle hstate with hnil | ⟨slot, frame, hfirst, hdec, hs, hsum⟩
        · exact .inl ⟨hnil, (ht.of_nil hnil).2, (ht.of_nil hnil).1⟩
        · have hle := hidle hstate slot frame (hhead slot hfirst) hdec
          exact .inr ⟨hs, by omega⟩
  cases h with
  | empty hnf ht =>
      rcases htakes hnf ht (fun _ h => h) with ⟨rfl, rfl, rfl⟩ | ⟨hs, hle⟩
      · exact ⟨Nat.zero_le _, fun _ => .inl ⟨rfl, rfl, rfl⟩⟩
      · exact ⟨by dsimp only; omega, fun _ => .inr ⟨hs, hle⟩⟩
  | deferred hnf ht =>
      rcases htakes hnf ht (fun _ h => h) with ⟨rfl, rfl, rfl⟩ | ⟨hs, hle⟩
      · exact ⟨Nat.zero_le _, fun _ => .inl ⟨rfl, rfl, rfl⟩⟩
      · exact ⟨by dsimp only; omega, fun _ => .inr ⟨hs, hle⟩⟩
  | @complete bytes slots' rx'' slot frame transition hnf ht hex hc ha =>
      obtain ⟨hr, hi, -⟩ := Receiver.missing_commit hex ha
      refine ⟨?_, fun h => by cases h⟩
      dsimp only
      rw [List.length_append]
      rcases htakes hnf ht (fun s hs => by rw [List.head?_append, hs]; rfl) with ⟨rfl, rfl, rfl⟩ | ⟨hs, hle⟩
      · -- the message is this one slot, or the rest of one begun before
        cases hstate : rx''.state with
        | failed e => exact absurd hstate (hnf e)
        | receiving =>
            have hsum := hr hstate
            have hle := hrecv hstate
            simp only [List.length_nil]
            omega
        | idle =>
            have hsum := hi hstate
            have hle := hidle hstate slot frame rfl (Receiver.examine_eq_ok.mp hex).1
            simp only [List.length_nil]
            omega
      · have hsum := hr hs
        omega

end Delivered

/-! ## the outline -/

/-- A copy stays within the first `count` bytes of the buffer. -/
def CopyWithin (count : UInt64) : EndpointOp ringMemory Receiver → Prop
  | .copyToUser offset bytes => offset + bytes.length ≤ count.toNat
  | _ => True

/-- The view of the call: between any two operations the peer moves, and
nobody else touches the receiver. -/
def readerView (peer : Peer) (count : UInt64) : View (endpointIface ringMemory Receiver) ReaderState where
  exec o s r t := s.Answers o r ∧ t = s.effect o
  inv _ := True
  pre o _ := CopyWithin count o
  wait _ := True
  rely s t := t.rx = s.rx ∧ peer.moves s.ring t.ring
  guar _ _ := True
  rely_refl _ := ⟨rfl, peer.refl _⟩
  rely_trans h h' := ⟨h'.1.trans h.1, peer.trans h.2 h'.2⟩

/-- A call may return at most `count`. -/
def ReturnsWithin (count : UInt64) (a : Except Errno Nat) (_ : ReaderState) : Prop :=
  ∀ n, a = .ok n → n ≤ count.toNat

def readerOutline (peer : Peer) (target : NotifyTarget) (iterations : Nat) (count : UInt64) (rx : Receiver) :
    Machine.Outline (readerMachine peer target iterations count) where
  inv := (readerView peer count).inv
  pre _ := (readerView peer count).pre
  rely _ := (readerView peer count).rely
  guar _ := (readerView peer count).guar
  post _ := ReturnsWithin count
  idle _ s := s.rx = rx
  rely_refl _ := (readerView peer count).rely_refl
  rely_trans _ {_ _ _} := (readerView peer count).rely_trans
  guar_rely {i j _ _} hij _ _ := absurd (Subsingleton.elim i j) hij
  env_rely {s t} _ h := by
    obtain ⟨ring, hring, rfl⟩ := h
    exact ⟨trivial, fun _ => ⟨rfl, hring⟩⟩
  idle_stable h hr _ := hr.1.trans h
  finish_ok _ _ h := h.elim

/-- A call that is safe from every memory never overruns. -/
theorem neverOverruns_of_safe {peer : Peer} {rx : Receiver} {count : UInt64}
    (h : ∀ target iterations s, s.rx = rx →
      (readerView peer count).Safe (ReturnsWithin count) (recvMessage memoryRing target iterations count) s) :
    NeverOverruns peer rx count := by
  intro target iterations ring c hc
  have hgood : (readerOutline peer target iterations count rx).Good c := by
    refine Machine.Outline.good _ ?_ trivial (fun _ => rfl) hc
    rintro i call s t - hidle rfl
    exact ⟨trivial, trivial, h target iterations _ hidle⟩
  exact ⟨fun offset bytes k hk => hgood.pre hk, fun n hn => hgood.post hn n rfl⟩

namespace DoubleFetch

/-! ## reading the ring while the peer moves -/

/-- The peer leaves a published slot that is consumed next alone. -/
def KeepsFront (peer : Peer) : Prop := ∀ ⦃m m'⦄, peer.moves m m' → ∀ slot, Front slot m → Front slot m'

section Ring

variable {peer : Peer} {count : UInt64} {rx : Receiver} {s t : ReaderState}

/-- Operations that leave the receiver alone and copy nothing out. -/
def Quiet (o : EndpointOp ringMemory Receiver) : Prop :=
  (∀ s, (ReaderState.effect s o).rx = s.rx) ∧ ∀ count, CopyWithin count o

theorem each_memoryRing (o : RingOp) : (memoryRing o).Each Quiet := by
  refine Each.subst (fun a _ => ?_) (each_true _)
  exact ⟨⟨fun _ => rfl, fun _ => trivial⟩, fun _ => trivial⟩

theorem safe_quiet {α : Type} {p : Prog (endpointIface ringMemory Receiver) α} (hp : p.Each Quiet)
    (hs : s.rx = rx) : (readerView peer count).Safe (fun _ t => t.rx = rx) p s := by
  refine View.Safe.of_each (fun _ => trivial) (fun _ _ h hr _ => hr.1.trans h) (fun o _ ho => ho.2 count) ?_ hp hs
  rintro o t r u ho ht - ⟨-, rfl⟩
  exact ⟨trivial, trivial, (ho.1 t).trans ht⟩

/-- A published slot where the consumer's cursor points. -/
def At (rx : Receiver) (slot : Slot) (head : UInt32) (s : ReaderState) : Prop :=
  s.rx = rx ∧ Front slot s.ring ∧ s.ring.head = head

theorem At.stable (hk : KeepsFront peer) {slot : Slot} {head : UInt32} (h : At rx slot head s)
    (hr : (readerView peer count).rely s t) : At rx slot head t :=
  ⟨hr.1.trans h.1, hk hr.2 slot h.2.1, (peer.head hr.2).trans h.2.2⟩

/-- Copying out a published slot that stays as it is. -/
theorem safe_loadBytes (hk : KeepsFront peer) {slot : Slot} {head : UInt32} (todo : List (Fin slotSize))
    {buf : Slot} (hs : At rx slot head s) (hbuf : ∀ j, j ∉ todo → buf.get j = slot.get j) :
    (readerView peer count).Safe (fun found t => At rx slot head t ∧ found = slot)
      ((loadBytes (slotIndex head) buf todo).subst fun a =>
        op (I := endpointIface ringMemory Receiver) (.ring a)) s := by
  induction todo generalizing buf s with
  | nil =>
      have heq : buf = slot := Slot.ext fun j => hbuf j (by simp)
      exact View.safe_ret (At rx slot head) hs (fun _ _ h hr _ => h.stable hk hr) fun t ht _ => ⟨ht, heq⟩
  | cons j todo ih =>
      refine View.safe_act (At rx slot head) hs (fun _ _ h hr _ => h.stable hk hr) fun t ht _ => ⟨trivial, ?_⟩
      rintro r u ⟨rfl, rfl⟩
      refine ⟨trivial, trivial, ih ht fun j' hj' => ?_⟩
      by_cases hj : j' = j
      · subst hj
        rw [Slot.get_set_self, ← ht.2.2]
        exact congrArg (fun x => Slot.get x j') ht.2.1.2
      · rw [Slot.get_set_of_ne _ _ hj]
        exact hbuf j' (by simp [hj, hj'])

/-- What a peek leaves behind, when the peer keeps a published front slot: the
front slot is still there, and it is the slot found. -/
def Peeked (peer : Peer) (s : ReaderState) (found : Option Slot) (t : ReaderState) : Prop :=
  t.rx = s.rx ∧ (KeepsFront peer →
    (∀ slot, Front slot s.ring → Front slot t.ring) ∧ ∀ slot, found = some slot → Front slot t.ring)

theorem safe_peek : (readerView peer count).Safe (Peeked peer s) (memoryRing .peek) s := by
  by_cases hk : KeepsFront peer
  · have hkeep {t u : ReaderState} (h : ∀ slot, Front slot s.ring → Front slot t.ring)
        (hr : (readerView peer count).rely t u) (slot : Slot) (hs : Front slot s.ring) : Front slot u.ring :=
      hk hr.2 slot (h slot hs)
    refine View.safe_act (fun t => t.rx = s.rx ∧ ∀ slot, Front slot s.ring → Front slot t.ring)
      ⟨rfl, fun _ h => h⟩ (fun _ _ h hr _ => ⟨hr.1.trans h.1, hkeep h.2 hr⟩) fun t ht _ => ⟨trivial, ?_⟩
    rintro head u ⟨rfl, rfl⟩
    refine ⟨trivial, trivial, ?_⟩
    refine View.safe_act (fun u => (u.rx = s.rx ∧ ∀ slot, Front slot s.ring → Front slot u.ring) ∧
      u.ring.head = t.ring.head) ⟨ht, rfl⟩
      (fun _ _ h hr _ => ⟨⟨hr.1.trans h.1.1, hkeep h.1.2 hr⟩, (peer.head hr.2).trans h.2⟩)
      fun u hu _ => ⟨trivial, ?_⟩
    rintro tail v ⟨rfl, rfl⟩
    refine ⟨trivial, trivial, ?_⟩
    change (readerView peer count).Safe (Peeked peer s) ((ite (t.ring.head = u.ring.tail) (.ret none)
      (loadBytes (slotIndex t.ring.head) Slot.zero (List.finRange _) >>= fun slot => .ret (some slot))).subst
        fun a => op (I := endpointIface ringMemory Receiver) (.ring a)) u
    split
    · exact View.safe_ret (fun u => u.rx = s.rx ∧ ∀ slot, Front slot s.ring → Front slot u.ring) hu.1
        (fun _ _ h hr _ => ⟨hr.1.trans h.1, hkeep h.2 hr⟩) fun w hw _ => ⟨hw.1, fun _ => ⟨hw.2, by simp⟩⟩
    · next hne =>
        rw [subst_bind]
        have hat : At s.rx (u.ring.slots (slotIndex u.ring.head)) t.ring.head u :=
          ⟨hu.1.1, ⟨by rw [hu.2]; exact hne, rfl⟩, hu.2⟩
        refine View.Safe.bind ((safe_loadBytes hk _ hat fun j hj => absurd (List.mem_finRange j) hj).mono ?_)
        rintro found w - ⟨hw, rfl⟩
        refine View.safe_ret _ hw (fun _ _ h hr _ => h.stable hk hr) fun x hx _ => ⟨hx.1, fun _ => ⟨fun slot hs => ?_, ?_⟩⟩
        · rw [(hu.1.2 slot hs).unique ⟨by rw [hu.2]; exact hne, rfl⟩]
          exact hx.2.1
        · rintro slot ⟨⟩
          exact hx.2.1
  · exact (safe_quiet (each_memoryRing .peek) rfl).mono fun _ _ _ h => ⟨h, fun h' => absurd h' hk⟩

/-- Since `s` the slots `slots` were popped.  As long as there is none, a
published front slot is still in front, and is what a peek finds; the first
one popped is what was in front. -/
structure Reads (peer : Peer) (s : ReaderState) (slots : List Slot) (seen : Option (Option Slot)) (t : ReaderState) :
    Prop where
  rx : t.rx = s.rx
  front : KeepsFront peer → slots = [] → ∀ slot, Front slot s.ring → Front slot t.ring
  seen : KeepsFront peer → slots = [] → ∀ slot, seen = some (some slot) → Front slot t.ring
  first : KeepsFront peer → ∀ slot slot', slots.head? = some slot → Front slot' s.ring → slot = slot'

theorem Reads.refl (s : ReaderState) : Reads peer s [] none s :=
  ⟨rfl, fun _ _ _ h => h, by simp, by simp⟩

theorem popLog : PopLog (readerView peer count) memoryRing (Reads peer) where
  stable h hr _ := ⟨hr.1.trans h.rx, fun hk hn slot hs => hk hr.2 slot (h.front hk hn slot hs),
    fun hk hn slot hs => hk hr.2 slot (h.seen hk hn slot hs), h.first⟩
  peek {s slots seen t} h := by
    refine safe_peek.mono fun found u _ hu => ?_
    refine ⟨hu.1.trans h.rx, fun hk hn slot hs => (hu.2 hk).1 slot (h.front hk hn slot hs),
      fun hk _ slot hs => (hu.2 hk).2 slot (Option.some.inj hs), h.first⟩
  pop {s slots slot t} h := by
    refine (safe_quiet (each_memoryRing .pop) h.rx).mono fun _ u _ hu => ?_
    refine ⟨hu, fun _ hn => by simp at hn, by simp, fun hk x y hx hy => ?_⟩
    cases slots with
    | nil =>
        cases hx
        exact (h.seen hk rfl _ rfl).unique (h.front hk rfl y hy)
    | cons z slots => exact h.first hk x y hx hy

end Ring

/-! ## the call -/

/-- A first frame of a message that fits in the buffer. -/
def Fits (count : UInt64) (slot : Slot) : Prop :=
  ∀ frame, decodeFrame slot = .ok frame → frame.messageLen.toNat ≤ count.toNat

/-- Whatever frame is popped first, its message fits. -/
def Opening (peer : Peer) (count : UInt64) (m : Ring) : Prop :=
  count.toNat = 2 ^ 64 - 1 ∨ KeepsFront peer ∧ ∃ slot, Front slot m ∧ Fits count slot

/-- After `received` bytes, what may still come fits in the buffer. -/
def Room (peer : Peer) (count : UInt64) (received : Nat) (rx : Receiver) (m : Ring) : Prop :=
  match rx.state with
  | .receiving => received + rx.missing ≤ count.toNat
  | .idle => received = 0 ∧ Opening peer count m
  | .failed _ => True

section Call

variable {peer : Peer} {target : NotifyTarget} {count : UInt64} {received : Nat} {rx : Receiver} {m m' : Ring}
  {s t : ReaderState}

theorem Opening.stable (h : Opening peer count m) (hm : KeepsFront peer → ∀ slot, Front slot m → Front slot m') :
    Opening peer count m' := by
  cases h with
  | inl hmax => exact .inl hmax
  | inr hfront =>
      obtain ⟨hk, slot, hslot, hfits⟩ := hfront
      exact .inr ⟨hk, slot, hm hk slot hslot, hfits⟩

theorem Room.stable (h : Room peer count received rx m)
    (hm : KeepsFront peer → ∀ slot, Front slot m → Front slot m') : Room peer count received rx m' := by
  unfold Room at h ⊢
  split
  · next hstate => rwa [hstate] at h
  · next hstate =>
      rw [hstate] at h
      exact ⟨h.1, h.2.stable hm⟩
  · trivial

/-- **One read keeps to the room there is.** -/
theorem Room.read {outputLen : Nat} {slots : List Slot} {seen : Option (Option Slot)} {rx' : Receiver}
    {progress : ReceiveProgress} (h : Room peer count received s.rx s.ring) (hr : Reads peer s slots seen t)
    (hres : ReadResult s.rx outputLen slots seen rx' (.ok progress)) :
    received + progress.output.length ≤ count.toNat ∧ (progress.complete = false →
      Room peer count (received + progress.output.length) rx' t.ring) := by
  have hle : received ≤ count.toNat := by
    unfold Room at h
    split at h
    · omega
    · omega
    · next hstate => cases (hres.of_failed hstate).2.2
  obtain ⟨hout, hnext⟩ := hres.within (count.toNat - received)
    (fun hstate => by
      simp only [Room, hstate] at h
      omega)
    (fun hstate slot frame hhead hdec => by
      simp only [Room, hstate] at h
      rcases h.2 with hmax | ⟨hk, front, hfront, hfits⟩
      · have hlt := frame.messageLen.toNat_lt
        omega
      · rw [hr.first hk slot front hhead hfront] at hdec
        have hfit := hfits frame hdec
        omega)
  refine ⟨by omega, fun hc => ?_⟩
  rcases hnext hc with ⟨rfl, rfl, hnil⟩ | ⟨hstate, hsum⟩
  · rw [hnil]
    exact h.stable fun hk => hr.front hk rfl
  · simp only [Room, hstate]
    omega

/-- At the start of a message, no length is too large or the peer keeps to
what it has published. -/
def Guarded (peer : Peer) (count : UInt64) (s : ReaderState) : Prop :=
  s.rx.state = .idle → count.toNat = 2 ^ 64 - 1 ∨ KeepsFront peer

/-- What the peer's moves do not invalidate. -/
def Stable (peer : Peer) (P : ReaderState → Prop) : Prop :=
  ∀ s t : ReaderState, P s → t.rx = s.rx → peer.moves s.ring t.ring → P t

theorem stable_room : Stable peer fun s => Room peer count received s.rx s.ring := by
  intro s t h hrx hm
  rw [hrx]
  exact h.stable fun hk => hk hm

theorem stable_guarded : Stable peer (Guarded peer count) := by
  intro s t h hrx _
  rw [Guarded, hrx]
  exact h

theorem stable_true : Stable peer fun _ => True := fun _ _ _ _ _ => trivial

section Assertions

variable {α : Type} {P : ReaderState → Prop} (hstable : Stable peer P) (hs : P s)

include hstable hs

/-- Operations on neither the ring nor the receiver keep every stable
assertion. -/
theorem safe_still {p : Prog (endpointIface ringMemory Receiver) α}
    (hp : p.Each fun o => (∀ s, ReaderState.effect s o = s) ∧ ∀ count, CopyWithin count o) :
    (readerView peer count).Safe (fun _ t => P t) p s := by
  refine View.Safe.of_each (fun _ => trivial) (fun s t h hr _ => hstable s t h hr.1 hr.2)
    (fun o _ ho => ho.2 count) ?_ hp hs
  rintro o t r u ho ht - ⟨-, rfl⟩
  rw [ho.1]
  exact ⟨trivial, trivial, ht⟩

theorem safe_notifyPublisher : (readerView peer count).Safe (fun _ t => P t) (notifyPublisher target) s := by
  refine safe_still hstable hs ?_
  rw [notifyPublisher]
  split
  · exact ⟨⟨fun _ => rfl, fun _ => trivial⟩, fun _ => trivial⟩
  · trivial

theorem safe_deadlineAfter (ms : Nat) : (readerView peer count).Safe (fun _ t => P t) (deadlineAfter ms) s :=
  safe_still hstable hs
    ⟨⟨fun _ => rfl, fun _ => trivial⟩, fun _ => ⟨⟨fun _ => rfl, fun _ => trivial⟩, fun _ => trivial⟩⟩

theorem safe_afterProgress (slots : Nat) (deadline : UInt64) :
    (readerView peer count).Safe (fun _ t => P t) (afterProgress target slots deadline) s := by
  rw [afterProgress]
  split
  · refine View.Safe.bind ((safe_deadlineAfter hstable hs _).mono fun d t _ ht => ?_)
    refine View.Safe.bind ((safe_notifyPublisher hstable ht).mono fun _ u _ hu => ?_)
    exact fun v hv _ => hstable u v hu hv.1 hv.2
  · exact fun t ht _ => hstable s t hs ht.1 ht.2

/-- Any other single operation that copies nothing out. -/
theorem safe_act {o : EndpointOp ringMemory Receiver}
    {k : (endpointIface ringMemory Receiver).Res o → Prog (endpointIface ringMemory Receiver) α}
    {post : α → ReaderState → Prop} (ho : CopyWithin count o)
    (hk : ∀ t r, P t → t.Answers o r → (readerView peer count).Safe post (k r) (t.effect o)) :
    (readerView peer count).Safe post (.act o k) s := by
  refine View.safe_act P hs (fun s t h hr _ => hstable s t h hr.1 hr.2) fun t ht _ => ⟨ho, ?_⟩
  rintro r u ⟨hr, rfl⟩
  exact ⟨trivial, trivial, hk t r ht hr⟩

/-- Loading, working on and storing the receiver. -/
theorem safe_onReceiver {f : Receiver → Prog (endpointIface ringMemory Receiver) (Receiver × α)}
    {post : α → ReaderState → Prop}
    (hf : ∀ t, P t → (readerView peer count).Safe (fun r u => ∀ v, peer.moves u.ring v.ring → v.rx = r.1 →
      (readerView peer count).Safe post (.ret r.2) v) (f t.rx) t) :
    (readerView peer count).Safe post (onReceiver f) s := by
  refine safe_act hstable hs trivial fun t r ht hr => ?_
  obtain rfl : r = t.rx := hr
  refine View.Safe.bind (p := f t.rx) ((hf t ht).mono fun r u _ hu => ?_)
  intro v hv _
  refine ⟨trivial, ?_⟩
  rintro _ w ⟨-, rfl⟩
  exact ⟨trivial, trivial, hu _ hv.2 rfl⟩

theorem safe_poison (e : Errno) : (readerView peer count).Safe (ReturnsWithin count) (poison e) s :=
  safe_onReceiver hstable hs fun _ _ _ _ _ _ _ _ _ _ _ n hn => by cases hn

end Assertions

/-- The rest of an iteration, once the bytes of a read are known to fit. -/
theorem safe_recvProgress {messageLen deadline : UInt64} {progress : ReceiveProgress}
    {again : Nat → UInt64 → Prog (endpointIface ringMemory Receiver) (Except Errno Nat)}
    (hfits : received + progress.output.length ≤ count.toNat)
    (hroom : progress.complete = false → Room peer count (received + progress.output.length) s.rx s.ring)
    (hagain : ∀ deadline t, Room peer count (received + progress.output.length) t.rx t.ring →
      (readerView peer count).Safe (ReturnsWithin count) (again (received + progress.output.length) deadline) t) :
    (readerView peer count).Safe (ReturnsWithin count)
      (recvProgress target messageLen received deadline progress again) s := by
  have hstable : Stable peer fun s => progress.complete = false →
      Room peer count (received + progress.output.length) s.rx s.ring :=
    fun s t h hrx hm hc => stable_room s t (h hc) hrx hm
  refine View.Safe.bind ((safe_afterProgress hstable hroom _ _).mono fun d t _ ht => ?_)
  have hcopy : (readerView peer count).Safe (fun _ t => progress.complete = false →
      Room peer count (received + progress.output.length) t.rx t.ring) (copyAnyToUser received progress.output) t := by
    rw [copyAnyToUser]
    split
    · exact safe_act hstable ht hfits fun u _ hu _ v hv _ => hstable u v hu hv.1 hv.2
    · exact fun u hu _ => hstable t u ht hu.1 hu.2
  refine View.Safe.bind (hcopy.mono fun uncopied u _ hu => ?_)
  split
  · exact safe_poison stable_true trivial _
  · split
    · intro v _ _ n hn
      split at hn
      · cases hn
      · cases hn
        exact hfits
    · next hc =>
        have hu := hu (by simpa using hc)
        split
        · exact hagain d u hu
        · refine safe_act stable_room hu trivial fun v now hv _ => ?_
          change (readerView peer count).Safe (ReturnsWithin count) (ite _ _ _) v
          split
          · exact safe_poison stable_true trivial _
          · refine safe_act stable_room hv trivial fun w left hw _ => ?_
            change (readerView peer count).Safe (ReturnsWithin count) (ite _ _ _) w
            split
            · exact safe_poison stable_true trivial _
            · exact hagain d w hw

/-- The polling loop never copies past the buffer. -/
theorem safe_recvLoop (messageLen : UInt64) (iterations : Nat) (deadline : UInt64)
    (hs : Room peer count received s.rx s.ring) : (readerView peer count).Safe (ReturnsWithin count)
      (recvLoop memoryRing target messageLen received deadline iterations) s := by
  induction iterations generalizing received deadline s with
  | zero => exact fun _ _ _ => trivial
  | succ iterations ih =>
      have hread : (readerView peer count).Safe (fun result t => ∀ progress, result = .ok progress →
          received + progress.output.length ≤ count.toNat ∧ (progress.complete = false →
            Room peer count (received + progress.output.length) t.rx t.ring))
          (onReceiver fun rx => messageTryRead memoryRing rx fragmentCapacity) s := by
        refine safe_onReceiver stable_room hs fun t ht => ?_
        refine (safe_messageTryRead popLog fragmentCapacity (Reads.refl t)).mono ?_
        rintro ⟨rx', result⟩ u - ⟨slots, seen, hreads, hres⟩ v hv hrx w hw - progress rfl
        obtain ⟨hfits, hnext⟩ := ht.read hreads hres
        refine ⟨hfits, fun hc => ?_⟩
        rw [hw.1, hrx]
        exact (hnext hc).stable fun hk slot hslot => hk hw.2 slot (hk hv slot hslot)
      refine View.Safe.bind (hread.mono fun result t _ ht => ?_)
      cases result with
      | error e =>
          dsimp only
          split
          · refine View.Safe.bind ((safe_notifyPublisher stable_true trivial).mono fun _ u _ _ => ?_)
            exact fun _ _ _ n hn => by cases hn
          · exact fun _ _ _ n hn => by cases hn
      | ok progress =>
          obtain ⟨hfits, hroom⟩ := ht progress rfl
          exact safe_recvProgress hfits hroom fun d u hu => ih d hu

/-- Between lock and unlock: the length compared with `count` bounds what the
loop may deliver, or no length is too large. -/
theorem safe_recvLocked (iterations : Nat)
    (hs : Guarded peer count s) :
    (readerView peer count).Safe (ReturnsWithin count) (recvLocked memoryRing target iterations count) s := by
  have hpeek : (readerView peer count).Safe (fun result t => ∀ found, result = .ok (some found) →
      found.len.toNat ≤ count.toNat → Room peer count 0 t.rx t.ring) (onReceiver (messagePeekMeta memoryRing)) s := by
    refine safe_onReceiver stable_guarded hs fun t ht => ?_
    refine (safe_messagePeekMeta popLog (Reads.refl t)).mono ?_
    rintro ⟨rx', result⟩ u - ⟨seen, hreads, hres⟩ v hv hrx w hw - found rfl hle
    rw [hw.1, hrx]
    generalize hfound : Except.ok (some found) = result at hres
    cases hres with
    | failed h => cases hfound
    | empty h => cases hfound
    | protocol h => cases hfound
    | receiving hstate =>
        cases hfound
        simp only [Room, hstate]
        rw [Nat.zero_add]
        exact Nat.le_trans (Nat.sub_le _ _) hle
    | available hstate hdec =>
        cases hfound
        simp only [Room, hstate]
        refine ⟨trivial, ?_⟩
        rcases ht hstate with hmax | hk
        · exact .inl hmax
        · refine .inr ⟨hk, _, hk hw.2 _ (hk hv _ (hreads.seen hk rfl _ rfl)), fun frame hframe => ?_⟩
          rw [hdec] at hframe
          cases hframe
          exact hle
  refine View.Safe.bind (hpeek.mono fun result t _ ht => ?_)
  match result with
  | .error e => exact fun _ _ _ n hn => by cases hn
  | .ok none => exact fun _ _ _ n hn => by cases hn; exact Nat.zero_le _
  | .ok (some found) =>
      dsimp only
      split
      · exact fun _ _ _ n hn => by cases hn
      · next hle =>
          rw [gt_iff_lt, UInt64.lt_iff_toNat_lt, Nat.not_lt] at hle
          refine View.Safe.bind ((safe_deadlineAfter stable_room (ht found rfl hle) _).mono fun d u _ hu => ?_)
          exact safe_recvLoop _ _ d hu

theorem safe_recvMessage (iterations : Nat)
    (hs : Guarded peer count s) :
    (readerView peer count).Safe (ReturnsWithin count) (recvMessage memoryRing target iterations count) s := by
  rw [recvMessage]
  split
  · exact fun _ _ _ n hn => by cases hn; exact Nat.zero_le _
  · refine safe_act stable_guarded hs trivial fun t r ht _ => ?_
    cases r with
    | error e => exact fun _ _ _ n hn => by cases hn
    | ok u =>
        refine View.Safe.bind (p := recvLocked memoryRing target iterations count)
          ((safe_recvLocked iterations ht).mono fun a u _ hu => ?_)
        exact safe_act stable_true trivial trivial fun v _ _ _ _ _ _ => hu

end Call

/-! ## a peer that shows two lengths -/

/-- A world in which everything a call asks for succeeds. -/
def obliging (o : EndpointOp ringMemory Receiver) (s : ReaderState) :
    (endpointIface ringMemory Receiver).Res o × ReaderState :=
  let answer : (endpointIface ringMemory Receiver).Res o :=
    match o with
    | .mutexLockInterruptible => .ok ()
    | .load => s.rx
    | .ring a => (access a s.ring).1
    | .copyFromUser _ _ | .copyToUser _ _ | .msleepInterruptible _ => (0 : Nat)
    | .jiffies | .msecsToJiffies _ | .hvcNotifyChannel _ _ _ => (0 : UInt64)
    | .mutexUnlock | .store _ | .msleep _ => ()
  (answer, s.effect o)

theorem exec_obliging {peer : Peer} {target : NotifyTarget} {iterations : Nat} {count : UInt64} (i : Unit)
    (o : EndpointOp ringMemory Receiver) (s : ReaderState) :
    (readerMachine peer target iterations count).exec i o s (obliging o s).1 (obliging o s).2 := by
  refine ⟨?_, rfl⟩
  cases o with
  | load => rfl
  | ring a => rfl
  | copyToUser offset bytes => exact Nat.zero_le _
  | _ => trivial

/-- An access to the ring, on the whole state. -/
def perform (a : RingAccess) (s : ReaderState) : ringMemory.Res a × ReaderState :=
  ((access a s.ring).1, { s with ring := (access a s.ring).2 })

/-- While the peer rests, the ring does what it does alone. -/
theorem run_memoryRing (o : RingOp) (s : ReaderState) :
    (memoryRing o).run obliging s = some ((ringStep o s.ring).1, { s with ring := (ringStep o s.ring).2 }) := by
  have hsubst : (memoryRing o).run obliging s = (ringProgram o).run perform s := run_subst (fun _ _ => rfl) _ _
  have hlens : ∀ a m, perform a { s with ring := m } = ((access a m).1, { s with ring := (access a m).2 }) :=
    fun _ _ => rfl
  rw [hsubst]
  exact run_lens (fun m => { s with ring := m }) hlens (run_ringProgram o s.ring)

/-- A frame with one byte of a message of the largest length there is. -/
def longSlot (first : Bool) : Slot :=
  ⟨frameBytes 1 (~~~0) first false false [0], length_frameBytes _ _ _ _ _ (by decide)⟩

/-- The receiver after `j` bytes of the long message. -/
def Fooled (j : Nat) (rx : Receiver) : Prop :=
  j = 0 ∧ rx.state = .idle ∨ 0 < j ∧ rx = ⟨.receiving, ⟨1, ~~~0⟩, .ofNat j⟩

theorem Fooled.examine {j : Nat} {rx : Receiver} (h : Fooled j rx) (hj : j < 2 ^ 64 - 1) :
    ∃ frame transition, rx.examine (longSlot (j == 0)) = .ok (frame, transition) ∧ frame.fragment = [0] ∧
      transition.aborted = false ∧ transition.complete = false ∧ Fooled (j + 1) (rx.commit transition) := by
  have henc : encodeFrame 1 (~~~0) (j == 0) false false [0] = .ok (longSlot (j == 0)) := by
    cases j == 0 <;> rfl
  obtain ⟨frame, hdec, hid, hlen, hfirst, hlast, habort, hfrag⟩ := decodeFrame_encodeFrame henc
  have hbase : transitionBase rx frame = .ok (⟨1, ~~~0⟩, .ofNat j) := by
    rcases h with ⟨rfl, hidle⟩ | ⟨hpos, rfl⟩
    · exact (transitionBase_idle hidle).mpr ⟨habort, hfirst, by rw [hid, hlen]; rfl⟩
    · refine (transitionBase_receiving rfl).mpr ⟨?_, hid, hlen, rfl⟩
      rw [hfirst]
      exact beq_false_of_ne (by omega)
  have htoNat : (UInt64.ofNat j).toNat = j := by
    rw [UInt64.toNat_ofNat']
    omega
  have hval := validateTransition_eq_ok.mpr ⟨_, _, hbase, .inr ⟨habort, by
    rw [hfrag, htoNat]
    change j + 1 ≤ 2 ^ 64 - 1
    omega, by simp [hlast], rfl⟩⟩
  refine ⟨frame, _, Receiver.examine_eq_ok.mpr ⟨hdec, hval⟩, hfrag, rfl, hlast, .inr ⟨by omega, ?_⟩⟩
  rw [hlast, hfrag]
  simp only [Receiver.commit, Receiver.mk.injEq, Bool.false_eq_true, if_false, true_and]
  apply UInt64.toNat_inj.mp
  simp

/-- A ring with nothing but the slot `slot` in it. -/
def offer (slot : Slot) (m : Ring) : Ring := { m with tail := m.head + 1, slots := fun _ => slot }

theorem ringStep_peek_offer (slot : Slot) (m : Ring) : ringStep .peek (offer slot m) = (some slot, offer slot m) := by
  have hne : m.head ≠ m.head + 1 := by
    intro h
    have h1 := congrArg UInt32.toNat h
    have hlt := m.head.toNat_lt
    rw [UInt32.toNat_add] at h1
    change m.head.toNat = (m.head.toNat + 1) % 2 ^ 32 at h1
    omega
  simp [ringStep, offer, hne]

/-- Reading the one byte that is offered. -/
theorem run_messageTryRead {rx : Receiver} {m : Ring} {slot : Slot} {frame : Frame} {transition : Transition}
    (hnf : ∀ e, rx.state ≠ .failed e) (hex : rx.examine slot = .ok (frame, transition)) (hfrag : frame.fragment = [0])
    (ha : transition.aborted = false) (hc : transition.complete = false) :
    ∃ m', (messageTryRead memoryRing rx fragmentCapacity).run obliging ⟨rx, offer slot m⟩ =
      some ((rx.commit transition, .ok ⟨[0], 1, false⟩), ⟨rx, m'⟩) := by
  have hloop : messageTryRead memoryRing rx fragmentCapacity =
      processLoop memoryRing fragmentCapacity rx [] 0 (231 + 1 + 1) := by
    rw [messageTryRead, processAvailableSlots]
    split
    · next e he => exact absurd he (hnf e)
    · rfl
  refine ⟨{ offer slot m with head := m.head + 1 }, ?_⟩
  rw [hloop, processLoop_succ, run_bind, run_memoryRing, Option.bind_some, ringStep_peek_offer]
  dsimp only
  rw [hex]
  dsimp only
  rw [hfrag, ha, hc]
  change ((memoryRing .pop) >>= fun _ => processLoop memoryRing fragmentCapacity (rx.commit transition) [0] 1
    (231 + 1)).run obliging ⟨rx, offer slot m⟩ = _
  rw [run_bind, run_memoryRing, Option.bind_some, processLoop_succ, run_bind, run_memoryRing, Option.bind_some]
  simp only [ringStep, offer, if_true]
  rfl

theorem run_onReceiver {α : Type} {f : Receiver → Prog (endpointIface ringMemory Receiver) (Receiver × α)}
    {rx rx' : Receiver} {m m' : Ring} {a : α} (h : (f rx).run obliging ⟨rx, m⟩ = some ((rx', a), ⟨rx, m'⟩)) :
    (onReceiver f).run obliging ⟨rx, m⟩ = some (a, ⟨rx', m'⟩) := by
  change (f rx >>= fun r => .act (.store r.1) fun _ => .ret r.2).run obliging ⟨rx, m⟩ = _
  rw [run_bind, h]
  rfl

section Run

variable {iterations : Nat} {count : UInt64} {s₀ : ReaderState} {rx : Receiver} {m : Ring} {j n : Nat}
  {messageLen deadline : UInt64} {K : Except Errno Nat → Prog (endpointIface ringMemory Receiver) (Except Errno Nat)}

/-- The call has come to `p`. -/
abbrev Reaches (iterations : Nat) (count : UInt64) (s₀ s : ReaderState)
    (p : Prog (endpointIface ringMemory Receiver) (Except Errno Nat)) : Prop :=
  (readerMachine .tampering ⟨false, 0, 0⟩ iterations count).Reachable s₀
    ⟨s, Function.update (fun _ => none) () (some p)⟩

/-- One iteration, up to the copy: the peer offers a byte of the long message,
and the call is about to copy it to offset `j`. -/
theorem reaches_copy (hf : Fooled j rx) (hj : j < 2 ^ 64 - 1)
    (h : Reaches iterations count s₀ ⟨rx, m⟩
      (recvLoop memoryRing ⟨false, 0, 0⟩ messageLen j deadline (n + 1) >>= K)) :
    ∃ rx' m', Fooled (j + 1) rx' ∧ Reaches iterations count s₀ ⟨rx', m'⟩
      (.act (.copyToUser j [0]) fun uncopied => (if uncopied ≠ 0 then poison .EFAULT
        else recvLoop memoryRing ⟨false, 0, 0⟩ messageLen (j + 1) (0 + 0) n) >>= K) := by
  obtain ⟨frame, transition, hex, hfrag, ha, hc, hnext⟩ := hf.examine hj
  have hnf : ∀ e, rx.state ≠ .failed e := by
    rcases hf with ⟨-, hidle⟩ | ⟨-, rfl⟩
    · simp [hidle]
    · simp
  obtain ⟨m', hrun⟩ := run_messageTryRead (m := m) hnf hex hfrag ha hc
  have hoffer : Reaches iterations count s₀ ⟨rx, offer (longSlot (j == 0)) m⟩ _ :=
    h.tail (.env ⟨_, ⟨_, _, rfl⟩, rfl⟩)
  rw [recvLoop, bind_assoc] at hoffer
  have hread : Reaches iterations count s₀ ⟨rx.commit transition, m'⟩ _ :=
    hoffer.run_bind (exec_obliging ()) (run_onReceiver hrun)
  refine ⟨rx.commit transition, m', hnext, ?_⟩
  dsimp only at hread
  rw [recvProgress, bind_assoc] at hread
  exact hread.run_bind (a := 0 + 0) (exec_obliging ()) rfl

/-- The call can be brought to write any number of bytes. -/
theorem reaches_loop (h : Reaches iterations count s₀ ⟨rx, m⟩
      (recvLoop memoryRing ⟨false, 0, 0⟩ messageLen 0 deadline (n + j) >>= K))
    (hidle : rx.state = .idle) (hj : j < 2 ^ 64 - 1) :
    ∃ rx' m' deadline', Fooled j rx' ∧ Reaches iterations count s₀ ⟨rx', m'⟩
      (recvLoop memoryRing ⟨false, 0, 0⟩ messageLen j deadline' n >>= K) := by
  induction j generalizing n with
  | zero => exact ⟨rx, m, deadline, .inl ⟨rfl, hidle⟩, h⟩
  | succ j ih =>
      rw [Nat.add_comm j 1, ← Nat.add_assoc] at h
      obtain ⟨rx', m', deadline', hf, hloop⟩ := ih h (by omega)
      obtain ⟨rx'', m'', hf', hcopy⟩ := reaches_copy hf (by omega) hloop
      have hnext := hcopy.act () 0 (Function.update_self ..) ⟨Nat.zero_le _, rfl⟩
      rw [Function.update_idem] at hnext
      exact ⟨rx'', m'', _, hf', hnext⟩

/-- With a receiver between messages the call gets to its loop, having seen a
message of one byte. -/
theorem reaches_first (iterations : Nat) (hidle : rx.state = .idle) (hcount : count ≠ 0) :
    ∃ m₀ m deadline, Reaches iterations count ⟨rx, m₀⟩ ⟨rx, m⟩
      (recvLoop memoryRing ⟨false, 0, 0⟩ 1 0 deadline iterations >>= fun result =>
        .act .mutexUnlock fun _ => .ret result) := by
  have henc : encodeFrame 1 1 true true false [42] = .ok byteSlot := rfl
  obtain ⟨frame, hdec, hid, hlen, hfirst, hlast, habort, hfrag⟩ := decodeFrame_encodeFrame henc
  have hstart : Reaches iterations count ⟨rx, offer byteSlot (Ring.initial 0)⟩ ⟨rx, offer byteSlot (Ring.initial 0)⟩ _ :=
    Machine.Reachable.start Relation.ReflTransGen.refl () () rfl rfl
  rw [readerMachine, recvMessage, if_neg hcount] at hstart
  have hlock := hstart.act () (o := .mutexLockInterruptible) (.ok ()) (Function.update_self ..) ⟨trivial, rfl⟩
  rw [Function.update_idem] at hlock
  have hpeek : (messagePeekMeta memoryRing rx).run obliging ⟨rx, offer byteSlot (Ring.initial 0)⟩ =
      some ((rx, .ok (some ⟨1, 1⟩)), ⟨rx, offer byteSlot (Ring.initial 0)⟩) := by
    rw [messagePeekMeta, hidle]
    dsimp only
    rw [run_bind, run_memoryRing, Option.bind_some, ringStep_peek_offer]
    dsimp only
    rw [hdec]
    simp [hfirst, habort, hid, hlen]
  have hlocked : Reaches iterations count ⟨rx, offer byteSlot (Ring.initial 0)⟩
      ⟨rx, offer byteSlot (Ring.initial 0)⟩ (recvLocked memoryRing ⟨false, 0, 0⟩ iterations count >>= fun result =>
        .act .mutexUnlock fun _ => .ret result) := hlock
  rw [recvLocked, bind_assoc] at hlocked
  have hfound := hlocked.run_bind (exec_obliging ()) (run_onReceiver hpeek)
  have hfits : ¬ (1 : UInt64) > count := by
    rw [gt_iff_lt, UInt64.lt_iff_toNat_lt]
    have hne : count.toNat ≠ 0 := fun h => hcount (UInt64.toNat_inj.mp h)
    change ¬ count.toNat < 1
    omega
  dsimp only at hfound
  rw [if_neg hfits, bind_assoc] at hfound
  exact ⟨_, _, _, hfound.run_bind (a := 0 + 0) (exec_obliging ()) rfl⟩

/-- **The overrun**: between messages, and with room for any number of bytes
short of all there are, a peer can make the call copy past the buffer. -/
theorem overruns (hidle : rx.state = .idle) (hcount : count ≠ 0) (hlt : count.toNat < 2 ^ 64 - 1) :
    ¬ NeverOverruns .tampering rx count := by
  intro h
  obtain ⟨m₀, m, deadline, hfirst⟩ := reaches_first (1 + count.toNat) hidle hcount
  obtain ⟨rx', m', deadline', hf, hloop⟩ := reaches_loop hfirst hidle hlt
  obtain ⟨rx'', m'', -, hcopy⟩ := reaches_copy hf hlt hloop
  have hle := (h _ _ _ _ hcopy).1 count.toNat [0] _ rfl
  simp at hle

end Run

end DoubleFetch

/-- **Read bound**: against every peer a call stays within the buffer exactly
when it does not start at the beginning of a message, or when no message is
too long for the buffer; against a peer that leaves a published slot alone it
always does. -/
theorem read_bounded_iff (rx : Receiver) (count : UInt64) (hcount : count ≠ 0) :
    (NeverOverruns .tampering rx count ↔ rx.state ≠ .idle ∨ count.toNat = 2 ^ 64 - 1) ∧
      NeverOverruns .keepingFront rx count := by
  refine ⟨⟨fun h => ?_, fun h => ?_⟩, ?_⟩
  · by_contra hno
    rw [not_or, not_not] at hno
    have hlt := count.toNat_lt
    exact DoubleFetch.overruns hno.1 hcount (by omega) h
  · refine neverOverruns_of_safe fun target iterations s hs => DoubleFetch.safe_recvMessage iterations fun hidle => ?_
    rw [hs] at hidle
    exact .inl (h.resolve_left fun hne => hne hidle)
  · refine neverOverruns_of_safe fun target iterations s hs => DoubleFetch.safe_recvMessage iterations fun _ => ?_
    exact .inr fun _ _ h => h.2

/-- A reader with room for one byte, in the middle of a message of one byte. -/
theorem read_bounded_iff_receiving :
    NeverOverruns .tampering ⟨.receiving, ⟨1, 1⟩, 0⟩ 1 :=
  (read_bounded_iff ⟨.receiving, ⟨1, 1⟩, 0⟩ 1 (by decide)).1.mpr (.inl (by decide))

/-- A fresh receiver and a buffer of one byte. -/
theorem one_byte_buffer_overrun : ¬ NeverOverruns .tampering messageReceiverInit 1 :=
  DoubleFetch.overruns rfl (by decide) (by decide)

end Axivc
