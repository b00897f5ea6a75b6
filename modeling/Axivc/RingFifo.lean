import Axivc.Lib.Rely
import Axivc.RingQueue

/-!
# Axivc.RingFifo

The ring under concurrency: one producer and one consumer, interleaved at
single memory accesses.

`ringMachine` runs `ringTryPushSlot` calls on the producer side and
`ringTryPeekSlot` / `ringPopSlot` calls on the consumer side — a pop only
after a successful peek — on one ring memory.  Next to the memory the state
records history: the slots pushed and popped so far, and how many slots were
outstanding when each side last looked at the other side's cursor.

The outline is the usual one of a bounded buffer.  The producer owns the
free slot at the tail cursor and relies on the consumer only ever freeing
more; the consumer owns the head cursor and relies on the producer only ever
appending.  `Ring.Holds` is the invariant between any two accesses.
-/

namespace Axivc

open Prog Rely Axivc.Ring

/-- The two users of a ring. -/
inductive Side where
  | producer
  | consumer
  deriving DecidableEq

/-- What a call on the ring returns. -/
inductive RingRet where
  | pushed (ok : Bool)
  | peeked (slot : Option Slot)
  | popped

/-- The shared memory and the history of its use. -/
structure FifoState where
  ring : Ring
  /-- slots pushed so far, oldest first -/
  pushed : List Slot
  /-- slots popped so far, as the consumer peeked them, oldest first -/
  popped : List Slot
  /-- argument of the latest push call -/
  pushing : Option Slot
  /-- slot of the latest successful peek, until it is popped -/
  peeked : Option Slot
  /-- slots outstanding when the producer last loaded the head cursor -/
  atHead : Nat
  /-- slots outstanding when the consumer last loaded the tail cursor -/
  atTail : Nat

namespace FifoState

/-- The slots pushed and not yet popped. -/
def queue (s : FifoState) : List Slot := s.pushed.drop s.popped.length

/-- Before the first call. -/
def initial (ring : Ring) : FifoState := ⟨ring, [], [], none, none, 0, 0⟩

/-- The history after an access: a store of the tail cursor pushes, a store
of the head cursor pops, a load of the other side's cursor takes note of the
slots outstanding. -/
def record (s : FifoState) : Side → RingAccess → FifoState
  | .producer, .loadHead => { s with atHead := s.queue.length }
  | .producer, .storeTail _ => { s with pushed := s.pushed ++ s.pushing.toList }
  | .consumer, .loadTail => { s with atTail := s.queue.length }
  | .consumer, .storeHead _ => { s with popped := s.popped ++ s.peeked.toList, peeked := none }
  | _, _ => s

theorem record_storeTail (s : FifoState) (v : UInt32) :
    s.record .producer (.storeTail v) = { s with pushed := s.pushed ++ s.pushing.toList } := rfl

/-- An access by one of the sides: its answer, and memory and history after it. -/
def perform (side : Side) (a : RingAccess) (s : FifoState) : ringMemory.Res a × FifoState :=
  ((access a s.ring).1, { s.record side a with ring := (access a s.ring).2 })

end FifoState

/-- The program of a call on the ring. -/
def ringCall : RingOp → Prog ringMemory RingRet
  | .push slot => do pure (.pushed (← ringTryPushSlot slot))
  | .peek => do pure (.peeked (← ringTryPeekSlot))
  | .pop => do ringPopSlot; pure .popped

/-- One producer and one consumer on a ring. -/
def ringMachine : Machine Side ringMemory FifoState RingOp RingRet where
  body _ call _ := ringCall call
  exec side a s r t := r = (s.perform side a).1 ∧ t = (s.perform side a).2
  start side call s t :=
    match side, call with
    | .producer, .push slot => t = { s with pushing := some slot }
    | .consumer, .peek => t = { s with peeked := none }
    | .consumer, .pop => s.peeked.isSome ∧ t = s
    | _, _ => False
  finish _ ret s t :=
    match ret with
    | .peeked slot => t = { s with peeked := slot }
    | _ => t = s
  env _ _ := False

/-- The bounded queue the ring is meant to be: what one step may do to the
slots outstanding. -/
inductive FifoStep : List Slot → List Slot → Prop where
  | stay (q : List Slot) : FifoStep q q
  | enqueue (q : List Slot) (slot : Slot) : q.length < ringCapacity → FifoStep q (q ++ [slot])
  | dequeue (slot : Slot) (q : List Slot) : FifoStep (slot :: q) q

/-! ## the outline -/

namespace FifoState

/-- Between any two accesses the memory holds the outstanding slots, the
popped slots are the oldest pushed ones, and a peeked slot is the oldest
outstanding one. -/
structure Inv (s : FifoState) : Prop where
  holds : s.ring.Holds s.popped.length s.queue
  popped_le : s.popped <+: s.pushed
  peeked_eq : ∀ slot, s.peeked = some slot → s.queue.head? = some slot

/-- What the producer relies on: the consumer only frees slots. -/
structure Freed (s t : FifoState) : Prop where
  pushed : t.pushed = s.pushed
  pushing : t.pushing = s.pushing
  atHead : t.atHead = s.atHead
  slots : t.ring.slots = s.ring.slots
  popped : s.popped.length ≤ t.popped.length

/-- What the consumer relies on: the producer only appends slots. -/
structure Filled (s t : FifoState) : Prop where
  popped : t.popped = s.popped
  peeked : t.peeked = s.peeked
  atTail : t.atTail = s.atTail
  pushed : s.pushed <+: t.pushed

theorem Freed.refl (s : FifoState) : Freed s s := ⟨rfl, rfl, rfl, rfl, Nat.le_refl _⟩

theorem Freed.trans {s t u : FifoState} (h : Freed s t) (h' : Freed t u) : Freed s u :=
  ⟨h'.pushed.trans h.pushed, h'.pushing.trans h.pushing, h'.atHead.trans h.atHead,
    h'.slots.trans h.slots, Nat.le_trans h.popped h'.popped⟩

theorem Filled.refl (s : FifoState) : Filled s s := ⟨rfl, rfl, rfl, List.prefix_rfl⟩

theorem Filled.trans {s t u : FifoState} (h : Filled s t) (h' : Filled t u) : Filled s u :=
  ⟨h'.popped.trans h.popped, h'.peeked.trans h.peeked, h'.atTail.trans h.atTail,
    h.pushed.trans h'.pushed⟩

variable {s t : FifoState}

/-- The counts of pushed, popped and outstanding slots. -/
theorem Inv.length_eq (h : s.Inv) : s.popped.length + s.queue.length = s.pushed.length := by
  have hle := h.popped_le.length_le
  rw [queue, List.length_drop]
  omega

/-- Appending keeps the oldest outstanding slot. -/
theorem Filled.head?_eq (h : Filled s t) {slot : Slot} (hs : s.queue.head? = some slot) :
    t.queue.head? = some slot := by
  obtain ⟨more, hmore⟩ := h.pushed
  rw [queue, List.head?_drop] at hs ⊢
  rw [h.popped, ← hmore]
  have hlt := (List.getElem?_eq_some_iff.mp hs).1
  rw [List.getElem?_append_left hlt]
  exact hs

end FifoState

open FifoState

/-- No slot that is pushed and not yet popped is stored at index `i`. -/
def Unused (s : FifoState) (i : Fin ringCapacity) : Prop :=
  ∀ n, s.popped.length ≤ n → n < s.pushed.length → indexOf n ≠ i

/-! ## steps that do not show in the queue -/

/-- A step that shows neither in the queue nor in the consumer's records
keeps the producer's guarantee. -/
theorem filled_of_eq {s t : FifoState} (hpushed : t.pushed = s.pushed) (hpopped : t.popped = s.popped)
    (hpeeked : t.peeked = s.peeked) (htail : t.atTail = s.atTail) :
    Filled s t ∧ FifoStep s.queue t.queue := by
  refine ⟨⟨hpopped, hpeeked, htail, hpushed ▸ List.prefix_rfl⟩, ?_⟩
  rw [queue, queue, hpushed, hpopped]
  exact .stay _

/-- A step that shows neither in the queue, nor in the slots, nor in the
producer's records keeps the consumer's guarantee. -/
theorem freed_of_eq {s t : FifoState} (hpushed : t.pushed = s.pushed) (hpopped : t.popped = s.popped)
    (hpushing : t.pushing = s.pushing) (hhead : t.atHead = s.atHead)
    (hslots : t.ring.slots = s.ring.slots) : Freed s t ∧ FifoStep s.queue t.queue := by
  refine ⟨⟨hpushed, hpushing, hhead, hslots, Nat.le_of_eq (by rw [hpopped])⟩, ?_⟩
  rw [queue, queue, hpushed, hpopped]
  exact .stay _

/-- What the two sides rely on and guarantee. -/
def fifoOutline : Machine.Outline ringMachine where
  inv := Inv
  pre
    | .producer, .storeByte i _ _, s => Unused s i
    | _, _, _ => True
  rely
    | .producer => Freed
    | .consumer => Filled
  guar
    | .producer, s, t => Filled s t ∧ FifoStep s.queue t.queue
    | .consumer, s, t => Freed s t ∧ FifoStep s.queue t.queue
  post
    | .producer, .pushed false, s => s.atHead = ringCapacity
    | .consumer, .peeked (some slot), s => s.queue.head? = some slot
    | .consumer, .peeked none, s => s.atTail = 0
    | .producer, .peeked _, _ => False
    | _, _, _ => True
  idle _ _ := True
  rely_refl
    | .producer => Freed.refl
    | .consumer => Filled.refl
  rely_trans i {_ _ _} h h' := by
    cases i
    · exact Freed.trans h h'
    · exact Filled.trans h h'
  guar_rely {i j _ _} hij _ h := by
    cases i <;> cases j
    · exact absurd rfl hij
    · exact h.1
    · exact h.1
    · exact absurd rfl hij
  env_rely _ h := h.elim
  idle_stable _ _ _ := trivial
  finish_ok {side ret s t} hi hpost hf := by
    cases ret with
    | pushed ok =>
        subst hf
        cases side
        · exact ⟨hi, filled_of_eq rfl rfl rfl rfl, trivial⟩
        · exact ⟨hi, freed_of_eq rfl rfl rfl rfl rfl, trivial⟩
    | popped =>
        subst hf
        cases side
        · exact ⟨hi, filled_of_eq rfl rfl rfl rfl, trivial⟩
        · exact ⟨hi, freed_of_eq rfl rfl rfl rfl rfl, trivial⟩
    | peeked slot =>
        subst hf
        cases side
        · exact hpost.elim
        · refine ⟨⟨hi.holds, hi.popped_le, ?_⟩, freed_of_eq rfl rfl rfl rfl rfl, trivial⟩
          rintro x rfl
          exact hpost

/-! ## the producer -/

/-- What the producer knows while it fills the free slot: `todo` are the
offsets still to be written. -/
structure Filling (slot : Slot) (tail : UInt32) (todo : List (Fin slotSize)) (s : FifoState) : Prop where
  pushing : s.pushing = some slot
  tail_eq : tail = UInt32.ofNat s.pushed.length
  room : s.queue.length < ringCapacity
  bytes : ∀ j, j ∉ todo → (s.ring.slots (slotIndex tail)).get j = slot.get j

theorem Filling.stable {slot : Slot} {tail : UInt32} {todo : List (Fin slotSize)} {s t : FifoState}
    (h : Filling slot tail todo s) (hr : Freed s t) : Filling slot tail todo t := by
  refine ⟨hr.pushing.trans h.pushing, by rw [hr.pushed, h.tail_eq], ?_, by rw [hr.slots]; exact h.bytes⟩
  have hroom := h.room
  have hle := hr.popped
  rw [queue, List.length_drop] at hroom ⊢
  rw [hr.pushed]
  omega

/-- The slot being filled is none of the outstanding ones. -/
theorem Filling.unused {slot : Slot} {tail : UInt32} {todo : List (Fin slotSize)} {s : FifoState}
    (h : Filling slot tail todo s) (hi : s.Inv) : Unused s (slotIndex tail) := by
  intro n hle hlt
  have hlen := hi.length_eq
  have hroom := h.room
  rw [h.tail_eq, slotIndex_ofNat]
  exact indexOf_ne hlt (by omega)

/-- Writing the free slot keeps the invariant. -/
theorem Filling.inv_write {slot : Slot} {tail : UInt32} {todo : List (Fin slotSize)} {s : FifoState}
    (h : Filling slot tail todo s) (hi : s.Inv) (x : Slot) :
    ({ s with ring := { s.ring with slots := Function.update s.ring.slots (slotIndex tail) x } } :
      FifoState).Inv := by
  refine ⟨?_, hi.popped_le, hi.peeked_eq⟩
  have hidx : slotIndex tail = indexOf (s.popped.length + s.queue.length) := by
    rw [h.tail_eq, slotIndex_ofNat, hi.length_eq]
  rw [hidx]
  exact hi.holds.write h.room x

theorem safe_storeBytes {slot : Slot} {tail : UInt32} {post : Unit → FifoState → Prop}
    (hpost : ∀ t, t.Inv → Filling slot tail [] t → post () t) (todo : List (Fin slotSize))
    {s : FifoState} (hs : Filling slot tail todo s) :
    (fifoOutline.view .producer).Safe post (storeBytes (slotIndex tail) slot todo) s := by
  induction todo generalizing s with
  | nil => exact View.safe_ret _ hs (fun _ _ h hr _ => h.stable hr) fun t ht hi => hpost t hi ht
  | cons j todo ih =>
      refine View.safe_act _ hs (fun _ _ h hr _ => h.stable hr) fun t ht hi => ⟨ht.unused hi, ?_⟩
      rintro r u ⟨-, rfl⟩
      refine ⟨ht.inv_write hi _, filled_of_eq rfl rfl rfl rfl, ih ?_⟩
      refine ⟨ht.pushing, ht.tail_eq, ht.room, fun j' hj' => ?_⟩
      simp only [perform, access, Function.update_self]
      by_cases hj : j' = j
      · subst hj; simp
      · rw [Slot.get_set_of_ne _ _ hj]
        exact ht.bytes j' (by simp [hj, hj'])

/-- The filled slot, once its tail is stored, is the newest of the queue. -/
theorem Filling.publish {slot : Slot} {tail : UInt32} {s t : FifoState} (h : Filling slot tail [] s)
    (hi : s.Inv) (ht : t = { s.record .producer (.storeTail (tail + 1)) with
      ring := { s.ring with tail := tail + 1 } }) :
    t.Inv ∧ Filled s t ∧ FifoStep s.queue t.queue := by
  simp only [record_storeTail, h.pushing, Option.toList_some] at ht
  subst ht
  have hlen := hi.length_eq
  have hqueue : (s.pushed ++ [slot]).drop s.popped.length = s.queue ++ [slot] := by
    rw [List.drop_append_of_le_length (by omega), queue]
  have hslot : s.ring.slots (indexOf (s.popped.length + s.queue.length)) = slot := by
    rw [hlen, ← slotIndex_ofNat, ← h.tail_eq]
    exact Slot.ext fun j => h.bytes j (by simp)
  have htail : tail = s.ring.tail := by rw [h.tail_eq, hi.holds.tail_eq, hlen]
  refine ⟨⟨?_, ?_, fun x hx => ?_⟩, ⟨rfl, rfl, rfl, List.prefix_append _ _⟩, ?_⟩
  · rw [htail, queue, hqueue]
    exact hi.holds.publish h.room hslot
  · exact hi.popped_le.trans (List.prefix_append _ _)
  · have hhead := hi.peeked_eq x hx
    rw [queue, hqueue, List.head?_append, hhead]
    rfl
  · change FifoStep s.queue ((s.pushed ++ [slot]).drop s.popped.length)
    rw [hqueue]
    exact .enqueue _ _ h.room

/-- A push call is safe: it fills a slot the consumer does not look at, and
finds the ring full only when it is. -/
theorem safe_push {slot : Slot} {s : FifoState} (hs : s.pushing = some slot) :
    (fifoOutline.view .producer).Safe (fifoOutline.post .producer) (ringCall (.push slot)) s := by
  refine View.safe_act (fun t => t.pushing = some slot) hs (fun t u h hr _ => hr.pushing.trans h)
    fun t ht hi => ⟨trivial, ?_⟩
  rintro tail u ⟨rfl, rfl⟩
  refine ⟨hi, filled_of_eq rfl rfl rfl rfl, ?_⟩
  have htail : t.ring.tail = UInt32.ofNat t.pushed.length := by
    rw [hi.holds.tail_eq, hi.length_eq]
  refine View.safe_act (fun u => u.pushing = some slot ∧ t.ring.tail = UInt32.ofNat u.pushed.length)
    ⟨ht, htail⟩ (fun _ _ h hr _ => ⟨hr.pushing.trans h.1, by rw [hr.pushed, h.2]⟩)
    fun u hu hi => ⟨trivial, ?_⟩
  rintro head v ⟨rfl, rfl⟩
  refine ⟨⟨hi.holds, hi.popped_le, hi.peeked_eq⟩, filled_of_eq rfl rfl rfl rfl, ?_⟩
  have heq : u.ring.tail = t.ring.tail := by rw [hi.holds.tail_eq, hi.length_eq, hu.2]
  change (fifoOutline.view .producer).Safe (fifoOutline.post .producer)
    (ite (t.ring.tail - u.ring.head ≥ .ofNat ringCapacity) (pure false)
      (storeBytes (slotIndex t.ring.tail) slot (List.finRange _) >>= fun _ =>
        mem (.storeTail (t.ring.tail + 1)) >>= fun _ => pure true) >>= fun ok => pure (.pushed ok))
    { u with atHead := u.queue.length }
  by_cases hfull : t.ring.tail - u.ring.head ≥ .ofNat ringCapacity
  · rw [if_pos hfull]
    refine View.safe_ret (fun v => v.atHead = ringCapacity) ?_ (fun _ _ h hr _ => hr.atHead.trans h)
      fun v hv _ => hv
    rw [← heq] at hfull
    exact hi.holds.full_iff.mp hfull
  · rw [if_neg hfull, Prog.bind_assoc]
    have hroom : u.queue.length < ringCapacity := by
      rw [← heq, hi.holds.full_iff] at hfull
      have hle := hi.holds.length_le
      omega
    refine View.Safe.bind (safe_storeBytes (fun v hi hv => ?_) _
      ⟨hu.1, hu.2, hroom, fun j hj => absurd (List.mem_finRange j) hj⟩)
    refine View.safe_act _ hv (fun _ _ h hr _ => h.stable hr) fun w hw hi => ⟨trivial, ?_⟩
    rintro r x ⟨-, rfl⟩
    obtain ⟨hinv, hguar⟩ := hw.publish hi rfl
    exact ⟨hinv, hguar, fun _ _ _ => trivial⟩

/-! ## the consumer -/

/-- What the consumer knows while it copies the oldest slot out: `todo` are
the offsets still to be read. -/
structure Copying (front : Slot) (head : UInt32) (buf : Slot) (todo : List (Fin slotSize))
    (s : FifoState) : Prop where
  head_eq : head = UInt32.ofNat s.popped.length
  front_eq : s.queue.head? = some front
  bytes : ∀ j, j ∉ todo → buf.get j = front.get j

theorem Copying.stable {front : Slot} {head : UInt32} {buf : Slot} {todo : List (Fin slotSize)}
    {s t : FifoState} (h : Copying front head buf todo s) (hr : Filled s t) :
    Copying front head buf todo t :=
  ⟨by rw [hr.popped, h.head_eq], hr.head?_eq h.front_eq, h.bytes⟩

/-- While it is outstanding, the oldest slot is where the head cursor points. -/
theorem Copying.slot_eq {front : Slot} {head : UInt32} {buf : Slot} {todo : List (Fin slotSize)}
    {s : FifoState} (h : Copying front head buf todo s) (hi : s.Inv) :
    s.ring.slots (slotIndex head) = front := by
  have hhead : head = s.ring.head := by rw [h.head_eq, hi.holds.head_eq]
  cases hq : s.queue with
  | nil =>
      have hx := h.front_eq
      simp [hq] at hx
  | cons x q =>
      have hx := h.front_eq
      rw [hq, List.head?_cons, Option.some.injEq] at hx
      rw [hhead, hi.holds.front hq, hx]

theorem safe_loadBytes (front : Slot) {head : UInt32} {post : Slot → FifoState → Prop}
    (hpost : ∀ t, t.Inv → t.queue.head? = some front → post front t) (todo : List (Fin slotSize))
    {buf : Slot} {s : FifoState} (hs : Copying front head buf todo s) :
    (fifoOutline.view .consumer).Safe post (loadBytes (slotIndex head) buf todo) s := by
  induction todo generalizing buf s with
  | nil =>
      have hbuf : buf = front := Slot.ext fun j => hs.bytes j (by simp)
      subst hbuf
      exact View.safe_ret _ hs (fun _ _ h hr _ => h.stable hr) fun t ht hi => hpost t hi ht.front_eq
  | cons j todo ih =>
      refine View.safe_act _ hs (fun _ _ h hr _ => h.stable hr) fun t ht hi => ⟨trivial, ?_⟩
      rintro r u ⟨rfl, rfl⟩
      refine ⟨hi, freed_of_eq rfl rfl rfl rfl rfl, ih ⟨ht.head_eq, ht.front_eq, fun j' hj' => ?_⟩⟩
      by_cases hj : j' = j
      · subst hj
        simp [perform, access, ht.slot_eq hi]
      · rw [Slot.get_set_of_ne _ _ hj]
        exact ht.bytes j' (by simp [hj, hj'])

/-- A peek call is safe: it returns the oldest slot untorn, and finds the
ring empty only when it is. -/
theorem safe_peek {s : FifoState} :
    (fifoOutline.view .consumer).Safe (fifoOutline.post .consumer) (ringCall .peek) s := by
  refine View.safe_act (fun _ => True) trivial (fun _ _ _ _ _ => trivial) fun t _ hi => ⟨trivial, ?_⟩
  rintro head u ⟨rfl, rfl⟩
  refine ⟨hi, freed_of_eq rfl rfl rfl rfl rfl, ?_⟩
  refine View.safe_act (fun u => t.ring.head = UInt32.ofNat u.popped.length) hi.holds.head_eq
    (fun _ _ h hr _ => by rw [hr.popped, h]) fun u hu hi => ⟨trivial, ?_⟩
  rintro tail v ⟨rfl, rfl⟩
  refine ⟨⟨hi.holds, hi.popped_le, hi.peeked_eq⟩, freed_of_eq rfl rfl rfl rfl rfl, ?_⟩
  have heq : u.ring.head = t.ring.head := by rw [hi.holds.head_eq, hu]
  change (fifoOutline.view .consumer).Safe (fifoOutline.post .consumer)
    (ite (t.ring.head = u.ring.tail) (pure none)
      (loadBytes (slotIndex t.ring.head) Slot.zero (List.finRange _) >>= fun slot =>
        pure (some slot)) >>= fun slot => pure (.peeked slot))
    { u with atTail := u.queue.length }
  by_cases hempty : t.ring.head = u.ring.tail
  · rw [if_pos hempty]
    refine View.safe_ret (fun v => v.atTail = 0) ?_ (fun _ _ h hr _ => hr.atTail.trans h)
      fun v hv _ => hv
    rw [← heq, hi.holds.empty_iff] at hempty
    simp [hempty]
  · rw [if_neg hempty, Prog.bind_assoc]
    rw [← heq, hi.holds.empty_iff] at hempty
    obtain ⟨front, q, hq⟩ := List.exists_cons_of_ne_nil hempty
    refine View.Safe.bind (safe_loadBytes front (fun v _ hv => ?_) _
      ⟨hu, congrArg List.head? hq, fun j hj => absurd (List.mem_finRange j) hj⟩)
    exact View.safe_ret (fun v => v.queue.head? = some front) hv (fun _ _ h hr _ => hr.head?_eq h)
      fun v hv _ => hv

end Axivc
