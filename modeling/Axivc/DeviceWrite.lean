import Axivc.Endpoint
import Axivc.Grammar

/-!
# Axivc.DeviceWrite

Any number of `write(2)` calls on one endpoint.

Every call is a thread of its own and makes one call of
`axivc_send_message`; the threads interleave at single kernel operations.
Which pushes find the ring full, which user copies fault, what the clock says
and which sleeps are interrupted is left to the world.  `WriteRecord` is what
can be said about a call from outside: the buffer it was given, the
`tx_error` it found when it obtained the lock, the message it started, the
slots it pushed and what it returned.

`device_write_all_or_nothing` is the contract of the device: a call that
returns its count has pushed exactly one whole message, a call that fails has
pushed no end of one, and the endpoint is left ready for the next message or
fenced off for good.
-/

namespace Axivc

open Prog Rely

/-! ## the calls -/

/-- The arguments of a call; a size fits in `size_t`. -/
structure WriteCall where
  iterations : Nat
  buf : List UInt8
  fits : buf.length < 2 ^ 64

/-- What happened in a call. -/
structure WriteRecord where
  buf : List UInt8
  /-- the `tx_error` found under the lock, once the lock is obtained -/
  entered : Option (Option Errno)
  /-- the id of the message started -/
  message : Option UInt64
  pushed : List Slot
  result : Option (Except Errno Nat)

/-- The transmitting half of an endpoint, the holder of `tx_lock`, and the
calls so far. -/
structure WriteState where
  half : Transmit
  owner : Option Nat
  calls : Nat → Option WriteRecord

namespace WriteState

/-- An endpoint just initialised. -/
def init : WriteState := ⟨transmitInit, none, fun _ => none⟩

/-- Add to the record of call `i`. -/
def note (s : WriteState) (i : Nat) (f : WriteRecord → WriteRecord) : WriteState :=
  { s with calls := Function.update s.calls i ((s.calls i).map f) }

/-- The answers an operation can have. -/
def Answers (s : WriteState) : (o : EndpointOp ringIface Transmit) → (endpointIface ringIface Transmit).Res o → Prop
  | .mutexLockInterruptible, r => r = .error .EINTR ∨ r = .ok () ∧ s.owner = none
  | .load, r => r = s.half
  | .copyFromUser _ len, r => r ≤ len
  | _, _ => True

/-- The state after an operation of call `i`, by its answer. -/
def effect (s : WriteState) (i : Nat) :
    (o : EndpointOp ringIface Transmit) → (endpointIface ringIface Transmit).Res o → WriteState
  | .mutexLockInterruptible, .ok () =>
      { s.note i fun r => { r with entered := some s.half.txError } with owner := some i }
  | .mutexUnlock, _ => { s with owner := none }
  | .store half, _ =>
      if half.tx.sending && !s.half.tx.sending then
        { s.note i fun r => { r with message := some half.tx.active.id } with half := half }
      else
        { s with half := half }
  | .ring (.push slot), true => s.note i fun r => { r with pushed := r.pushed ++ [slot] }
  | _, _ => s

end WriteState

/-- The `write(2)` calls on one endpoint, at single operations. -/
def writeMachine (target : NotifyTarget) :
    Machine Nat (endpointIface ringIface Transmit) WriteState WriteCall (Except Errno Nat) where
  body _ call _ := sendMessage atomicRing target call.iterations call.buf
  exec i o s r t := s.Answers o r ∧ t = s.effect i o r
  start i call s t := s.calls i = none ∧
    t = { s with calls := Function.update s.calls i (some ⟨call.buf, none, none, [], none⟩) }
  finish i a s t := t = s.note i fun r => { r with result := some a }
  env _ _ := False

/-- One of the slots is the LAST frame of a message. -/
def HasLast (slots : List Slot) : Prop :=
  ∃ slot ∈ slots, ∃ frame, decodeFrame slot = .ok frame ∧ frame.last = true

/-! ## what a write pushes -/

/-- The fragments of an active message, and how far they bring the sender. -/
theorem Sends.frames {tx tx' : Sender} {bytes : List UInt8} {slots : List Slot} (h : Sends tx bytes slots tx')
    (hok : tx.Ok) (hs : tx.sending) (hlen : tx.active.len ≠ 0) :
    ∃ frames, Decodes slots frames ∧ payload frames = bytes ∧ tx'.active = tx.active ∧
      tx'.nextMessageId = tx.nextMessageId ∧ tx'.sent.toNat = tx.sent.toNat + bytes.length ∧
      tx'.sending = decide (tx'.sent ≠ tx.active.len) ∧ (HasLast slots ↔ tx'.sending = false) := by
  induction h with
  | nil tx =>
      have hlt := UInt64.lt_iff_toNat_lt.mp (hok.sent_lt hs hlen)
      have hne : tx.sent ≠ tx.active.len := fun h => by rw [h] at hlt; omega
      exact ⟨[], rfl, rfl, rfl, rfl, rfl, by simp [hne, hs], by simp [HasLast, hs]⟩
  | @cons tx tx' fragment bytes slot slots _ hne hle _ henc hrest ih =>
      obtain ⟨frame, hdec, -, -, -, hlast, -, rfl⟩ := decodeFrame_encodeFrame henc
      have hpos := List.length_pos_of_ne_nil hne
      have hsent := Sender.toNat_add_ofNat (hok.sent_le hs) hle
      have hhas : HasLast (slot :: slots) ↔ frame.last = true ∨ HasLast slots := by
        simp [HasLast, hdec]
      by_cases hend : tx.sent + .ofNat frame.fragment.length = tx.active.len
      · -- The fragment reaches the end of the message: nothing follows it.
        cases hrest with
        | nil =>
            refine ⟨[frame], by simp [Decodes, hdec], by simp [payload], rfl, rfl, ?_, ?_, ?_⟩
            · simpa [Sender.advance] using hsent
            · simp [Sender.advance]
            · simp [hhas, hlast, hend, Sender.advance]
        | cons hs' => simp [Sender.advance, hend] at hs'
      · have hs' : (tx.advance frame.fragment.length).sending := by simp [Sender.advance, hend]
        obtain ⟨frames, hdecs, hpay, hact, hnext, hsent', hsending, hlasts⟩ := ih (hok.advance hs hpos hle) hs' hlen
        refine ⟨frame :: frames, ?_, ?_, hact, hnext, ?_, hsending, ?_⟩
        · simp [Decodes, hdec, show slots.map _ = _ from hdecs]
        · rw [← hpay]
          rfl
        · rw [hsent', List.length_append]
          simp only [Sender.advance]
          omega
        · rw [hhas, hlast, hlasts]
          simp [hend]

theorem Sends.kept {tx tx' : Sender} {bytes : List UInt8} {slots : List Slot} (h : Sends tx bytes slots tx') :
    (tx'.sending = true → tx.sending = true) ∧ tx'.nextMessageId = tx.nextMessageId := by
  induction h with
  | nil tx => exact ⟨id, rfl⟩
  | cons hs _ _ _ _ _ ih => exact ⟨fun _ => hs, ih.2⟩

/-- A write leaves the record in order and starts no message. -/
theorem WriteResult.kept {tx tx' : Sender} {input : List UInt8} {slots : List Slot}
    {result : Except Errno SendProgress} (h : WriteResult tx input slots tx' result) (hok : tx.Ok) :
    tx'.Ok ∧ (tx'.sending = true → tx.sending = true) ∧ tx'.nextMessageId = tx.nextMessageId := by
  cases h with
  | notSending | tooLong | emptyFull => exact ⟨hok, id, rfl⟩
  | empty hs => exact ⟨.of_not_sending rfl, by simp, rfl⟩
  | data _ _ _ _ _ hsends => exact ⟨hsends.ok hok, hsends.kept⟩

/-- So does an abort. -/
theorem AbortResult.kept {tx tx' : Sender} {slots : List Slot} {result : Except Errno Unit}
    (h : AbortResult tx slots tx' result) (hok : tx.Ok) :
    tx'.Ok ∧ (tx'.sending = true → tx.sending = true) ∧ tx'.nextMessageId = tx.nextMessageId := by
  cases h with
  | notSending | full => exact ⟨hok, id, rfl⟩
  | unpublished | published => exact ⟨.of_not_sending rfl, by simp, rfl⟩

theorem hasLast_append {slots more : List Slot} :
    HasLast (slots ++ more) ↔ HasLast slots ∨ HasLast more := by
  simp [HasLast, or_and_right, exists_or]

/-- What a call may return, by its record. -/
def WriteRecord.Settled (r : WriteRecord) : Except Errno Nat → Prop
  | .ok n => n = r.buf.length ∧ r.entered = some none ∧ HasLast r.pushed ∧
      ∃ frames, Decodes r.pushed frames ∧ payload frames = r.buf
  | .error e => ¬ HasLast r.pushed ∧ e ≠ .EBUSY ∧ ∀ e', r.entered = some (some e') → e = e'

/-- The call with the record `r` has sent `sent` bytes of its buffer, and `tx`
is in the middle of its message. -/
structure Midway (sent : Nat) (tx : Sender) (r : WriteRecord) : Prop where
  ok : tx.Ok
  sending : tx.sending = true
  len : tx.active.len.toNat = r.buf.length
  sent_eq : tx.sent.toNat = sent
  nonempty : r.buf ≠ []
  entered : r.entered = some none
  message : r.message = some tx.active.id
  running : r.result = none
  pushed : ∃ frames, Decodes r.pushed frames ∧ payload frames = r.buf.take sent
  no_last : ¬ HasLast r.pushed

theorem Midway.len_ne {sent : Nat} {tx : Sender} {r : WriteRecord} (h : Midway sent tx r) :
    tx.active.len ≠ 0 := by
  intro hz
  have hlen := h.len
  rw [hz] at hlen
  exact h.nonempty (List.length_eq_zero_iff.mp hlen.symm)

/-- The next chunk of the buffer: the call goes on, or its message is complete. -/
theorem Midway.write {sent : Nat} {tx tx' : Sender} {r : WriteRecord} (h : Midway sent tx r) {chunk : Nat}
    {slots : List Slot} {result : Except Errno SendProgress}
    (hres : WriteResult tx ((r.buf.drop sent).take chunk) slots tx' result) :
    ∃ n, result = .ok ⟨n, slots.length, !tx'.sending⟩ ∧
      (tx'.sending = true → Midway (sent + n) tx' { r with pushed := r.pushed ++ slots }) ∧
      (tx'.sending = false →
        WriteRecord.Settled { r with pushed := r.pushed ++ slots } (.ok r.buf.length)) := by
  have hsub := Sender.toNat_sub_sent (h.ok.sent_le h.sending)
  have hle := UInt64.le_iff_toNat_le.mp (h.ok.sent_le h.sending)
  have hlen := h.len
  have hsent := h.sent_eq
  cases hres with
  | notSending hs => rw [h.sending] at hs; cases hs
  | tooLong _ hlong =>
      rw [hsub, List.length_take, List.length_drop] at hlong
      omega
  | emptyFull _ hz => exact absurd hz h.len_ne
  | empty _ hz => exact absurd hz h.len_ne
  | @data n _ _ _ _ _ hn _ hsends =>
      obtain ⟨frames, hdec, hpay, hact, -, hsent', hsending, hlast⟩ := hsends.frames h.ok h.sending h.len_ne
      obtain ⟨before, hdec₀, hpay₀⟩ := h.pushed
      rw [List.length_take, List.length_take, List.length_drop] at hsent'
      rw [List.length_take, List.length_drop] at hn
      rw [List.take_take, show min n chunk = n by omega] at hpay
      have hboth : payload (before ++ frames) = r.buf.take (sent + n) := by
        rw [payload_append, hpay₀, hpay, List.take_add]
      refine ⟨n, rfl, fun hs => ?_, fun hs => ?_⟩
      · refine ⟨hsends.ok h.ok, hs, by rw [hact]; exact h.len, by omega, h.nonempty, h.entered,
          by rw [hact]; exact h.message, h.running, ⟨_, hdec₀.append hdec, hboth⟩, ?_⟩
        rw [hasLast_append, hlast, hs]
        simp [h.no_last]
      · rw [hs, eq_comm, decide_eq_false_iff_not, not_not] at hsending
        refine ⟨rfl, h.entered, hasLast_append.mpr (.inr (hlast.mpr hs)), _, hdec₀.append hdec, ?_⟩
        rw [hboth, List.take_of_length_le]
        rw [hsending] at hsent'
        omega

/-- Cutting the message off pushes no LAST frame. -/
theorem Midway.abort {sent : Nat} {tx tx' : Sender} {r : WriteRecord} (h : Midway sent tx r)
    {slots : List Slot} {result : Except Errno Unit} (hres : AbortResult tx slots tx' result) :
    ¬ HasLast (r.pushed ++ slots) ∧
      (result = .ok () ∧ tx'.sending = false ∨ result = .error .EAGAIN ∧ slots = [] ∧ tx' = tx) := by
  cases hres with
  | notSending hs => rw [h.sending] at hs; cases hs
  | unpublished => exact ⟨by simpa using h.no_last, .inl ⟨rfl, rfl⟩⟩
  | published _ _ henc =>
      obtain ⟨frame, hdec, -, -, -, hlast, -⟩ := decodeFrame_encodeFrame henc
      refine ⟨?_, .inl ⟨rfl, rfl⟩⟩
      rw [hasLast_append, not_or]
      exact ⟨h.no_last, by simp [HasLast, hdec, hlast]⟩
  | full => exact ⟨by simpa using h.no_last, .inr ⟨rfl, rfl, rfl⟩⟩

/-! ## the outline -/

/-- What is known about a record at any time: the slots are frames of the
message started, and none was pushed by a call that found the endpoint
fenced off. -/
structure WriteRecord.Ok (r : WriteRecord) : Prop where
  tagged : ∀ slot ∈ r.pushed, ∃ frame, decodeFrame slot = .ok frame ∧ r.message = some frame.messageId
  fenced : ∀ e, r.entered = some (some e) → e = .EPIPE ∧ r.pushed = []
  settled : ∀ a, r.result = some a → r.Settled a

namespace WriteState

/-- The invariant: a free endpoint is ready or fenced off, and every message
id belongs to one call. -/
structure Inv (s : WriteState) : Prop where
  sender : s.half.tx.Ok
  error : ∀ e, s.half.txError = some e → e = .EPIPE
  free : s.owner = none → s.half.tx.sending = false ∨ s.half.txError = some .EPIPE
  record : ∀ i r, s.calls i = some r → r.Ok
  ids : ∀ i r m, s.calls i = some r → r.message = some m →
    s.half.tx.nextMessageId = 0 ∨ m < s.half.tx.nextMessageId
  distinct : ∀ i j r r' m, s.calls i = some r → s.calls j = some r' → r.message = some m →
    r'.message = some m → i = j

/-- What no other call changes: the record of call `i`, and under the lock the
endpoint. -/
structure Kept (i : Nat) (s t : WriteState) : Prop where
  record : t.calls i = s.calls i
  owner : t.owner = some i ↔ s.owner = some i
  half : s.owner = some i → t.half = s.half

/-- A fenced endpoint stays fenced: a call that obtains the lock finds it so. -/
def Fences (s t : WriteState) : Prop :=
  s.half.txError = some .EPIPE → t.half.txError = some .EPIPE ∧
    ∀ j r', t.calls j = some r' → r'.entered = none ∨ r'.entered = some (some .EPIPE) ∨
      ∃ r, s.calls j = some r ∧ r'.entered = r.entered

theorem Kept.refl (i : Nat) (s : WriteState) : Kept i s s := ⟨rfl, Iff.rfl, fun _ => rfl⟩

theorem Kept.trans {i : Nat} {s t u : WriteState} (h : Kept i s t) (h' : Kept i t u) : Kept i s u :=
  ⟨h'.record.trans h.record, h'.owner.trans h.owner,
    fun ho => (h'.half (h.owner.mpr ho)).trans (h.half ho)⟩

theorem note_self (s : WriteState) (i : Nat) (f : WriteRecord → WriteRecord) :
    (s.note i f).calls i = (s.calls i).map f := Function.update_self ..

theorem note_of_ne (s : WriteState) {i j : Nat} (h : j ≠ i) (f : WriteRecord → WriteRecord) :
    (s.note i f).calls j = s.calls j := Function.update_of_ne h ..

/-- Nobody else's record changes. -/
theorem Kept.note {i j : Nat} (h : j ≠ i) (s : WriteState) (f : WriteRecord → WriteRecord) :
    Kept j s (s.note i f) := ⟨note_of_ne s h f, Iff.rfl, fun _ => rfl⟩

/-- Steps that leave `tx_error` and what the calls found there. -/
theorem Fences.note {s t : WriteState} {i : Nat} {f : WriteRecord → WriteRecord}
    (hcalls : t.calls = (s.note i f).calls) (hf : ∀ r, (f r).entered = r.entered)
    (herr : s.half.txError = some .EPIPE → t.half.txError = some .EPIPE) : Fences s t := by
  refine fun h => ⟨herr h, fun j r' hr' => .inr (.inr ?_)⟩
  rw [hcalls] at hr'
  by_cases hj : j = i
  · subst hj
    rw [note_self, Option.map_eq_some_iff] at hr'
    obtain ⟨r, hr, rfl⟩ := hr'
    exact ⟨r, hr, hf r⟩
  · rw [note_of_ne s hj] at hr'
    exact ⟨r', hr', rfl⟩

theorem Fences.of_calls {s t : WriteState} (hcalls : t.calls = s.calls)
    (herr : s.half.txError = some .EPIPE → t.half.txError = some .EPIPE) : Fences s t :=
  fun h => ⟨herr h, fun _ r' hr' => .inr (.inr ⟨r', hcalls ▸ hr', rfl⟩)⟩

/-- A change of the record of call `i` keeps the invariant when the new record
is in order and names no other message. -/
theorem Inv.note {s : WriteState} (hi : s.Inv) {i : Nat} {f : WriteRecord → WriteRecord}
    (hok : ∀ r, s.calls i = some r → (f r).Ok) (hmsg : ∀ r, s.calls i = some r → (f r).message = r.message) :
    (s.note i f).Inv := by
  have hold (j : Nat) (r' : WriteRecord) (h : (s.note i f).calls j = some r') :
      r'.Ok ∧ ∃ r, s.calls j = some r ∧ r'.message = r.message := by
    by_cases hj : j = i
    · subst hj
      rw [note_self, Option.map_eq_some_iff] at h
      obtain ⟨r, hr, rfl⟩ := h
      exact ⟨hok r hr, r, hr, hmsg r hr⟩
    · rw [note_of_ne s hj] at h
      exact ⟨hi.record j r' h, r', h, rfl⟩
  refine ⟨hi.sender, hi.error, hi.free, fun j r' h => (hold j r' h).1, fun j r' m h hm => ?_,
    fun j k r r' m h h' hm hm' => ?_⟩
  · obtain ⟨-, r, hr, heq⟩ := hold j r' h
    exact hi.ids j r m hr (heq ▸ hm)
  · obtain ⟨-, r₁, hr₁, heq⟩ := hold j r h
    obtain ⟨-, r₂, hr₂, heq'⟩ := hold k r' h'
    exact hi.distinct j k r₁ r₂ m hr₁ hr₂ (heq ▸ hm) (heq' ▸ hm')

end WriteState

open WriteState in
/-- The outline of the calls.  The holder of the lock owns the endpoint. -/
def writeOutline (target : NotifyTarget) : Machine.Outline (writeMachine target) where
  inv := Inv
  rely := Kept
  guar i s t := (∀ j, j ≠ i → Kept j s t) ∧ Fences s t
  wait i s := ∀ r, s.calls i = some r → ¬ HasLast r.pushed
  post i a s := s.owner ≠ some i ∧ ∃ r, s.calls i = some r ∧ r.Settled a
  idle i s := s.owner ≠ some i
  rely_refl := Kept.refl
  rely_trans _ {_ _ _} h h' := h.trans h'
  guar_rely hij _ h := h.1 _ (Ne.symm hij)
  env_rely _ h := h.elim
  idle_stable h hr _ := fun ho => h (hr.owner.mp ho)
  finish_ok {i a s t} hi hpost hf := by
    obtain ⟨hfree, r, hr, hset⟩ := hpost
    obtain rfl := hf
    refine ⟨hi.note (fun r' hr' => ?_) fun _ _ => rfl, ⟨fun j hj => ?_, ?_⟩, hfree⟩
    · obtain rfl : r' = r := Option.some.inj (hr'.symm.trans hr)
      have hok := hi.record i r' hr
      refine ⟨hok.tagged, hok.fenced, ?_⟩
      rintro b ⟨⟩
      exact hset
    · exact Kept.note hj s _
    · exact Fences.note rfl (fun _ => rfl) id

namespace DeviceWrite

open WriteState

/-! ## one operation under the lock -/

/-- Call `i` holds the lock, the endpoint is `half` and the call's record `r`. -/
structure Held (i : Nat) (half : Transmit) (r : WriteRecord) (s : WriteState) : Prop where
  owner : s.owner = some i
  half_eq : s.half = half
  record : s.calls i = some r

theorem Held.stable {i : Nat} {half : Transmit} {r : WriteRecord} {s t : WriteState} (h : Held i half r s)
    (hr : WriteState.Kept i s t) : Held i half r t :=
  ⟨hr.owner.mpr h.owner, (hr.half h.owner).trans h.half_eq, hr.record.trans h.record⟩

/-- Operations that leave the state as it is. -/
def Quiet (o : EndpointOp ringIface Transmit) : Prop := ∀ s i r, WriteState.effect s i o r = s

section Calls

variable {target : NotifyTarget} {i : Nat} {half : Transmit} {r : WriteRecord} {s t : WriteState}
  {α : Type} {post : α → WriteState → Prop}

/-- A quiet operation under the lock. -/
theorem safe_quiet_act {o : EndpointOp ringIface Transmit}
    {k : (endpointIface ringIface Transmit).Res o → Prog (endpointIface ringIface Transmit) α} (ho : Quiet o)
    (hs : Held i half r s)
    (hk : ∀ a t, t.Answers o a → Held i half r t → ((writeOutline target).view i).Safe post (k a) t) :
    ((writeOutline target).view i).Safe post (.act o k) s := by
  refine View.safe_act (Held i half r) hs (fun _ _ h hr _ => h.stable hr) fun t ht hi => ⟨trivial, ?_⟩
  rintro a u ⟨ha, rfl⟩
  rw [ho]
  exact ⟨hi, ⟨fun j _ => .refl j t, .of_calls rfl id⟩, hk a t ha ht⟩

/-- Any number of quiet operations under the lock. -/
theorem safe_quiet {p : Prog (endpointIface ringIface Transmit) α} (hp : p.Each Quiet) (hret : p.Returns)
    (hs : Held i half r s) :
    ((writeOutline target).view i).Safe (fun _ t => Held i half r t) p s := by
  induction p generalizing s with
  | ret a => exact fun t ht _ => hs.stable ht
  | act o k ih => exact safe_quiet_act hp.1 hs fun a t _ ht => ih a (hp.2 a) (hret a) ht
  | spin => exact hret.elim

theorem safe_notifyPublisher (hs : Held i half r s) :
    ((writeOutline target).view i).Safe (fun _ t => Held i half r t) (notifyPublisher target) s := by
  rw [notifyPublisher]
  split
  · exact safe_quiet ⟨fun _ _ _ => rfl, fun _ => trivial⟩ (fun _ => trivial) hs
  · exact fun t ht _ => hs.stable ht

theorem safe_deadlineAfter (ms : Nat) (hs : Held i half r s) :
    ((writeOutline target).view i).Safe (fun _ t => Held i half r t) (deadlineAfter ms) s :=
  safe_quiet ⟨fun _ _ _ => rfl, fun _ => ⟨fun _ _ _ => rfl, fun _ => trivial⟩⟩ (fun _ _ => trivial) hs

theorem safe_afterProgress (slots : Nat) (deadline : UInt64) (hs : Held i half r s) :
    ((writeOutline target).view i).Safe (fun _ t => Held i half r t)
      (afterProgress target slots deadline) s := by
  rw [afterProgress]
  split
  · refine View.Safe.bind ((safe_deadlineAfter _ hs).mono fun d t _ ht => ?_)
    exact View.Safe.bind ((safe_notifyPublisher ht).mono fun _ u _ hu => fun v hv _ => hu.stable hv)
  · exact fun t ht _ => hs.stable ht

/-- A store that starts no message. -/
theorem safe_store (half' : Transmit) {k : Unit → Prog (endpointIface ringIface Transmit) α}
    (hs : Held i half r s)
    (hsend : half'.tx.sending = true → half.tx.sending = true)
    (hnext : half'.tx.nextMessageId = half.tx.nextMessageId) (hok : half'.tx.Ok)
    (herr : half'.txError = half.txError ∨ half.txError = none ∧ half'.txError = some .EPIPE)
    (hk : ∀ t, Held i half' r t → ((writeOutline target).view i).Safe post (k ()) t) :
    ((writeOutline target).view i).Safe post (.act (.store half') k) s := by
  refine View.safe_act (Held i half r) hs (fun _ _ h hr _ => h.stable hr) fun t ht hi => ⟨trivial, ?_⟩
  obtain ⟨howner, rfl, hrec⟩ := ht
  rintro a u ⟨-, rfl⟩
  have heff : t.effect i (.store half') a = { t with half := half' } := by
    rw [WriteState.effect, if_neg]
    rw [Bool.and_eq_true, Bool.not_eq_true']
    rintro ⟨h, h'⟩
    rw [hsend h] at h'
    cases h'
  rw [heff]
  refine ⟨⟨hok, fun e he => ?_, fun h => ?_, hi.record, fun j r m hj hm => ?_, hi.distinct⟩,
    ⟨fun j hj => ⟨rfl, Iff.rfl, fun h => ?_⟩, .of_calls rfl fun h => ?_⟩, hk _ ⟨howner, rfl, hrec⟩⟩
  · rcases herr with h | ⟨-, h⟩
    · exact hi.error e (h ▸ he)
    · exact (Option.some.inj (h.symm.trans he)).symm
  · exact absurd (howner.symm.trans h) (by simp)
  · rw [show ({ t with half := half' } : WriteState).half.tx.nextMessageId = _ from hnext]
    exact hi.ids j r m hj hm
  · exact absurd (Option.some.inj (howner.symm.trans h)).symm hj
  · rcases herr with h' | ⟨-, h'⟩
    · exact h'.trans h
    · exact h'

/-! ## the sender under the lock -/

/-- Call `i` holds the lock and has started the message `m`. -/
def Sending (i : Nat) (m : UInt64) (s : WriteState) : Prop :=
  s.owner = some i ∧ ∃ r, s.calls i = some r ∧ r.message = some m ∧ r.entered = some none ∧ r.result = none

/-- Between `s` and `t` call `i` pushed `slots`. -/
def Pushes (i : Nat) (s : WriteState) (slots : List Slot) (t : WriteState) : Prop :=
  t.half = s.half ∧ ∀ r, s.calls i = some r → t.calls i = some { r with pushed := r.pushed ++ slots }

/-- The frames of the message `m`. -/
def FrameOf (m : UInt64) (slot : Slot) : Prop := ∃ frame, decodeFrame slot = .ok frame ∧ frame.messageId = m

theorem allows_frameOf (m : UInt64) : Allows (FrameOf m) m := by
  intro _ _ _ _ _ slot henc
  obtain ⟨frame, hdec, hid, -⟩ := decodeFrame_encodeFrame henc
  exact ⟨frame, hdec, hid⟩

theorem Sending.stable {m : UInt64} (h : Sending i m s) (hr : WriteState.Kept i s t) : Sending i m t := by
  obtain ⟨ho, r, hrec, hr'⟩ := h
  exact ⟨hr.owner.mpr ho, r, hr.record.trans hrec, hr'⟩

theorem pushLog (m : UInt64) :
    PushLog (((writeOutline target).view i).within (Sending i m)) atomicRing (FrameOf m) (Pushes i) where
  trans h h' := by
    refine ⟨h'.1.trans h.1, fun r hr => ?_⟩
    rw [h'.2 _ (h.2 r hr), List.append_assoc]
  stable s t hr hi := by
    refine ⟨hr.half (hr.owner.mp hi.2.1), fun r h => ?_⟩
    rw [hr.record, h, List.append_nil]
  push slot s hslot := by
    rintro t ht ⟨hi, ho, r, hr, hm, he, hres⟩
    refine ⟨trivial, ?_⟩
    rintro ok u ⟨-, rfl⟩
    cases ok with
    | false =>
        refine ⟨⟨hi, ho, r, hr, hm, he, hres⟩, ⟨fun j _ => .refl j t, .of_calls rfl id⟩, fun v hv hvi => ?_⟩
        have hsv := ht.trans hv
        refine ⟨hsv.half (hsv.owner.mp hvi.2.1), fun r' h => ?_⟩
        rw [hsv.record, h]
        simp
    | true =>
        have hinv : (t.note i fun r => { r with pushed := r.pushed ++ [slot] }).Inv := by
          refine hi.note (fun r' h => ?_) fun _ _ => rfl
          obtain rfl : r' = r := Option.some.inj (h.symm.trans hr)
          refine ⟨fun x hx => ?_, by simp [he], by simp [hres]⟩
          rcases List.mem_append.mp hx with hx | hx
          · exact (hi.record i r' hr).tagged x hx
          · obtain ⟨frame, hdec, rfl⟩ := hslot
            exact ⟨frame, by rw [List.mem_singleton.mp hx, hdec], hm⟩
        have hrec : (t.note i fun r => { r with pushed := r.pushed ++ [slot] }).calls i =
            some { r with pushed := r.pushed ++ [slot] } := by
          rw [WriteState.note_self, hr]
          rfl
        refine ⟨⟨hinv, ho, _, hrec, hm, he, hres⟩, ⟨fun j hj => .note hj t _, .note rfl (fun _ => rfl) id⟩,
          fun v hv hvi => ⟨?_, fun r' h => ?_⟩⟩
        · exact (hv.half ho).trans (ht.half (ht.owner.mp ho))
        · rw [hv.record]
          rw [← ht.record, hr] at h
          cases h
          exact hrec

/-- A call on the sender of an endpoint that is sending the message `m`. -/
theorem safe_onSender {m : UInt64} {f : Sender → Prog (endpointIface ringIface Transmit) (Sender × α)}
    {Q : List Slot → Sender × α → Prop} (hs : Held i half r s) (hm : r.message = some m)
    (he : r.entered = some none) (hres : r.result = none)
    (hf : ∀ s, (((writeOutline target).view i).within (Sending i m)).Safe (Appends (Pushes i) s Q) (f half.tx) s)
    (hQ : ∀ slots tx' a, Q slots (tx', a) → tx'.Ok ∧ (tx'.sending = true → half.tx.sending = true) ∧
      tx'.nextMessageId = half.tx.nextMessageId) :
    ((writeOutline target).view i).Safe (fun a t => ∃ slots tx',
      Held i { half with tx := tx' } { r with pushed := r.pushed ++ slots } t ∧ Q slots (tx', a))
      (onSender f) s := by
  refine safe_quiet_act (fun _ _ _ => rfl) hs fun loaded t ha ht => ?_
  obtain rfl : loaded = half := ha.trans ht.half_eq
  have hsending : Sending i m t := ⟨ht.owner, r, ht.record, hm, he, hres⟩
  change View.Safe _ _ (f loaded.tx >>= _) t
  refine View.Safe.bind ((View.Safe.of_within (fun _ _ h hr _ => h.stable hr) (hf t) hsending).mono ?_)
  rintro ⟨tx', a⟩ u - ⟨hu, slots, hpush, hq⟩
  have hheld : Held i loaded { r with pushed := r.pushed ++ slots } u :=
    ⟨hu.1, hpush.1.trans ht.half_eq, hpush.2 r ht.record⟩
  obtain ⟨hok, hsend, hnext⟩ := hQ slots tx' a hq
  exact safe_store _ hheld hsend hnext hok (.inl rfl) fun v hv w hw _ => ⟨slots, tx', hv.stable hw, hq⟩

/-! ## the loops -/

variable {tx tx' : Sender} {sent : Nat}

/-- The call with the record `r` has ended without completing its message. -/
structure Cut (r : WriteRecord) : Prop where
  no_last : ¬ HasLast r.pushed
  entered : r.entered = some none

theorem cut_of_midway (h : Midway sent tx r) : Cut r := ⟨h.no_last, h.entered⟩

/-- What happens under the lock before a call gives up. -/
theorem Held.safe_spin (hs : Held i half r s) (hlast : ¬ HasLast r.pushed) :
    ((writeOutline target).view i).Safe post .spin s := by
  intro t ht _ r' hr'
  obtain rfl : r' = r := Option.some.inj (hr'.symm.trans (hs.stable ht).record)
  exact hlast

theorem safe_abortLoop (deadline : UInt64) (iterations : Nat) (hs : Held i ⟨tx, none⟩ r s)
    (hmid : Midway sent tx r) :
    ((writeOutline target).view i).Safe (fun result t => ∃ tx' r', Held i ⟨tx', none⟩ r' t ∧ tx'.Ok ∧ Cut r' ∧
      (result = .ok () ∧ tx'.sending = false ∨ result = .error .EAGAIN))
      (abortLoop atomicRing target deadline iterations) s := by
  induction iterations generalizing s with
  | zero => exact hs.safe_spin hmid.no_last
  | succ iterations ih =>
      rw [abortLoop]
      refine View.Safe.bind ((safe_onSender hs hmid.message hmid.entered hmid.running
        (fun s => safe_messageTryAbort (pushLog _) hmid.ok (allows_frameOf _))
        fun _ _ _ h => h.kept hmid.ok).mono ?_)
      rintro result t - ⟨slots, tx', ht, hres⟩
      obtain ⟨hlast, ⟨rfl, hsending⟩ | ⟨rfl, rfl, rfl⟩⟩ := hmid.abort hres
      · exact fun u hu _ => ⟨tx', _, ht.stable hu, (hres.kept hmid.ok).1, ⟨hlast, hmid.entered⟩, .inl ⟨rfl, hsending⟩⟩
      · rw [List.append_nil] at ht
        refine View.Safe.bind ((safe_notifyPublisher ht).mono fun _ u _ hu => ?_)
        refine safe_quiet_act (fun _ _ _ => rfl) hu fun now v _ hv => ?_
        change View.Safe _ _ (ite (timeAfterEq now deadline = true) _ _) v
        split
        · exact fun w hw _ => ⟨_, r, hv.stable hw, hmid.ok, cut_of_midway hmid, .inr rfl⟩
        · exact safe_quiet_act (fun _ _ _ => rfl) hv fun _ w _ hw => ih hw

/-- After an abort the endpoint is ready or fenced off. -/
theorem safe_abortSend (iterations : Nat) (hs : Held i ⟨tx, none⟩ r s) (hmid : Midway sent tx r) :
    ((writeOutline target).view i).Safe (fun _ t => ∃ half' r', Held i half' r' t ∧ Cut r' ∧
      (half'.tx.sending = false ∨ half'.txError = some .EPIPE))
      (abortSend atomicRing target iterations) s := by
  rw [abortSend]
  refine View.Safe.bind ((safe_deadlineAfter _ hs).mono fun deadline t _ ht => ?_)
  refine safe_quiet_act (fun _ _ _ => rfl) ht fun loaded u _ hu => ?_
  refine View.Safe.bind (p := abortLoop atomicRing target deadline iterations)
    ((safe_abortLoop deadline iterations hu hmid).mono ?_)
  rintro result v - ⟨tx', r', hv, hok, hcut, ⟨rfl, hsending⟩ | rfl⟩
  · have hdone (w : WriteState) (hw : Held i ⟨tx', none⟩ r' w) : ∃ half' r', Held i half' r' w ∧ Cut r' ∧
        (half'.tx.sending = false ∨ half'.txError = some .EPIPE) := ⟨_, _, hw, hcut, .inl hsending⟩
    dsimp only
    split
    · exact (safe_notifyPublisher hv).mono fun _ w _ hw => hdone w hw
    · exact fun w hw _ => hdone w (hv.stable hw)
  · refine safe_quiet_act (fun _ _ _ => rfl) hv fun loaded' w ha hw => ?_
    obtain rfl : loaded' = ⟨tx', none⟩ := ha.trans hw.half_eq
    exact safe_store ⟨tx', some .EPIPE⟩ hw id rfl hok (.inr ⟨rfl, rfl⟩)
      fun x hx y hy _ => ⟨_, _, hx.stable hy, hcut, .inr rfl⟩

theorem safe_copyAnyFromUser (offset len : Nat) (hs : Held i half r s) :
    ((writeOutline target).view i).Safe (fun _ t => Held i half r t) (copyAnyFromUser offset len) s := by
  rw [copyAnyFromUser]
  split
  · exact safe_quiet ⟨fun _ _ _ => rfl, fun _ => trivial⟩ (fun _ => trivial) hs
  · exact fun t ht _ => hs.stable ht

/-- What the send loop leaves: a complete message, or one to be cut off. -/
def LoopEnds (i : Nat) (result : Except Errno Nat) (t : WriteState) : Prop :=
  ∃ tx r, Held i ⟨tx, none⟩ r t ∧
    match result with
    | .ok _ => tx.sending = false ∧ r.Settled result
    | .error e => e ≠ .EBUSY ∧ ∃ sent, Midway sent tx r

theorem Held.safe_give_up (hs : Held i ⟨tx, none⟩ r s) (hmid : Midway sent tx r) {e : Errno} (he : e ≠ .EBUSY) :
    ((writeOutline target).view i).Safe (LoopEnds i) (.ret (.error e)) s :=
  fun _ ht _ => ⟨tx, r, hs.stable ht, he, sent, hmid⟩

/-- **The send loop**, from the middle of a message on. -/
theorem safe_sendLoop (deadline : UInt64) (iterations : Nat) (hs : Held i ⟨tx, none⟩ r s)
    (hmid : Midway sent tx r) :
    ((writeOutline target).view i).Safe (LoopEnds i) (sendLoop atomicRing target r.buf sent deadline iterations) s := by
  induction iterations generalizing s tx r sent deadline with
  | zero => exact hs.safe_spin hmid.no_last
  | succ iterations ih =>
      rw [sendLoop]
      refine View.Safe.bind ((safe_copyAnyFromUser _ _ hs).mono fun uncopied t _ ht => ?_)
      split
      · exact ht.safe_give_up hmid (by decide)
      · refine View.Safe.bind ((safe_onSender ht hmid.message hmid.entered hmid.running
          (fun s => safe_messageTryWrite (pushLog _) hmid.ok (allows_frameOf _) _)
          fun _ _ _ h => h.kept hmid.ok).mono ?_)
        rintro result u - ⟨slots, tx', hu, hres⟩
        dsimp only at hres
        obtain ⟨n, rfl, hgoes, hends⟩ := hmid.write hres
        refine View.Safe.bind ((safe_afterProgress _ _ hu).mono fun deadline' v _ hv => ?_)
        cases hsending : tx'.sending with
        | false =>
            rw [if_pos (by rfl)]
            exact fun w hw _ => ⟨tx', _, hv.stable hw, hsending, hends hsending⟩
        | true =>
            have hmid' := hgoes hsending
            dsimp only
            rw [if_neg (by simp)]
            split
            · exact ih (r := { r with pushed := r.pushed ++ slots }) _ hv hmid'
            · refine safe_quiet_act (fun _ _ _ => rfl) hv fun now w _ hw => ?_
              change View.Safe _ _ (ite (timeAfterEq now deadline' = true) _ _) w
              split
              · exact hw.safe_give_up hmid' (by decide)
              · refine safe_quiet_act (fun _ _ _ => rfl) hw fun left x _ hx => ?_
                change View.Safe _ _ (ite (left ≠ 0) _ _) x
                split
                · exact hx.safe_give_up hmid' (by decide)
                · exact ih (r := { r with pushed := r.pushed ++ slots }) _ hx hmid'

/-! ## a whole call -/

/-- The record of a sender that has just started a message. -/
def started (tx : Sender) (messageLen : UInt64) : Sender where
  nextMessageId := if tx.nextMessageId = ~~~0 then 0 else tx.nextMessageId + 1
  sending := true
  active := ⟨tx.nextMessageId, messageLen⟩
  sent := 0
  publishedAny := false

theorem started_ok {messageLen : UInt64} (hid : tx.nextMessageId ≠ 0) : (started tx messageLen).Ok := by
  refine ⟨fun _ => hid, fun _ hlen => ?_, fun _ _ => rfl, fun _ => by simp [started]⟩
  rw [UInt64.lt_iff_toNat_lt]
  refine Nat.pos_of_ne_zero fun hz => hlen (UInt64.toNat_inj.mp hz)

/-- Ids already given out stay below the next one. -/
theorem lt_nextMessageId {messageLen m : UInt64} (h : m ≤ tx.nextMessageId) :
    (started tx messageLen).nextMessageId = 0 ∨ m < (started tx messageLen).nextMessageId := by
  simp only [started]
  by_cases hmax : tx.nextMessageId = ~~~0
  · exact .inl (if_pos hmax)
  · right
    have hne : tx.nextMessageId.toNat ≠ 2 ^ 64 - 1 := fun hz => hmax (UInt64.toNat_inj.mp hz)
    have hlt := tx.nextMessageId.toNat_lt
    have hone : (1 : UInt64).toNat = 1 := rfl
    rw [UInt64.le_iff_toNat_le] at h
    rw [if_neg hmax, UInt64.lt_iff_toNat_lt, UInt64.toNat_add]
    omega

/-- Starting a message gives the call an id that no other call has. -/
theorem inv_start (hi : s.Inv) (hs : Held i half r s) (hres : r.result = none)
    (hpushed : r.pushed = []) (hid : half.tx.nextMessageId ≠ 0) (messageLen : UInt64) :
    WriteState.Inv { s.note i fun r => { r with message := some half.tx.nextMessageId } with
      half := { half with tx := started half.tx messageLen } } := by
  obtain ⟨howner, rfl, hrec⟩ := hs
  have hother (j : Nat) (hj : j ≠ i) (r' : WriteRecord) (m : UInt64) (hr' : s.calls j = some r')
      (hm' : r'.message = some m) : m < s.half.tx.nextMessageId := (hi.ids j r' m hr' hm').resolve_left hid
  -- The records with their messages: the one just started, or an older one.
  have hcases (j : Nat) (r' : WriteRecord) (m : UInt64)
      (hr' : (s.note i fun r => { r with message := some s.half.tx.nextMessageId }).calls j = some r')
      (hm' : r'.message = some m) : j = i ∧ m = s.half.tx.nextMessageId ∨ j ≠ i ∧ s.calls j = some r' := by
    by_cases hj : j = i
    · subst hj
      rw [note_self, hrec] at hr'
      cases hr'
      exact .inl ⟨rfl, (Option.some.inj hm').symm⟩
    · rw [note_of_ne s hj] at hr'
      exact .inr ⟨hj, hr'⟩
  refine ⟨started_ok hid, hi.error, fun h => absurd (howner.symm.trans h) (by simp), fun j r' hr' => ?_,
    fun j r' m hr' hm' => ?_, fun j k r₁ r₂ m h₁ h₂ hm₁ hm₂ => ?_⟩
  · by_cases hj : j = i
    · subst hj
      have hself : r' = { r with message := some s.half.tx.nextMessageId } :=
        Option.some.inj (hr'.symm.trans ((note_self s j _).trans (by rw [hrec]; rfl)))
      subst hself
      exact ⟨by simp [hpushed], (hi.record j r hrec).fenced, by simp [hres]⟩
    · exact hi.record j r' ((note_of_ne s hj _).symm.trans hr')
  · rcases hcases j r' m hr' hm' with ⟨rfl, rfl⟩ | ⟨hj, hr''⟩
    · exact lt_nextMessageId (UInt64.le_refl _)
    · exact lt_nextMessageId (UInt64.le_of_lt (hother j hj r' m hr'' hm'))
  · rcases hcases j r₁ m h₁ hm₁ with ⟨rfl, rfl⟩ | ⟨hj, h₁'⟩
    · rcases hcases k r₂ _ h₂ hm₂ with ⟨rfl, -⟩ | ⟨hk, h₂'⟩
      · rfl
      · exact absurd (hother k hk r₂ _ h₂' hm₂) (UInt64.lt_irrefl _)
    · rcases hcases k r₂ m h₂ hm₂ with ⟨rfl, rfl⟩ | ⟨hk, h₂'⟩
      · exact absurd (hother j hj r₁ _ h₁' hm₁) (UInt64.lt_irrefl _)
      · exact hi.distinct j k r₁ r₂ m h₁' h₂' hm₁ hm₂

/-- `axivc_message_start` under the lock of an endpoint that is not sending. -/
theorem safe_start {buf : List UInt8} (hbuf : buf ≠ []) (hfits : buf.length < 2 ^ 64) (hs : Held i ⟨tx, none⟩ r s)
    (hok : tx.Ok) (hfree : tx.sending = false) (hr : r = ⟨buf, some none, none, [], none⟩) :
    ((writeOutline target).view i).Safe (fun a t => a = .error .EOVERFLOW ∧ Held i ⟨tx, none⟩ r t ∨
      a = .ok () ∧ ∃ tx' r', r'.buf = buf ∧ Held i ⟨tx', none⟩ r' t ∧ Midway 0 tx' r')
      (onSender fun tx => pure (messageStart tx (.ofNat buf.length))) s := by
  rw [onSender_pure fun tx => messageStart tx (.ofNat buf.length)]
  refine safe_quiet_act (fun _ _ _ => rfl) hs fun loaded t ha ht => ?_
  obtain rfl : loaded = ⟨tx, none⟩ := ha.trans ht.half_eq
  by_cases hid : tx.nextMessageId = 0
  · have hstart : messageStart tx (.ofNat buf.length) = (tx, .error .EOVERFLOW) := by
      simp [messageStart, hfree, hid]
    rw [hstart]
    exact safe_store ⟨tx, none⟩ ht id rfl hok (.inl rfl) fun u hu v hv _ => .inl ⟨rfl, hu.stable hv⟩
  · have hstart : messageStart tx (.ofNat buf.length) = (started tx (.ofNat buf.length), .ok ()) := by
      simp [messageStart, hfree, hid, started]
    rw [hstart]
    refine View.safe_act (Held i ⟨tx, none⟩ r) ht (fun _ _ h hr _ => h.stable hr) fun u hu hi => ⟨trivial, ?_⟩
    rintro a v ⟨-, rfl⟩
    have heff : u.effect i (.store ⟨started tx (.ofNat buf.length), none⟩) a =
        { u.note i fun r => { r with message := some tx.nextMessageId } with
          half := ⟨started tx (.ofNat buf.length), none⟩ } := by
      rw [WriteState.effect, if_pos]
      · rfl
      · rw [hu.half_eq, hfree]
        rfl
    rw [show WriteState.effect u i (.store _) a = _ from heff]
    have hmid : Midway 0 (started tx (.ofNat buf.length)) { r with message := some tx.nextMessageId } := by
      subst hr
      refine ⟨started_ok hid, rfl, ?_, rfl, hbuf, rfl, rfl, rfl, ⟨[], rfl, rfl⟩, by simp [HasLast]⟩
      exact UInt64.toNat_ofNat_of_lt' hfits
    have hheld : Held i ⟨started tx (.ofNat buf.length), none⟩ { r with message := some tx.nextMessageId }
        { u.note i fun r => { r with message := some tx.nextMessageId } with
          half := ⟨started tx (.ofNat buf.length), none⟩ } :=
      ⟨hu.owner, rfl, (WriteState.note_self u i _).trans (by rw [hu.record]; rfl)⟩
    refine ⟨inv_start hi hu (by rw [hr]) (by rw [hr]) hid _, ⟨fun j hj => ?_, .note rfl (fun _ => rfl) fun h => ?_⟩,
      fun w hw _ => .inr ⟨rfl, _, _, by rw [hr], hheld.stable hw, hmid⟩⟩
    · refine ⟨WriteState.note_of_ne u hj _, Iff.rfl, fun h => ?_⟩
      exact absurd (Option.some.inj (hu.owner.symm.trans h)).symm hj
    · rw [hu.half_eq] at h
      cases h

/-- **A call under the lock**, from the state in which it was obtained. -/
theorem safe_sendLocked {buf : List UInt8} (hbuf : buf ≠ []) (hfits : buf.length < 2 ^ 64) (iterations : Nat)
    (hs : Held i half r s) (hok : half.tx.Ok) (herr : ∀ e, half.txError = some e → e = .EPIPE)
    (hfree : half.tx.sending = false ∨ half.txError = some .EPIPE)
    (hr : r = ⟨buf, some half.txError, none, [], none⟩) :
    ((writeOutline target).view i).Safe (fun a t => ∃ half' r', Held i half' r' t ∧ r'.Settled a ∧
      (half'.tx.sending = false ∨ half'.txError = some .EPIPE))
      (sendLocked atomicRing target iterations buf) s := by
  have hnone : ¬ HasLast r.pushed := by simp [hr, HasLast]
  refine safe_quiet_act (fun _ _ _ => rfl) hs fun loaded t ha ht => ?_
  obtain rfl : loaded = half := ha.trans ht.half_eq
  obtain ⟨tx, txError⟩ := loaded
  cases txError with
  | some e =>
      have he := herr e rfl
      refine fun u hu _ => ⟨_, _, ht.stable hu, ⟨hnone, by rw [he]; decide, ?_⟩, hfree⟩
      rw [hr]
      rintro e' ⟨⟩
      rfl
  | none =>
      have hsending : tx.sending = false := hfree.resolve_right (by simp)
      refine View.Safe.bind (p := onSender fun tx => pure (messageStart tx (.ofNat buf.length)))
        ((safe_start hbuf hfits ht hok hsending hr).mono ?_)
      rintro result u - (⟨rfl, hu⟩ | ⟨rfl, tx', r', rfl, hu, hmid⟩)
      · refine fun v hv _ => ⟨_, _, hu.stable hv, ⟨hnone, by decide, ?_⟩, .inl hsending⟩
        rw [hr]
        rintro e ⟨⟩
      · refine View.Safe.bind ((safe_deadlineAfter _ hu).mono fun deadline v _ hv => ?_)
        refine View.Safe.bind ((safe_sendLoop deadline iterations hv hmid).mono ?_)
        rintro (e | n) w - ⟨tx₁, r₁, hw, hends⟩
        · obtain ⟨hbusy, sent, hmid₁⟩ := hends
          refine View.Safe.bind ((safe_abortSend iterations hw hmid₁).mono ?_)
          rintro _ x - ⟨half', r₂, hx, hcut, hready⟩
          refine fun y hy _ => ⟨half', r₂, hx.stable hy, ⟨hcut.no_last, hbusy, ?_⟩, hready⟩
          rw [hcut.entered]
          rintro e' ⟨⟩
        · exact fun x hx _ => ⟨_, r₁, hw.stable hx, hends.2, .inl hends.1⟩

/-- Releasing the lock of an endpoint that is ready or fenced off. -/
theorem safe_unlock (hs : Held i half r s) (hready : half.tx.sending = false ∨ half.txError = some .EPIPE)
    {a : Except Errno Nat} (hset : r.Settled a) :
    ((writeOutline target).view i).Safe ((writeOutline target).post i)
      (kernel .mutexUnlock >>= fun _ => .ret a) s := by
  refine View.safe_act (Held i half r) hs (fun _ _ h hr _ => h.stable hr) fun t ht hi => ⟨trivial, ?_⟩
  rintro _ u ⟨-, rfl⟩
  obtain ⟨howner, rfl, hrec⟩ := ht
  refine ⟨⟨hi.sender, hi.error, fun _ => hready, hi.record, hi.ids, hi.distinct⟩,
    ⟨fun j hj => ⟨rfl, ?_, fun _ => rfl⟩, .of_calls rfl id⟩, fun v hv _ => ⟨fun h => ?_, r, ?_, hset⟩⟩
  · rw [howner]
    constructor
    · rintro ⟨⟩
    · rintro ⟨⟩
      exact absurd rfl hj
  · exact absurd (hv.owner.mp h) (by simp [WriteState.effect])
  · exact hv.record.trans hrec

/-- Obtaining the lock. -/
theorem inv_enter (hi : s.Inv) (hfree : s.owner = none) {buf : List UInt8}
    (hs : s.calls i = some ⟨buf, none, none, [], none⟩) :
    (s.effect i .mutexLockInterruptible (.ok ())).Inv ∧
    ((∀ j, j ≠ i → Kept j s (s.effect i .mutexLockInterruptible (.ok ()))) ∧
      Fences s (s.effect i .mutexLockInterruptible (.ok ()))) ∧
    Held i s.half ⟨buf, some s.half.txError, none, [], none⟩ (s.effect i .mutexLockInterruptible (.ok ())) := by
  have hnote : (s.note i fun r => { r with entered := some s.half.txError }).Inv := by
    refine hi.note (fun r hr => ?_) fun _ _ => rfl
    obtain rfl : r = _ := Option.some.inj (hr.symm.trans hs)
    refine ⟨by simp, fun e he => ⟨hi.error e (Option.some.inj he), rfl⟩, by rintro _ ⟨⟩⟩
  have hself : (s.note i fun r => { r with entered := some s.half.txError }).calls i =
      some ⟨buf, some s.half.txError, none, [], none⟩ := (note_self s i _).trans (by rw [hs]; rfl)
  refine ⟨⟨hnote.sender, hnote.error, by rintro ⟨⟩, hnote.record, hnote.ids, hnote.distinct⟩,
    ⟨fun j hj => ⟨note_of_ne s hj _, ?_, fun h => ?_⟩, fun h => ⟨h, fun j r' hr' => ?_⟩⟩, ⟨rfl, rfl, hself⟩⟩
  · rw [hfree]
    constructor
    · rintro ⟨⟩
      exact absurd rfl hj
    · rintro ⟨⟩
  · rw [hfree] at h
    cases h
  · by_cases hj : j = i
    · subst hj
      obtain rfl := Option.some.inj (hr'.symm.trans hself)
      exact .inr (.inl (by rw [h]))
    · exact .inr (.inr ⟨r', (note_of_ne s hj _).symm.trans hr', rfl⟩)

/-- **A call** that has not obtained the lock yet. -/
theorem safe_sendMessage (call : WriteCall) (hidle : s.owner ≠ some i)
    (hs : s.calls i = some ⟨call.buf, none, none, [], none⟩) :
    ((writeOutline target).view i).Safe ((writeOutline target).post i)
      (sendMessage atomicRing target call.iterations call.buf) s := by
  have hrefused {e : Errno} (he : e ≠ .EBUSY) {t : WriteState} (hidle : t.owner ≠ some i)
      (ht : t.calls i = some ⟨call.buf, none, none, [], none⟩) :
      ((writeOutline target).view i).Safe ((writeOutline target).post i) (.ret (.error e)) t :=
    fun u hu _ => ⟨fun h => hidle (hu.owner.mp h), _, hu.record.trans ht, by simp [HasLast], he, by rintro _ ⟨⟩⟩
  rw [sendMessage]
  split
  · exact hrefused (by decide) hidle hs
  · next hne =>
      refine View.safe_act (fun t => t.owner ≠ some i ∧ t.calls i = some ⟨call.buf, none, none, [], none⟩)
        ⟨hidle, hs⟩ (fun t u h hr _ => ⟨fun ho => h.1 (hr.owner.mp ho), hr.record.trans h.2⟩)
        fun t ht hi => ⟨trivial, ?_⟩
      rintro answer u ⟨hans, rfl⟩
      rcases hans with rfl | ⟨rfl, hfree⟩
      · exact ⟨hi, ⟨fun j _ => .refl j t, .of_calls rfl id⟩, hrefused (by decide) ht.1 ht.2⟩
      · obtain ⟨hinv, hguar, hheld⟩ := inv_enter hi hfree ht.2
        refine ⟨hinv, hguar, View.Safe.bind (p := sendLocked atomicRing target call.iterations call.buf)
          (View.Safe.mono (safe_sendLocked (fun h => hne (by rw [h]; rfl)) call.fits call.iterations
            hheld hi.sender hi.error (hi.free hfree) rfl) ?_)⟩
        rintro a v - ⟨half', r', hv, hset, hready⟩
        exact safe_unlock hv hready hset

theorem starts : (writeOutline target).Starts := by
  intro i call s t hi hidle hst
  obtain ⟨hnone, rfl⟩ := hst
  have hother {j : Nat} (hj : j ≠ i) : Function.update s.calls i (some ⟨call.buf, none, none, [], none⟩) j =
      s.calls j := Function.update_of_ne hj ..
  have hself : Function.update s.calls i (some ⟨call.buf, none, none, [], none⟩) i =
      some ⟨call.buf, none, none, [], none⟩ := Function.update_self ..
  -- A record is the fresh one or an old one.
  have hcases (j : Nat) (r' : WriteRecord)
      (h : Function.update s.calls i (some ⟨call.buf, none, none, [], none⟩) j = some r') :
      r' = ⟨call.buf, none, none, [], none⟩ ∨ s.calls j = some r' := by
    by_cases hj : j = i
    · subst hj
      exact .inl (Option.some.inj (h.symm.trans hself))
    · exact .inr ((hother hj).symm.trans h)
  refine ⟨⟨hi.sender, hi.error, hi.free, fun j r' h => ?_, fun j r' m h hm => ?_, fun j k r₁ r₂ m h₁ h₂ hm₁ hm₂ => ?_⟩,
    ⟨fun j hj => ⟨hother hj, Iff.rfl, fun _ => rfl⟩, fun h => ⟨h, fun j r' hr' => ?_⟩⟩, ?_⟩
  · rcases hcases j r' h with rfl | h
    · exact ⟨by simp, by rintro _ ⟨⟩, by rintro _ ⟨⟩⟩
    · exact hi.record j r' h
  · rcases hcases j r' h with rfl | h
    · cases hm
    · exact hi.ids j r' m h hm
  · rcases hcases j r₁ h₁ with rfl | h₁
    · cases hm₁
    · rcases hcases k r₂ h₂ with rfl | h₂
      · cases hm₂
      · exact hi.distinct j k r₁ r₂ m h₁ h₂ hm₁ hm₂
  · rcases hcases j r' hr' with rfl | h
    · exact .inl rfl
    · exact .inr (.inr ⟨r', h, rfl⟩)
  · exact safe_sendMessage call hidle hself

end Calls

end DeviceWrite

/-! ## whole runs -/

theorem WriteState.inv_init : WriteState.init.Inv :=
  ⟨.of_not_sending rfl, by rintro _ ⟨⟩, fun _ => .inl rfl, by rintro _ _ ⟨⟩, by rintro _ _ _ ⟨⟩,
    by rintro _ _ _ _ _ ⟨⟩⟩

section Runs

variable {target : NotifyTarget} {c c' : Config Nat (endpointIface ringIface Transmit) WriteState (Except Errno Nat)}

theorem write_good (h : (writeMachine target).Reachable .init c) : (writeOutline target).Good c :=
  (writeOutline target).good DeviceWrite.starts WriteState.inv_init (fun _ => by rintro ⟨⟩) h

/-- A fenced endpoint stays fenced in every continuation of a run. -/
theorem fences_of_steps (h : (writeMachine target).Reachable .init c)
    (hsteps : Relation.ReflTransGen (writeMachine target).Step c c') : c.shared.Fences c'.shared := by
  induction hsteps with
  | refl => exact .of_calls rfl id
  | @tail d d' hd hstep ih =>
      have hfence : d.shared.Fences d'.shared := by
        rcases (writeOutline target).step_guar DeviceWrite.starts (write_good (h.trans hd)) hstep with hf | ⟨i, -, hg⟩
        · exact hf.elim
        · exact hg
      intro herr
      obtain ⟨herr', hold⟩ := ih herr
      obtain ⟨herr'', hnew⟩ := hfence herr'
      refine ⟨herr'', fun j r' hr' => ?_⟩
      rcases hnew j r' hr' with h | h | ⟨r, hr, heq⟩
      · exact .inl h
      · exact .inr (.inl h)
      · rw [heq]
        exact hold j r hr

/-- No LAST frame is ever pushed for the message of a call that failed. -/
theorem no_last_of_failed (hi : c.shared.Inv) {i j : Nat} {r r' : WriteRecord} {e : Errno} {m : UInt64}
    (hr : c.shared.calls i = some r) (hres : r.result = some (.error e)) (hm : r.message = some m)
    (hr' : c.shared.calls j = some r') {slot : Slot} {frame : Frame} (hslot : slot ∈ r'.pushed)
    (hdec : decodeFrame slot = .ok frame) (hid : frame.messageId = m) : frame.last = false := by
  obtain ⟨frame', hdec', htag⟩ := (hi.record j r' hr').tagged slot hslot
  obtain rfl : frame = frame' := Except.ok.inj (hdec.symm.trans hdec')
  rw [hid] at htag
  obtain rfl := hi.distinct i j r r' m hr hr' hm htag
  obtain rfl : r' = r := Option.some.inj (hr'.symm.trans hr)
  have hno : ¬ HasLast r'.pushed := ((hi.record i r' hr).settled _ hres).1
  by_contra hlast
  exact hno ⟨slot, hslot, frame, hdec, by simpa using hlast⟩

end Runs

/-- **A device write is all or nothing.**  In every state that any schedule of
any calls leads to:

* a call that has returned returned its count exactly when it pushed a LAST
  frame, and then its fragments make up the buffer;
* for the message of a call that has failed no LAST frame has been pushed by
  anybody, and `axivc_message_start` has not found the sender busy;
* a call that is still polling has pushed no LAST frame;
* the lock is held by running calls only, and while it is free the sender is
  idle or the endpoint is fenced off with EPIPE;
* once it is fenced off, every call that obtains the lock later pushes nothing
  and returns EPIPE. -/
theorem device_write_all_or_nothing (target : NotifyTarget)
    (c : Config Nat (endpointIface ringIface Transmit) WriteState (Except Errno Nat))
    (h : (writeMachine target).Reachable .init c) :
    (∀ i r a, c.shared.calls i = some r → r.result = some a →
      (a = .ok r.buf.length ↔ HasLast r.pushed) ∧
      (∀ n, a = .ok n → n = r.buf.length ∧ ∃ frames, Decodes r.pushed frames ∧ payload frames = r.buf) ∧
      (∀ e, a = .error e → e ≠ .EBUSY ∧ ∀ m, r.message = some m → ∀ j r' slot frame,
        c.shared.calls j = some r' → slot ∈ r'.pushed → decodeFrame slot = .ok frame →
        frame.messageId = m → frame.last = false)) ∧
    (∀ i r, c.shared.calls i = some r → c.thread i = some .spin → ¬ HasLast r.pushed) ∧
    (∀ i, c.shared.owner = some i → c.thread i ≠ none) ∧
    (c.shared.owner = none → c.shared.half.tx.sending = false ∨ c.shared.half.txError = some .EPIPE) ∧
    (c.shared.half.txError = some .EPIPE → ∀ c', Relation.ReflTransGen (writeMachine target).Step c c' →
      ∀ i r', c'.shared.calls i = some r' → r'.entered ≠ none →
      (∀ r, c.shared.calls i = some r → r.entered = none) →
      r'.pushed = [] ∧ ∀ a, r'.result = some a → a = .error .EPIPE) := by
  have hgood := write_good h
  have hi : c.shared.Inv := hgood.1
  refine ⟨fun i r a hr ha => ⟨?_, ?_, ?_⟩, fun i r hr hspin => hgood.wait hspin r hr,
    fun i ho hnone => (hgood.2 i).1 hnone ho, hi.free, fun herr c' hsteps i r' hr' hent hfresh => ?_⟩
  · have hset := (hi.record i r hr).settled a ha
    cases a with
    | ok n => exact iff_of_true (by rw [hset.1]) hset.2.2.1
    | error e => exact iff_of_false (by simp) hset.1
  · rintro n rfl
    obtain ⟨hn, -, -, hframes⟩ := (hi.record i r hr).settled _ ha
    exact ⟨hn, hframes⟩
  · rintro e rfl
    exact ⟨((hi.record i r hr).settled _ ha).2.1, fun m hm j r' slot frame hr' hslot hdec hid =>
      no_last_of_failed hi hr ha hm hr' hslot hdec hid⟩
  · have hi' : c'.shared.Inv := (write_good (h.trans hsteps)).1
    have hfenced : r'.entered = some (some .EPIPE) := by
      rcases (fences_of_steps h hsteps herr).2 i r' hr' with hn | hf | ⟨r, hr, heq⟩
      · exact absurd hn hent
      · exact hf
      · exact absurd (heq.trans (hfresh r hr)) hent
    refine ⟨((hi'.record i r' hr').fenced _ hfenced).2, fun a ha => ?_⟩
    have hset := (hi'.record i r' hr').settled a ha
    cases a with
    | ok n => exact absurd (hset.2.1.symm.trans hfenced) (by simp)
    | error e => rw [hset.2.2 _ hfenced]

/-- A world in which everything a call asks for succeeds. -/
def DeviceWrite.obliging (i : Nat) (o : EndpointOp ringIface Transmit) (s : WriteState) :
    (endpointIface ringIface Transmit).Res o × WriteState :=
  let answer : (endpointIface ringIface Transmit).Res o :=
    match o with
    | .mutexLockInterruptible =>
        match s.owner with
        | none => .ok ()
        | some _ => .error .EINTR
    | .load => s.half
    | .ring (.push _) => true
    | .ring .peek => none
    | .ring .pop => ()
    | .copyFromUser _ _ | .copyToUser _ _ | .msleepInterruptible _ => (0 : Nat)
    | .jiffies | .msecsToJiffies _ | .hvcNotifyChannel _ _ _ => (0 : UInt64)
    | .mutexUnlock | .store _ | .msleep _ => ()
  (answer, s.effect i o answer)

theorem DeviceWrite.exec_obliging {target : NotifyTarget} (i : Nat) (o : EndpointOp ringIface Transmit) (s : WriteState) :
    (writeMachine target).exec i o s (DeviceWrite.obliging i o s).1 (DeviceWrite.obliging i o s).2 := by
  refine ⟨?_, rfl⟩
  cases o with
  | mutexLockInterruptible =>
      cases ho : s.owner with
      | none => exact .inr ⟨by simp [DeviceWrite.obliging, ho], ho⟩
      | some j => exact .inl (by simp [DeviceWrite.obliging, ho])
  | load => rfl
  | copyFromUser offset len => exact Nat.zero_le _
  | _ => trivial

/-- The run of one call that writes a single byte. -/
theorem device_write_all_or_nothing_byte :
    ∃ c r, (writeMachine ⟨false, 0, 7⟩).Reachable .init c ∧ c.shared.calls 0 = some r ∧
      r.result = some (.ok 1) ∧ r.buf = [42] ∧ HasLast r.pushed := by
  have hquiet : (writeMachine ⟨false, 0, 7⟩).Reachable .init ⟨.init, fun _ => none⟩ := Relation.ReflTransGen.refl
  have hstarted := hquiet.start 0 ⟨1, [42], by decide⟩ rfl ⟨rfl, rfl⟩
  have hrun : ∃ s r, (sendMessage atomicRing ⟨false, 0, 7⟩ 1 [42]).run (DeviceWrite.obliging 0)
      { WriteState.init with calls := Function.update (fun _ => none) 0 (some ⟨[42], none, none, [], none⟩) } =
        some (.ok 1, s) ∧ s.calls 0 = some r ∧ r.buf = [42] := ⟨_, _, rfl, rfl, rfl⟩
  obtain ⟨s, r, hrun, hr, hbuf⟩ := hrun
  have hended := (hstarted.run (DeviceWrite.exec_obliging 0) hrun).finish 0
    (Function.update_self ..) rfl
  have hrec : (s.note 0 fun r => { r with result := some (.ok 1) }).calls 0 =
      some { r with result := some (.ok 1) } := by
    rw [WriteState.note_self, hr]
    rfl
  refine ⟨_, _, hended, hrec, rfl, hbuf, ?_⟩
  exact (((device_write_all_or_nothing _ _ hended).1 0 _ _ hrec rfl).1).mp (by rw [hbuf]; rfl)

end Axivc
