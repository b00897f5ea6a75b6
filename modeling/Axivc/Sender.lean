import Axivc.Lib.Rely
import Axivc.Frame
import Axivc.Ring

/-!
# Axivc.Sender

The sending half of the message engine (`message.c`).

A sender is a record of its own; the ring it points to is a parameter
`ring`, so the same text runs on the ring memory, on a bounded queue or
under an arbitrary schedule of full and free rings.

`Sends` says what one successful push of a data fragment does; the effect of
any write is a chain of them (`WriteResult`), and every property of a sender
is derived from the single step.
-/

namespace Axivc

open Prog Rely

/-- `struct axivc_message_sender`, less its ring pointer. -/
structure Sender where
  /-- 0 once the id space is exhausted -/
  nextMessageId : UInt64
  sending : Bool
  active : MessageMeta
  sent : UInt64
  publishedAny : Bool
  deriving DecidableEq

/-- `struct axivc_send_progress` -/
structure SendProgress where
  consumed : Nat
  publishedSlots : Nat
  complete : Bool
  deriving DecidableEq

/-- `axivc_message_sender_init` -/
def messageSenderInit : Sender where
  nextMessageId := 1
  sending := false
  active := ⟨0, 0⟩
  sent := 0
  publishedAny := false

/-- `axivc_message_start` -/
def messageStart (tx : Sender) (messageLen : UInt64) : Sender × Except Errno Unit :=
  if tx.sending then
    (tx, .error .EBUSY)
  else if tx.nextMessageId = 0 then
    (tx, .error .EOVERFLOW)
  else
    -- The id space is deliberately not wrapped: u64::MAX is the last usable
    -- V1 identifier.
    ({ nextMessageId := if tx.nextMessageId = ~~~0 then 0 else tx.nextMessageId + 1
       sending := true
       active := ⟨tx.nextMessageId, messageLen⟩
       sent := 0
       publishedAny := false }, .ok ())

section Programs

variable {I : Iface} (ring : RingImpl I)

/-- `axivc_publish_empty_message` -/
def publishEmptyMessage (tx : Sender) : Prog I (Sender × Except Errno SendProgress) :=
  match encodeFrame tx.active.id 0 true true false [] with
  | .error e => pure (tx, .error e)
  | .ok slot => do
      if ← ring (.push slot) then
        pure ({ tx with sending := false }, .ok ⟨0, 1, true⟩)
      else
        pure (tx, .ok ⟨0, 0, false⟩)

/-- The fragment loop of `axivc_message_try_write`, for at most the granted
number of iterations. -/
def tryWriteLoop (input : List UInt8) (tx : Sender) (consumed publishedSlots : Nat) :
    Nat → Prog I (Sender × Except Errno SendProgress)
  | 0 =>
      if consumed < input.length then .spin
      else pure (tx, .ok ⟨consumed, publishedSlots, false⟩)
  | iterations + 1 =>
      if consumed < input.length then
        let fragmentLen := min fragmentCapacity (input.length - consumed)
        let nextSent := tx.sent + .ofNat fragmentLen
        let complete := nextSent = tx.active.len
        match encodeFrame tx.active.id tx.active.len (!tx.publishedAny) complete false
            ((input.drop consumed).take fragmentLen) with
        | .error e => pure (tx, .error e)
        | .ok slot => do
            if ← ring (.push slot) then
              let tx := { tx with sent := nextSent, publishedAny := true }
              if complete then
                pure ({ tx with sending := false }, .ok ⟨consumed + fragmentLen, publishedSlots + 1, true⟩)
              else
                tryWriteLoop input tx (consumed + fragmentLen) (publishedSlots + 1) iterations
            else
              pure (tx, .ok ⟨consumed, publishedSlots, false⟩)
      else
        pure (tx, .ok ⟨consumed, publishedSlots, false⟩)

/-- `axivc_message_try_write`; every iteration of its loop consumes at least
one byte, so `input.length` iterations are enough. -/
def messageTryWrite (tx : Sender) (input : List UInt8) :
    Prog I (Sender × Except Errno SendProgress) :=
  if !tx.sending then
    pure (tx, .error .ENOMSG)
  else if input.length > (tx.active.len - tx.sent).toNat then
    pure (tx, .error .EINVAL)
  else if tx.active.len = 0 then
    publishEmptyMessage ring tx
  else
    tryWriteLoop ring input tx 0 0 input.length

/-- `axivc_message_try_abort` -/
def messageTryAbort (tx : Sender) : Prog I (Sender × Except Errno Unit) :=
  if !tx.sending then
    pure (tx, .error .ENOMSG)
  else if !tx.publishedAny then
    pure ({ tx with sending := false }, .ok ())
  else
    match encodeFrame tx.active.id tx.active.len false false true [] with
    | .error e => pure (tx, .error e)
    | .ok slot => do
        if ← ring (.push slot) then
          pure ({ tx with sending := false }, .ok ())
        else
          pure (tx, .error .EAGAIN)

end Programs

/-! ## what one push does -/

namespace Sender

/-- The records that occur: an active message has an id, less than its
length has been sent unless it is empty, and the first fragment has been
published exactly when something has been sent. -/
structure Ok (tx : Sender) : Prop where
  id_ne_zero : tx.sending → tx.active.id ≠ 0
  sent_lt : tx.sending → tx.active.len ≠ 0 → tx.sent < tx.active.len
  sent_zero : tx.sending → tx.active.len = 0 → tx.sent = 0
  published_iff : tx.sending → (tx.publishedAny = true ↔ tx.sent ≠ 0)

/-- The record after `n` more bytes of the active message went out. -/
def advance (tx : Sender) (n : Nat) : Sender :=
  { tx with
    sent := tx.sent + .ofNat n
    publishedAny := true
    sending := decide (tx.sent + .ofNat n ≠ tx.active.len) }

end Sender

/-- `Sends tx bytes slots tx'`: pushing the fragments `slots` one after the
other sends `bytes` and leads from `tx` to `tx'`.  All fragments but the
last are as large as a slot allows. -/
inductive Sends : Sender → List UInt8 → List Slot → Sender → Prop where
  | nil (tx : Sender) : Sends tx [] [] tx
  | cons {tx tx' : Sender} {fragment bytes : List UInt8} {slot : Slot} {slots : List Slot} :
      tx.sending → fragment ≠ [] → fragment.length ≤ tx.active.len.toNat - tx.sent.toNat →
      (bytes ≠ [] → fragment.length = fragmentCapacity) →
      encodeFrame tx.active.id tx.active.len (!tx.publishedAny)
        (decide (tx.sent + .ofNat fragment.length = tx.active.len)) false fragment = .ok slot →
      Sends (tx.advance fragment.length) bytes slots tx' →
      Sends tx (fragment ++ bytes) (slot :: slots) tx'

/-- What `axivc_message_try_write` may have done: the slots it pushed, the
record it left and what it reported. -/
inductive WriteResult (tx : Sender) (input : List UInt8) :
    List Slot → Sender → Except Errno SendProgress → Prop where
  | notSending : tx.sending = false → WriteResult tx input [] tx (.error .ENOMSG)
  | tooLong : tx.sending → input.length > (tx.active.len - tx.sent).toNat →
      WriteResult tx input [] tx (.error .EINVAL)
  | emptyFull : tx.sending → tx.active.len = 0 → input = [] →
      WriteResult tx input [] tx (.ok ⟨0, 0, false⟩)
  | empty {slot : Slot} : tx.sending → tx.active.len = 0 → input = [] →
      encodeFrame tx.active.id 0 true true false [] = .ok slot →
      WriteResult tx input [slot] { tx with sending := false } (.ok ⟨0, 1, true⟩)
  | data {n : Nat} {slots : List Slot} {tx' : Sender} : tx.sending → tx.active.len ≠ 0 →
      input.length ≤ tx.active.len.toNat - tx.sent.toNat → n ≤ input.length →
      (n = input.length ∨ fragmentCapacity ∣ n) → Sends tx (input.take n) slots tx' →
      WriteResult tx input slots tx' (.ok ⟨n, slots.length, !tx'.sending⟩)

/-- What `axivc_message_try_abort` may have done. -/
inductive AbortResult (tx : Sender) : List Slot → Sender → Except Errno Unit → Prop where
  | notSending : tx.sending = false → AbortResult tx [] tx (.error .ENOMSG)
  | unpublished : tx.sending → tx.publishedAny = false →
      AbortResult tx [] { tx with sending := false } (.ok ())
  | published {slot : Slot} : tx.sending → tx.publishedAny →
      encodeFrame tx.active.id tx.active.len false false true [] = .ok slot →
      AbortResult tx [slot] { tx with sending := false } (.ok ())
  | full : tx.sending → tx.publishedAny → AbortResult tx [] tx (.error .EAGAIN)

namespace Sender

variable {tx tx' : Sender}

theorem toNat_add_ofNat {a b : UInt64} {n : Nat} (hle : a ≤ b) (hn : n ≤ b.toNat - a.toNat) :
    (a + .ofNat n).toNat = a.toNat + n := by
  have hb := b.toNat_lt
  rw [UInt64.le_iff_toNat_le] at hle
  rw [UInt64.toNat_add, UInt64.toNat_ofNat']
  omega

/-- The bytes not yet sent, without wrap-around. -/
theorem toNat_sub_sent {a b : UInt64} (hle : a ≤ b) : (b - a).toNat = b.toNat - a.toNat :=
  UInt64.toNat_sub_of_le _ _ hle

/-- Nothing is asked of an inactive record. -/
theorem Ok.of_not_sending (h : tx.sending = false) : tx.Ok := by
  constructor <;> simp [h]

theorem Ok.not_published (h : tx.Ok) (hs : tx.sending) (hzero : tx.sent = 0) : tx.publishedAny = false := by
  by_contra hp
  rw [Bool.not_eq_false, h.published_iff hs] at hp
  exact hp hzero

theorem Ok.sent_le (h : tx.Ok) (hs : tx.sending) : tx.sent ≤ tx.active.len := by
  by_cases hlen : tx.active.len = 0
  · rw [h.sent_zero hs hlen]
    exact UInt64.zero_le
  · exact UInt64.le_of_lt (h.sent_lt hs hlen)

/-- Sending a nonempty fragment that fits keeps the record in order. -/
theorem Ok.advance (h : tx.Ok) (hs : tx.sending) {n : Nat} (hn : 0 < n)
    (hle : n ≤ tx.active.len.toNat - tx.sent.toNat) : (tx.advance n).Ok := by
  have hsent := toNat_add_ofNat (h.sent_le hs) hle
  have hlen : tx.active.len ≠ 0 := by
    intro hz
    rw [hz] at hle
    have : (0 : UInt64).toNat = 0 := rfl
    omega
  refine ⟨fun _ => h.id_ne_zero hs, fun hs' _ => ?_, fun _ hz => absurd hz hlen, fun _ => ?_⟩
  · have hne : tx.sent + .ofNat n ≠ tx.active.len := by simpa [Sender.advance] using hs'
    have hne' : (tx.sent + .ofNat n).toNat ≠ tx.active.len.toNat := fun h => hne (UInt64.toNat_inj.mp h)
    change tx.sent + .ofNat n < tx.active.len
    rw [UInt64.lt_iff_toNat_lt]
    omega
  · simp only [Sender.advance, true_iff]
    intro hz
    have := congrArg UInt64.toNat hz
    have h0 : (0 : UInt64).toNat = 0 := rfl
    omega

end Sender

theorem Sends.ok {tx tx' : Sender} {bytes : List UInt8} {slots : List Slot}
    (h : Sends tx bytes slots tx') (hok : tx.Ok) : tx'.Ok := by
  induction h with
  | nil tx => exact hok
  | cons hs hne hle _ _ _ ih => exact ih (hok.advance hs (List.length_pos_of_ne_nil hne) hle)

/-- What `axivc_message_start` does in each case. -/
theorem messageStart_result (tx : Sender) (messageLen : UInt64) :
    (tx.sending = true ∧ messageStart tx messageLen = (tx, .error .EBUSY)) ∨
    (tx.sending = false ∧ tx.nextMessageId = 0 ∧ messageStart tx messageLen = (tx, .error .EOVERFLOW)) ∨
    (tx.sending = false ∧ tx.nextMessageId ≠ 0 ∧ ∃ next,
      messageStart tx messageLen = (⟨next, true, ⟨tx.nextMessageId, messageLen⟩, 0, false⟩, .ok ())) := by
  unfold messageStart
  cases hs : tx.sending with
  | true => exact .inl ⟨rfl, rfl⟩
  | false =>
      by_cases hid : tx.nextMessageId = 0
      · exact .inr (.inl ⟨rfl, hid, by simp [hid]⟩)
      · exact .inr (.inr ⟨rfl, hid, _, if_neg hid⟩)

theorem messageStart_ok {tx : Sender} (h : tx.Ok) (messageLen : UInt64) :
    (messageStart tx messageLen).1.Ok := by
  unfold messageStart
  split
  · exact h
  · split
    · exact h
    · next hid =>
        refine ⟨fun _ => hid, fun _ hlen => ?_, fun _ _ => rfl, fun _ => by simp⟩
        exact UInt64.pos_iff_ne_zero.mpr hlen

/-- The record after a run of fragments: only what has been sent counts on. -/
theorem Sends.counts {tx tx' : Sender} {bytes : List UInt8} {slots : List Slot}
    (h : Sends tx bytes slots tx') (hok : tx.Ok) :
    tx'.active = tx.active ∧ tx'.nextMessageId = tx.nextMessageId ∧
      tx'.sent.toNat = tx.sent.toNat + bytes.length := by
  induction h with
  | nil tx => exact ⟨rfl, rfl, rfl⟩
  | @cons tx tx' fragment bytes slot slots hs hne hle _ _ _ ih =>
      obtain ⟨hactive, hnext, hsent⟩ := ih (hok.advance hs (List.length_pos_of_ne_nil hne) hle)
      refine ⟨hactive, hnext, ?_⟩
      have hadd : (tx.advance fragment.length).sent.toNat = tx.sent.toNat + fragment.length :=
        Sender.toNat_add_ofNat (hok.sent_le hs) hle
      rw [hsent, hadd, List.length_append]
      omega

/-- A data frame of an active message always encodes. -/
theorem Sender.Ok.encode_data {tx : Sender} (h : tx.Ok) (hs : tx.sending) {fragment : List UInt8}
    (hlen : tx.active.len ≠ 0) (hne : fragment ≠ []) (hle : fragment.length ≤ fragmentCapacity)
    (first last : Bool) :
    ∃ slot, encodeFrame tx.active.id tx.active.len first last false fragment = .ok slot := by
  have hnil : fragment.length ≠ 0 := fun h => hne (List.length_eq_zero_iff.mp h)
  refine ⟨⟨_, length_frameBytes _ _ _ _ _ hle⟩, encodeFrame_eq_ok.mpr
    ⟨h.id_ne_zero hs, hle, ?_, frameBytes_eq ..⟩⟩
  simp [validateFrameShape, hlen, hnil]

/-- The frame of an empty message always encodes. -/
theorem Sender.Ok.encode_empty {tx : Sender} (h : tx.Ok) (hs : tx.sending) :
    ∃ slot, encodeFrame tx.active.id 0 true true false [] = .ok slot :=
  ⟨⟨_, length_frameBytes _ _ _ _ _ (Nat.zero_le _)⟩, encodeFrame_eq_ok.mpr
    ⟨h.id_ne_zero hs, Nat.zero_le _, rfl, frameBytes_eq ..⟩⟩

/-- The ABORT frame of an active message always encodes. -/
theorem Sender.Ok.encode_abort {tx : Sender} (h : tx.Ok) (hs : tx.sending) :
    ∃ slot, encodeFrame tx.active.id tx.active.len false false true [] = .ok slot :=
  ⟨⟨_, length_frameBytes _ _ _ _ _ (Nat.zero_le _)⟩, encodeFrame_eq_ok.mpr
    ⟨h.id_ne_zero hs, Nat.zero_le _, rfl, frameBytes_eq ..⟩⟩

/-! ## the programs on any ring -/

/-- A world in which pushes can be followed: `pushes s slots t` says that
between `s` and `t` exactly the slots `slots` were pushed, in this order.
Only slots that are `allowed` may be pushed. -/
structure PushLog {I : Iface} {σ : Type} (V : View I σ) (ring : RingImpl I) (allowed : Slot → Prop)
    (pushes : σ → List Slot → σ → Prop) : Prop where
  trans : ∀ {s t u slots slots'}, pushes s slots t → pushes t slots' u → pushes s (slots ++ slots') u
  stable : ∀ s t, V.rely s t → V.inv t → pushes s [] t
  push : ∀ slot s, allowed slot →
    V.Safe (fun ok t => pushes s (if ok then [slot] else []) t) (ring (.push slot)) s

/-- Every frame of the message `id` is allowed. -/
def Allows (allowed : Slot → Prop) (id : UInt64) : Prop :=
  ∀ messageLen first last abort fragment slot,
    encodeFrame id messageLen first last abort fragment = .ok slot → allowed slot

section OnAnyRing

variable {I : Iface} {σ : Type} {V : View I σ} {ring : RingImpl I} {allowed : Slot → Prop}
  {pushes : σ → List Slot → σ → Prop}

/-- The postcondition that the program pushed some slots since `s` and
returned as `Q` says of these slots. -/
def Appends (pushes : σ → List Slot → σ → Prop) (s : σ) {α : Type} (Q : List Slot → α → Prop)
    (a : α) (t : σ) : Prop :=
  ∃ slots, pushes s slots t ∧ Q slots a

/-- Returning without another push. -/
theorem PushLog.safe_ret (hV : PushLog V ring allowed pushes) {α : Type} {Q : List Slot → α → Prop} {a : α}
    {s : σ} (h : Q [] a) : V.Safe (Appends pushes s Q) (.ret a) s :=
  fun t hr hi => ⟨[], hV.stable s t hr hi, h⟩

/-- A push, and what is done after it in either case. -/
theorem PushLog.safe_push (hV : PushLog V ring allowed pushes) {α : Type} {Q : List Slot → α → Prop} {s : σ}
    {slot : Slot} {k : Bool → Prog I α} (hslot : allowed slot)
    (hfull : ∀ t, V.Safe (Appends pushes t Q) (k false) t)
    (hpush : ∀ t, V.Safe (Appends pushes t fun slots => Q (slot :: slots)) (k true) t) :
    V.Safe (Appends pushes s Q) (ring (.push slot) >>= k) s := by
  refine View.Safe.bind ((hV.push slot s hslot).mono fun ok t _ ht => ?_)
  cases ok with
  | false =>
      refine (hfull t).mono ?_
      rintro a u - ⟨slots, hu, hq⟩
      exact ⟨slots, hV.trans ht hu, hq⟩
  | true =>
      refine (hpush t).mono ?_
      rintro a u - ⟨slots, hu, hq⟩
      exact ⟨slot :: slots, hV.trans ht hu, hq⟩

/-- What the fragment loop adds to what was consumed and published before it. -/
def LoopResult (tx : Sender) (input : List UInt8) (consumed published : Nat) (slots : List Slot)
    (r : Sender × Except Errno SendProgress) : Prop :=
  ∃ n, consumed + n ≤ input.length ∧ (consumed + n = input.length ∨ fragmentCapacity ∣ n) ∧
    Sends tx ((input.drop consumed).take n) slots r.1 ∧
    r.2 = .ok ⟨consumed + n, published + slots.length, !r.1.sending⟩

/-- Leaving the loop without another push. -/
theorem LoopResult.stop {tx : Sender} {input : List UInt8} {consumed published : Nat}
    (hs : tx.sending) (hc : consumed ≤ input.length) :
    LoopResult tx input consumed published [] (tx, .ok ⟨consumed, published, false⟩) := by
  refine ⟨0, hc, .inr (Nat.dvd_zero _), ?_, by simp [hs]⟩
  rw [List.take_zero]
  exact .nil tx

/-- One more fragment in front of what the loop goes on to do. -/
theorem LoopResult.cons {tx : Sender} {input : List UInt8} {consumed published n : Nat}
    {slot : Slot} {slots : List Slot} {r : Sender × Except Errno SendProgress} (hs : tx.sending)
    (hlt : consumed < input.length)
    (hroom : input.length - consumed ≤ tx.active.len.toNat - tx.sent.toNat)
    (hn : n = min fragmentCapacity (input.length - consumed))
    (henc : encodeFrame tx.active.id tx.active.len (!tx.publishedAny)
      (decide (tx.sent + .ofNat n = tx.active.len)) false ((input.drop consumed).take n) = .ok slot)
    (h : LoopResult (tx.advance n) input (consumed + n) (published + 1) slots r) :
    LoopResult tx input consumed published (slot :: slots) r := by
  obtain ⟨k, hk, hfull, hsends, hr⟩ := h
  have hcap : 0 < fragmentCapacity := by decide
  have hlen : ((input.drop consumed).take n).length = n := by
    rw [List.length_take, List.length_drop]
    omega
  refine ⟨n + k, by omega, ?_, ?_, ?_⟩
  · by_cases hrest : consumed + n + k = input.length
    · left; omega
    · have hk' : fragmentCapacity ∣ k := hfull.resolve_left hrest
      have hn' : n = fragmentCapacity := by omega
      right
      rw [hn']
      exact Nat.dvd_add (Nat.dvd_refl _) hk'
  · have hsplit : (input.drop consumed).take (n + k) =
        (input.drop consumed).take n ++ (input.drop (consumed + n)).take k := by
      rw [List.take_add, List.drop_drop]
    rw [hsplit]
    refine .cons hs ?_ (by omega) ?_ (by rw [hlen]; exact henc) (by rw [hlen]; exact hsends)
    · intro h
      rw [h, List.length_nil] at hlen
      omega
    · intro hne
      have hpos : 0 < ((input.drop (consumed + n)).take k).length := List.length_pos_of_ne_nil hne
      rw [List.length_take, List.length_drop] at hpos
      omega
  · rw [hr, List.length_cons]
    congr 2 <;> omega

theorem safe_tryWriteLoop (hV : PushLog V ring allowed pushes) {input : List UInt8} (iterations : Nat)
    {tx : Sender} (hok : tx.Ok) (hall : Allows allowed tx.active.id) (hs : tx.sending)
    (hlen : tx.active.len ≠ 0) {consumed published : Nat} (hc : consumed ≤ input.length) (hi : input.length ≤ consumed + iterations)
    (hroom : input.length - consumed ≤ tx.active.len.toNat - tx.sent.toNat) {s : σ} :
    V.Safe (Appends pushes s (LoopResult tx input consumed published))
      (tryWriteLoop ring input tx consumed published iterations) s := by
  induction iterations generalizing tx consumed published s with
  | zero =>
      rw [tryWriteLoop, if_neg (by omega)]
      exact hV.safe_ret (.stop hs hc)
  | succ iterations ih =>
      rw [tryWriteLoop]
      split
      · next hlt =>
          have hcap : 0 < fragmentCapacity := by decide
          generalize hn : min fragmentCapacity (input.length - consumed) = n
          have hfrag : ((input.drop consumed).take n).length = n := by
            rw [List.length_take, List.length_drop]
            omega
          have hne : (input.drop consumed).take n ≠ [] := by
            intro h
            rw [h, List.length_nil] at hfrag
            omega
          obtain ⟨slot, henc⟩ := hok.encode_data hs hlen hne (by omega) (!tx.publishedAny)
            (decide (tx.sent + .ofNat n = tx.active.len))
          simp only [henc]
          refine hV.safe_push (hall _ _ _ _ _ _ henc) (fun t => hV.safe_ret (.stop hs hc)) fun t => ?_
          have hok' : (tx.advance n).Ok := hok.advance hs (by omega) (by omega)
          by_cases hcomplete : tx.sent + .ofNat n = tx.active.len
          · rw [if_pos rfl, if_pos hcomplete]
            refine hV.safe_ret (LoopResult.cons hs hlt hroom hn.symm henc ⟨0, by omega, .inr (Nat.dvd_zero _), ?_, ?_⟩)
            · rw [List.take_zero]
              have hadv : ({ tx with sent := tx.sent + .ofNat n, publishedAny := true, sending := false } :
                  Sender) = tx.advance n := by simp [Sender.advance, hcomplete]
              rw [← hadv]
              exact .nil _
            · simp
          · rw [if_pos rfl, if_neg hcomplete]
            have hadv : ({ tx with sent := tx.sent + .ofNat n, publishedAny := true } : Sender) =
                tx.advance n := by simp [Sender.advance, hcomplete, hs]
            rw [hadv]
            have hsent := Sender.toNat_add_ofNat (hok.sent_le hs) (show n ≤ _ by omega)
            have hs' : (tx.advance n).sending := by simp [Sender.advance, hcomplete]
            have hroom' : input.length - (consumed + n) ≤
                (tx.advance n).active.len.toNat - (tx.advance n).sent.toNat := by
              simp only [Sender.advance]
              omega
            refine (ih hok' hall hs' hlen (by omega) (by omega) hroom').mono ?_
            rintro r u - ⟨slots, hu, hr⟩
            exact ⟨slots, hu, .cons hs hlt hroom hn.symm henc hr⟩
      · exact hV.safe_ret (.stop hs hc)

/-- **Writing**, on any ring. -/
theorem safe_messageTryWrite (hV : PushLog V ring allowed pushes) {tx : Sender} (hok : tx.Ok)
    (hall : Allows allowed tx.active.id) (input : List UInt8) {s : σ} :
    V.Safe (Appends pushes s fun slots r => WriteResult tx input slots r.1 r.2)
      (messageTryWrite ring tx input) s := by
  rw [messageTryWrite]
  by_cases hs : tx.sending
  · rw [if_neg (by simp [hs])]
    have hrem := Sender.toNat_sub_sent (hok.sent_le hs)
    split
    · next hlong => exact hV.safe_ret (.tooLong hs hlong)
    · next hfits =>
        split
        · next hzero =>
            have hnil : input = [] := by
              rw [hok.sent_zero hs hzero, hzero] at hfits
              simpa using hfits
            obtain ⟨slot, henc⟩ := hok.encode_empty hs
            rw [publishEmptyMessage, henc]
            exact hV.safe_push (hall _ _ _ _ _ _ henc) (fun t => hV.safe_ret (.emptyFull hs hzero hnil))
              fun t => hV.safe_ret (.empty hs hzero hnil henc)
        · next hlen =>
            refine (safe_tryWriteLoop hV input.length hok hall hs hlen (Nat.zero_le _) (by omega) (by omega)).mono ?_
            rintro ⟨tx', res⟩ t - ⟨slots, ht, n, hn, hfull, hsends, hres⟩
            simp only [Nat.zero_add, List.drop_zero] at hn hfull hsends hres
            rw [hres]
            exact ⟨slots, ht, .data hs hlen (by omega) hn hfull hsends⟩
  · rw [if_pos (by simp [hs])]
    exact hV.safe_ret (.notSending (by simpa using hs))

/-- **Aborting**, on any ring. -/
theorem safe_messageTryAbort (hV : PushLog V ring allowed pushes) {tx : Sender} (hok : tx.Ok)
    (hall : Allows allowed tx.active.id) {s : σ} :
    V.Safe (Appends pushes s fun slots r => AbortResult tx slots r.1 r.2) (messageTryAbort ring tx) s := by
  rw [messageTryAbort]
  by_cases hs : tx.sending
  · rw [if_neg (by simp [hs])]
    by_cases hp : tx.publishedAny
    · rw [if_neg (by simp [hp])]
      obtain ⟨slot, henc⟩ := hok.encode_abort hs
      rw [henc]
      exact hV.safe_push (hall _ _ _ _ _ _ henc) (fun t => hV.safe_ret (.full hs hp))
        fun t => hV.safe_ret (.published hs hp henc)
    · rw [if_pos (by simp [hp])]
      exact hV.safe_ret (.unpublished hs (by simpa using hp))
  · rw [if_pos (by simp [hs])]
    exact hV.safe_ret (.notSending (by simpa using hs))

/-! ## the calls return -/

theorem tryWriteLoop_returns (hring : ∀ o, (ring o).Returns) {input : List UInt8} (iterations : Nat)
    {tx : Sender} {consumed published : Nat} (h : input.length ≤ consumed + iterations) :
    (tryWriteLoop ring input tx consumed published iterations).Returns := by
  induction iterations generalizing tx consumed published with
  | zero =>
      rw [tryWriteLoop, if_neg (by omega)]
      trivial
  | succ iterations ih =>
      rw [tryWriteLoop]
      split
      · next hlt =>
          have hcap : 0 < fragmentCapacity := by decide
          dsimp only
          split
          · trivial
          · refine (hring _).bind fun ok => ?_
            split
            · split
              · trivial
              · exact ih (by omega)
            · trivial
      · trivial

theorem messageTryWrite_returns (hring : ∀ o, (ring o).Returns) (tx : Sender) (input : List UInt8) :
    (messageTryWrite ring tx input).Returns := by
  rw [messageTryWrite]
  split
  · trivial
  · split
    · trivial
    · split
      · rw [publishEmptyMessage]
        split
        · trivial
        · refine (hring _).bind fun ok => ?_
          split <;> trivial
      · exact tryWriteLoop_returns hring _ (by omega)

theorem messageTryAbort_returns (hring : ∀ o, (ring o).Returns) (tx : Sender) :
    (messageTryAbort ring tx).Returns := by
  rw [messageTryAbort]
  split
  · trivial
  · split
    · trivial
    · split
      · trivial
      · refine (hring _).bind fun ok => ?_
        split <;> trivial

end OnAnyRing

end Axivc
