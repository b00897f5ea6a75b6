import Axivc.EndpointRuns
import Axivc.Grammar

/-!
# Axivc.SendRuns

What `axivc_send_message` does, in any run of calls.

`Canonical` is the one way a buffer is cut into frames.  The chunk is read
again and offered again after every full ring, and at most one fragment goes
out per attempt, so the adapter's and the engine's cursors move in step: both
are a multiple of the fragment capacity until the message is complete.
-/

namespace Axivc

open Prog Rely

/-! ## the frames of a buffer -/

/-- The slot holds the `i`-th fragment of `buf`. -/
def IsFragment (id : UInt64) (buf : List UInt8) (i : Nat) (slot : Slot) : Prop :=
  encodeFrame id (.ofNat buf.length) (decide (i = 0)) (decide (buf.length ≤ fragmentCapacity * (i + 1))) false
    ((buf.drop (fragmentCapacity * i)).take fragmentCapacity) = .ok slot

/-- The slots hold the first fragments of `buf`, in order. -/
def Fragments (id : UInt64) (buf : List UInt8) (slots : List Slot) : Prop :=
  ∀ i slot, slots[i]? = some slot → IsFragment id buf i slot

/-- The frames of a message: as many as the buffer needs, all of one message,
the `i`-th with the `i`-th piece of the buffer, FIRST on the first and LAST on
the last. -/
structure Canonical (id : UInt64) (buf : List UInt8) (slots : List Slot) : Prop where
  count : slots.length = (buf.length + (fragmentCapacity - 1)) / fragmentCapacity
  frames : ∀ i slot, slots[i]? = some slot → ∃ frame, decodeFrame slot = .ok frame ∧
    frame.messageId = id ∧ frame.messageLen.toNat = buf.length ∧
    frame.fragment = (buf.drop (fragmentCapacity * i)).take fragmentCapacity ∧
    (frame.first = true ↔ i = 0) ∧ (frame.last = true ↔ i + 1 = slots.length) ∧ frame.abort = false
  /-- byte for byte, padding included -/
  encoded : Fragments id buf slots

section Fragments

variable {id : UInt64} {buf : List UInt8} {slots slots' : List Slot} {slot : Slot}

theorem Fragments.snoc (h : Fragments id buf slots) (hslot : IsFragment id buf slots.length slot) :
    Fragments id buf (slots ++ [slot]) := by
  intro i x hx
  by_cases hlt : i < slots.length
  · rw [List.getElem?_append_left hlt] at hx
    exact h i x hx
  · rw [List.getElem?_append_right (by omega)] at hx
    have hzero : i - slots.length = 0 := by
      by_contra hne
      rw [List.getElem?_eq_none (by simp only [List.length_singleton]; omega)] at hx
      cases hx
    rw [hzero] at hx
    obtain rfl : slot = x := by simpa using hx
    have hi : i = slots.length := by omega
    rwa [hi]

/-- All of the buffer is out when the frames reach its end. -/
theorem Fragments.canonical (h : Fragments id buf slots) (hfits : buf.length < 2 ^ 64) (hne : slots ≠ [])
    (hend : buf.length ≤ fragmentCapacity * slots.length)
    (hlast : fragmentCapacity * (slots.length - 1) < buf.length) : Canonical id buf slots := by
  have hpos := List.length_pos_of_ne_nil hne
  have hcap : fragmentCapacity = 232 := rfl
  rw [hcap] at hend hlast
  refine ⟨by rw [hcap]; omega, fun i x hx => ?_, h⟩
  obtain ⟨frame, hdec, hid, hlen, hfirst, hlast', habort, hfrag⟩ := decodeFrame_encodeFrame (h i x hx)
  have hi := (List.getElem?_eq_some_iff.mp hx).1
  refine ⟨frame, hdec, hid, ?_, hfrag, by simp [hfirst], ?_, habort⟩
  · rw [hlen, UInt64.toNat_ofNat']
    exact Nat.mod_eq_of_lt hfits
  · rw [hlast', decide_eq_true_eq, hcap]
    omega

/-- A buffer is cut in one way only. -/
theorem Canonical.unique (h : Canonical id buf slots) (h' : Canonical id buf slots') : slots = slots' := by
  have hlen : slots.length = slots'.length := by rw [h.count, h'.count]
  refine List.ext_getElem? fun i => ?_
  by_cases hi : i < slots.length
  · have hx := h.encoded i _ (List.getElem?_eq_getElem hi)
    have hx' := h'.encoded i _ (List.getElem?_eq_getElem (hlen ▸ hi))
    rw [List.getElem?_eq_getElem hi, List.getElem?_eq_getElem (hlen ▸ hi)]
    exact congrArg some (Except.ok.inj (hx.symm.trans hx'))
  · rw [List.getElem?_eq_none (by omega), List.getElem?_eq_none (by omega)]

end Fragments

/-! ## one attempt -/

/-- A chunk of at most one slot either stays behind a full ring, or goes out in
one fragment. -/
theorem WriteResult.chunk {tx tx' : Sender} {input : List UInt8} {slots : List Slot}
    {result : Except Errno SendProgress} (h : WriteResult tx input slots tx' result) (hok : tx.Ok)
    (hs : tx.sending = true) (hlen : tx.active.len ≠ 0) (hne : input ≠ []) (hcap : input.length ≤ fragmentCapacity)
    (hfits : input.length ≤ tx.active.len.toNat - tx.sent.toNat) :
    slots = [] ∧ tx' = tx ∧ result = .ok ⟨0, 0, false⟩ ∨
    ∃ slot, slots = [slot] ∧ tx' = tx.advance input.length ∧
      encodeFrame tx.active.id tx.active.len (!tx.publishedAny)
        (decide (tx.sent + .ofNat input.length = tx.active.len)) false input = .ok slot ∧
      result = .ok ⟨input.length, 1, !tx'.sending⟩ := by
  have hpos := List.length_pos_of_ne_nil hne
  cases h with
  | notSending hs' => rw [hs] at hs'; cases hs'
  | tooLong _ hlong =>
      rw [Sender.toNat_sub_sent (hok.sent_le hs)] at hlong
      omega
  | emptyFull _ hz => exact absurd hz hlen
  | empty _ hz => exact absurd hz hlen
  | @data n slots tx' _ _ _ hn hfull hsends =>
      by_cases hzero : n = 0
      · subst hzero
        rw [List.take_zero] at hsends
        generalize hbytes : ([] : List UInt8) = bytes at hsends
        cases hsends with
        | nil => exact .inl ⟨rfl, rfl, by simp [hs]⟩
        | cons _ hne' => simp [hne'] at hbytes
      · -- At most one slot's worth of bytes: the whole chunk.
        have hall : n = input.length := by
          rcases hfull with hfull | ⟨k, hk⟩
          · exact hfull
          · have hk' : 1 ≤ k := by
              by_contra hk'
              have : k = 0 := by omega
              rw [this] at hk
              omega
            have := Nat.mul_le_mul_left fragmentCapacity hk'
            omega
        subst hall
        rw [List.take_length] at hsends
        cases hsends with
        | nil => exact absurd rfl hne
        | @cons _ _ fragment bytes slot slots _ hne' _ hcapfull henc hrest =>
            have hnil : bytes = [] := by
              by_contra hbytes
              have hcap' := hcapfull hbytes
              have hpos' := List.length_pos_of_ne_nil hbytes
              rw [List.length_append] at hcap
              omega
            subst hnil
            generalize hbytes : ([] : List UInt8) = bytes at hrest
            cases hrest with
            | nil =>
                rw [List.append_nil] at *
                exact .inr ⟨slot, rfl, rfl, henc, rfl⟩
            | cons _ hne'' => simp [hne''] at hbytes

/-- The message `id` is being sent: the slots `pushed` hold what has gone out
of `buf`, and there is more. -/
structure Fragmenting (id : UInt64) (buf : List UInt8) (tx : Sender) (pushed : List Slot) : Prop where
  ok : tx.Ok
  sending : tx.sending = true
  id_eq : tx.active.id = id
  len : tx.active.len.toNat = buf.length
  sent : tx.sent.toNat = fragmentCapacity * pushed.length
  more : fragmentCapacity * pushed.length < buf.length
  fragments : Fragments id buf pushed

section Attempt

variable {id : UInt64} {buf : List UInt8} {tx tx' : Sender} {pushed slots : List Slot}

/-- One attempt: nothing happens, or the next fragment goes out and the message
goes on or is complete. -/
theorem Fragmenting.attempt (h : Fragmenting id buf tx pushed) (hfits : buf.length < 2 ^ 64)
    {result : Except Errno SendProgress}
    (hr : WriteResult tx ((buf.drop (fragmentCapacity * pushed.length)).take
      (min fragmentCapacity (buf.length - fragmentCapacity * pushed.length))) slots tx' result) :
    slots = [] ∧ tx' = tx ∧ result = .ok ⟨0, 0, false⟩ ∨
    ∃ slot n, slots = [slot] ∧ tx'.Ok ∧ result = .ok ⟨n, 1, !tx'.sending⟩ ∧
      (tx'.sending = true → Fragmenting id buf tx' (pushed ++ [slot]) ∧
        fragmentCapacity * pushed.length + n = fragmentCapacity * (pushed ++ [slot]).length) ∧
      (tx'.sending = false → Canonical id buf (pushed ++ [slot])) := by
  have hmore := h.more
  have hsent := h.sent
  have hlen := h.len
  have hcap : fragmentCapacity = 232 := rfl
  have hsucc : fragmentCapacity * (pushed.length + 1) = fragmentCapacity * pushed.length + fragmentCapacity :=
    Nat.mul_succ ..
  have htake : (buf.drop (fragmentCapacity * pushed.length)).take
      (min fragmentCapacity (buf.length - fragmentCapacity * pushed.length)) =
      (buf.drop (fragmentCapacity * pushed.length)).take fragmentCapacity := by
    rw [List.take_eq_take_iff, List.length_drop]
    omega
  rw [htake] at hr
  generalize hinput : (buf.drop (fragmentCapacity * pushed.length)).take fragmentCapacity = input at hr
  have hn : input.length = min fragmentCapacity (buf.length - fragmentCapacity * pushed.length) := by
    rw [← hinput, List.length_take, List.length_drop]
  have hlen_ne : tx.active.len ≠ 0 := by
    intro hz
    rw [hz, UInt64.toNat_zero] at hlen
    omega
  have hne : input ≠ [] := by
    intro hnil
    rw [hnil, List.length_nil] at hn
    omega
  rcases hr.chunk h.ok h.sending hlen_ne hne (by omega) (by omega) with hstay | ⟨slot, hslots, htx, henc, hres⟩
  · exact .inl hstay
  have hle : input.length ≤ tx.active.len.toNat - tx.sent.toNat := by omega
  have hsum := Sender.toNat_add_ofNat (h.ok.sent_le h.sending) hle
  have hcomplete : tx.sent + .ofNat input.length = tx.active.len ↔
      buf.length ≤ fragmentCapacity * (pushed.length + 1) := by
    rw [← UInt64.toNat_inj, hsum, hsent, hlen, hn]
    omega
  have hpublished : (!tx.publishedAny) = decide (pushed.length = 0) := by
    have hiff := h.ok.published_iff h.sending
    rw [Ne, ← UInt64.toNat_inj, hsent, UInt64.toNat_zero, hcap] at hiff
    rw [Bool.eq_iff_iff, Bool.not_eq_true', ← Bool.not_eq_true, hiff, decide_eq_true_eq]
    omega
  have hlen' : tx.active.len = .ofNat buf.length := by
    rw [← UInt64.toNat_inj, hlen, UInt64.toNat_ofNat', Nat.mod_eq_of_lt hfits]
  have hfragment : IsFragment id buf pushed.length slot := by
    unfold IsFragment
    rw [hinput, ← hlen', ← hpublished, ← h.id_eq]
    simpa only [hcomplete] using henc
  have hfragments := h.fragments.snoc hfragment
  refine .inr ⟨slot, input.length, hslots, ?_, hres, fun hs => ?_, fun hs => ?_⟩
  · rw [htx]
    exact h.ok.advance h.sending (List.length_pos_of_ne_nil hne) hle
  · have hnot : ¬ buf.length ≤ fragmentCapacity * (pushed.length + 1) := by
      rw [htx] at hs
      rw [← hcomplete]
      simpa [Sender.advance] using hs
    rw [List.length_append, List.length_singleton]
    refine ⟨⟨?_, hs, by rw [htx]; exact h.id_eq, by rw [htx]; exact hlen, ?_, ?_, hfragments⟩, by omega⟩
    · rw [htx]
      exact h.ok.advance h.sending (List.length_pos_of_ne_nil hne) hle
    · rw [htx, List.length_append, List.length_singleton]
      change (tx.sent + .ofNat input.length).toNat = _
      omega
    · rw [List.length_append, List.length_singleton]
      omega
  · have hend : buf.length ≤ fragmentCapacity * (pushed.length + 1) := by
      rw [htx] at hs
      rw [← hcomplete]
      simpa [Sender.advance] using hs
    refine hfragments.canonical hfits (by simp) ?_ ?_
    · rwa [List.length_append, List.length_singleton]
    · rwa [List.length_append, List.length_singleton, Nat.add_sub_cancel]

end Attempt

/-! ## within the lock -/

section Inside

variable {α : Type} {target : NotifyTarget} {s : HalfState Transmit} {g : CallLog SendArgs Transmit}
  {post : α → HalfState Transmit × CallLog SendArgs Transmit → Prop} {id : UInt64} {buf : List UInt8} {tx : Sender}

/-- A push shows in the log only. -/
theorem endpoint_pushLog : PushLog (endpointView SendArgs Transmit target) atomicRing (fun _ => True)
    (fun s slots t => t = (s.1, s.2.push slots)) where
  trans h h' := by rw [h', h, CallLog.push_append]
  stable s t hr _ := by
    obtain rfl := hr
    rw [CallLog.push_nil]
  push slot s _ := by
    refine endpoint_act rfl trivial fun ok _ => endpoint_ret ?_
    cases ok with
    | true => rfl
    | false =>
        rw [if_neg (by simp), CallLog.push_nil]
        rfl

/-- A call on the sender: its record is stored, its pushes are logged. -/
theorem endpoint_onSender {β : Type} {f : Sender → Prog (endpointIface ringIface Transmit) (Sender × β)}
    {k : β → Prog (endpointIface ringIface Transmit) α} {R : List Slot → Sender × β → Prop}
    (hf : ∀ x, (endpointView SendArgs Transmit target).Safe
      (Appends (fun s slots t => t = (s.1, s.2.push slots)) x R) (f s.half.tx) x)
    (hk : ∀ slots tx b, R slots (tx, b) → (endpointView SendArgs Transmit target).Safe post (k b)
      ({ s with half := { s.half with tx := tx } }, g.push slots)) :
    (endpointView SendArgs Transmit target).Safe post (onSender f >>= k) (s, g) := by
  rw [onSender, Prog.bind_assoc]
  refine endpoint_load ?_
  refine View.Safe.bind (View.Safe.bind ((hf _).mono ?_))
  rintro ⟨tx, b⟩ _ - ⟨slots, rfl, hR⟩
  exact endpoint_act rfl trivial fun _ _ => endpoint_ret (hk slots tx b hR)

/-- What the parts of a call keep: the sender is in order, the log knows the
same call, and everything pushed has been announced. -/
structure Kept (target : NotifyTarget) (g : CallLog SendArgs Transmit) (t : HalfState Transmit × CallLog SendArgs Transmit) :
    Prop where
  ok : t.1.half.tx.Ok
  call : t.2.call = g.call
  found : t.2.found = g.found
  announced : t.2.Announced target

/-- The loop of `axivc_abort_send`: it ends with a slot to be announced only if
one had been published before. -/
theorem endpoint_abortLoop (deadline : UInt64) (iterations : Nat) (hok : s.half.tx.Ok) (ha : g.Announced target) :
    (endpointView SendArgs Transmit target).Safe (fun result t => t.1.half.tx.Ok ∧ t.1.half.txError = s.half.txError ∧
        t.2.call = g.call ∧ t.2.found = g.found ∧ t.2.interrupted = g.interrupted ∧
        (t.2.Announced target ∨ result = .ok () ∧ s.half.tx.publishedAny = true))
      (abortLoop atomicRing target deadline iterations) (s, g) := by
  induction iterations generalizing g with
  | zero => exact fun _ _ _ => trivial
  | succ iterations ih =>
      refine endpoint_onSender (fun x => safe_messageTryAbort endpoint_pushLog hok
        (fun _ _ _ _ _ _ _ => trivial)) fun slots tx result hr => ?_
      cases hr with
      | notSending => exact endpoint_ret ⟨hok, rfl, rfl, rfl, rfl, .inl (by rw [CallLog.push_nil]; exact ha)⟩
      | unpublished =>
          exact endpoint_ret ⟨.of_not_sending rfl, rfl, rfl, rfl, rfl, .inl (by rw [CallLog.push_nil]; exact ha)⟩
      | published _ hp => exact endpoint_ret ⟨.of_not_sending rfl, rfl, rfl, rfl, rfl, .inr ⟨rfl, hp⟩⟩
      | full =>
          rw [CallLog.push_nil]
          refine endpoint_notifyPublisher (endpoint_jiffies fun now => ?_)
          change (endpointView SendArgs Transmit target).Safe _ _ (s, _)
          by_cases hlate : timeAfterEq now deadline
          · rw [if_pos hlate]
            exact endpoint_ret ⟨hok, rfl, by simp, by simp, by simp, .inl (g.announced_notify target)⟩
          · rw [if_neg hlate]
            refine endpoint_op rfl (g.announced_notify target) fun _ _ => ?_
            refine (ih (g.announced_notify target)).mono ?_
            rintro result t - ⟨hok', herr, hcall, hfound, hint, hann⟩
            exact ⟨hok', herr, by rw [hcall]; simp, by rw [hfound]; simp, by rw [hint]; simp, hann⟩

/-- `axivc_abort_send` announces the ABORT slot it pushes, and leaves `tx_error`
as it was or `-EPIPE`. -/
theorem endpoint_abortSend (iterations : Nat) (hok : s.half.tx.Ok) (herr : s.half.txError = none)
    (ha : g.Announced target) :
    (endpointView SendArgs Transmit target).Safe (fun _ t => Kept target g t ∧ t.2.interrupted = g.interrupted ∧
        ∀ e, t.1.half.txError = some e → e = .EPIPE)
      (abortSend atomicRing target iterations) (s, g) := by
  refine endpoint_deadlineAfter fun deadline => endpoint_load ?_
  refine View.Safe.bind ((endpoint_abortLoop deadline iterations hok ha).mono ?_)
  rintro result ⟨t, g'⟩ - ⟨hok', herr', hcall, hfound, hint, hann⟩
  have hnone : ∀ e, t.half.txError = some e → e = .EPIPE := by
    intro e he
    rw [herr', herr] at he
    cases he
  cases result with
  | ok u =>
      obtain ⟨⟩ := u
      dsimp only
      split
      · rw [← Prog.bind_ret (notifyPublisher target)]
        refine endpoint_notifyPublisher (endpoint_ret ⟨⟨hok', ?_, ?_, g'.announced_notify target⟩, ?_, hnone⟩)
        · simpa using hcall
        · simpa using hfound
        · simpa using hint
      · next hp =>
          refine endpoint_ret ⟨⟨hok', hcall, hfound, ?_⟩, hint, hnone⟩
          exact hann.resolve_right fun h => hp h.2
  | error e =>
      have hann' : g'.Announced target := hann.resolve_right (by simp)
      dsimp only
      split
      · refine endpoint_load ?_
        refine endpoint_act rfl trivial fun _ _ => endpoint_ret ?_
        refine ⟨⟨hok', hcall, hfound, hann'⟩, hint, ?_⟩
        rintro e ⟨⟩
        rfl
      · exact endpoint_ret ⟨⟨hok', hcall, hfound, hann'⟩, hint, hnone⟩

/-- What a call may return, by its log. -/
structure SendEnds (id : UInt64) (buf : List UInt8) (a : Except Errno Nat) (g : CallLog SendArgs Transmit) : Prop where
  sent : ∀ n, a = .ok n → n = buf.length ∧ Canonical id buf g.pushed
  restart : a = .error .ERESTARTSYS → g.interrupted = true

/-- An error that asks for no restart. -/
theorem SendEnds.of_error {e : Errno} (he : e ≠ .ERESTARTSYS) : SendEnds id buf (.error e) g :=
  ⟨by simp, by simp [he]⟩

/-- The loop of `axivc_send_message`. -/
theorem endpoint_sendLoop (hfits : buf.length < 2 ^ 64) (deadline : UInt64) (iterations : Nat)
    (h : Fragmenting id buf s.half.tx g.pushed) (herr : s.half.txError = none) (ha : g.Announced target) :
    (endpointView SendArgs Transmit target).Safe
      (fun a t => Kept target g t ∧ t.1.half.txError = none ∧ SendEnds id buf a t.2)
      (sendLoop atomicRing target buf (fragmentCapacity * g.pushed.length) deadline iterations) (s, g) := by
  induction iterations generalizing s g deadline with
  | zero => exact fun _ _ _ => trivial
  | succ iterations ih =>
      have hkept : Kept target g (s, g) := ⟨h.ok, rfl, rfl, ha⟩
      have hchunk : min fragmentCapacity (buf.length - fragmentCapacity * g.pushed.length) ≠ 0 := by
        have hmore := h.more
        have hcap : fragmentCapacity = 232 := rfl
        omega
      rw [sendLoop, copyAnyFromUser, if_pos hchunk]
      refine endpoint_copyFromUser fun uncopied => ?_
      by_cases hfault : uncopied ≠ 0
      · rw [if_pos hfault]
        exact endpoint_ret ⟨hkept, herr, .of_error (by decide)⟩
      rw [if_neg hfault]
      refine endpoint_onSender (fun x => safe_messageTryWrite endpoint_pushLog h.ok
        (fun _ _ _ _ _ _ _ => trivial) _) fun slots tx result hr => ?_
      change WriteResult s.half.tx _ slots tx result at hr
      rcases h.attempt hfits hr with ⟨rfl, rfl, rfl⟩ | ⟨slot, n, rfl, hok, rfl, hgoes, hends⟩
      · -- The ring was full: the call waits and offers the chunk again.
        rw [CallLog.push_nil]
        refine endpoint_afterProgress fun deadline => endpoint_jiffies fun now => ?_
        change (endpointView SendArgs Transmit target).Safe _ _ (s, g)
        by_cases hlate : timeAfterEq now deadline
        · rw [if_pos hlate]
          exact endpoint_ret ⟨hkept, herr, .of_error (by decide)⟩
        rw [if_neg hlate]
        refine endpoint_msleepInterruptible ha fun left => ?_
        by_cases hleft : left ≠ 0
        · rw [if_pos hleft]
          exact endpoint_ret ⟨⟨h.ok, rfl, rfl, ha⟩, herr, by simp, fun _ => by simp [hleft]⟩
        · rw [if_neg hleft, Nat.add_zero]
          refine (ih (s := ⟨s.half, s.signalled || left != 0⟩) (g := { g with interrupted := g.interrupted || left != 0 })
            deadline h herr ha).mono ?_
          rintro a u - ⟨⟨hok', hcall, hfound, hann⟩, hrest⟩
          exact ⟨⟨hok', hcall, hfound, hann⟩, hrest⟩
      · refine endpoint_afterProgress fun deadline => ?_
        simp only [ne_eq, Nat.one_ne_zero, not_false_eq_true, if_true]
        cases hs : tx.sending with
        | false =>
            refine endpoint_ret ⟨⟨hok, by simp [CallLog.push], by simp [CallLog.push],
              CallLog.announced_notify _ target⟩, herr, ?_, by simp⟩
            rintro _ ⟨rfl⟩
            refine ⟨rfl, ?_⟩
            rw [CallLog.notify_pushed]
            exact hends hs
        | true =>
            obtain ⟨hnext, hsum⟩ := hgoes hs
            change (endpointView SendArgs Transmit target).Safe _
              (sendLoop atomicRing target buf (fragmentCapacity * g.pushed.length + n) deadline iterations) _
            have hpushed : ((g.push [slot]).notify target).pushed = g.pushed ++ [slot] := by simp [CallLog.push]
            rw [hsum, ← hpushed]
            refine (ih (s := { s with half := { s.half with tx := tx } }) deadline (by rw [hpushed]; exact hnext) herr
              (CallLog.announced_notify _ target)).mono ?_
            rintro a u - ⟨⟨hok', hcall, hfound, hann⟩, herr', hends'⟩
            exact ⟨⟨hok', by rw [hcall]; simp [CallLog.push], by rw [hfound]; simp [CallLog.push], hann⟩, herr', hends'⟩

/-- The half between calls: the sender is in order, `tx_error` is unset or
`-EPIPE`. -/
structure TransmitOk (s : HalfState Transmit) : Prop where
  sender : s.half.tx.Ok
  error : ∀ e, s.half.txError = some e → e = .EPIPE

/-- `axivc_send_message` between lock and unlock. -/
theorem endpoint_sendLocked (iterations : Nat) (hfits : buf.length < 2 ^ 64) (hne : buf.length ≠ 0)
    (hs : TransmitOk s) (hnone : g.pushed = []) (ha : g.Announced target) :
    (endpointView SendArgs Transmit target).Safe (fun a t => TransmitOk t.1 ∧ Kept target g t ∧
        SendEnds s.half.tx.nextMessageId buf a t.2)
      (sendLocked atomicRing target iterations buf) (s, g) := by
  have hkept : Kept target g (s, g) := ⟨hs.sender, rfl, rfl, ha⟩
  refine endpoint_load ?_
  cases herr : s.half.txError with
  | some e =>
      have he : e ≠ .ERESTARTSYS := by
        rw [hs.error e herr]
        decide
      exact endpoint_ret ⟨hs, hkept, .of_error he⟩
  | none =>
      dsimp only
      refine endpoint_onSender (R := fun slots r => slots = [] ∧ r = messageStart s.half.tx (.ofNat buf.length))
        (fun x => endpoint_pushLog.safe_ret ⟨rfl, rfl⟩) ?_
      rintro _ tx result ⟨rfl, hstart⟩
      rw [CallLog.push_nil]
      rcases messageStart_result s.half.tx (.ofNat buf.length) with ⟨-, heq⟩ | ⟨-, -, heq⟩ | ⟨-, hid, next, heq⟩
      · obtain ⟨rfl, rfl⟩ := Prod.mk.inj (hstart.trans heq)
        exact endpoint_ret ⟨hs, hkept, .of_error (by decide)⟩
      · obtain ⟨rfl, rfl⟩ := Prod.mk.inj (hstart.trans heq)
        exact endpoint_ret ⟨hs, hkept, .of_error (by decide)⟩
      have hok := messageStart_ok hs.sender (.ofNat buf.length)
      rw [heq] at hok
      obtain ⟨rfl, rfl⟩ := Prod.mk.inj (hstart.trans heq)
      refine endpoint_deadlineAfter fun deadline => ?_
      have hfragmenting : Fragmenting s.half.tx.nextMessageId buf
          ⟨next, true, ⟨s.half.tx.nextMessageId, .ofNat buf.length⟩, 0, false⟩ g.pushed := by
        rw [hnone]
        refine ⟨hok, rfl, rfl, ?_, rfl, Nat.pos_of_ne_zero hne, fun i slot h => by simp at h⟩
        rw [UInt64.toNat_ofNat', Nat.mod_eq_of_lt hfits]
      have hloop := endpoint_sendLoop (g := g)
        (s := { s with half := { s.half with tx := ⟨next, true, ⟨s.half.tx.nextMessageId, .ofNat buf.length⟩, 0, false⟩ } })
        hfits deadline iterations hfragmenting herr ha
      rw [hnone] at hloop
      refine View.Safe.bind (hloop.mono ?_)
      rintro a ⟨u, g'⟩ - ⟨hkept', herr', hends⟩
      cases a with
      | ok n =>
          refine endpoint_ret ⟨⟨hkept'.ok, fun e he => ?_⟩, hkept', hends⟩
          rw [herr'] at he
          cases he
      | error e =>
          refine View.Safe.bind ((endpoint_abortSend iterations hkept'.ok herr' hkept'.announced).mono ?_)
          rintro _ ⟨v, g''⟩ - ⟨hkept'', hint, herr''⟩
          refine endpoint_ret ⟨⟨hkept''.ok, herr''⟩, ⟨hkept''.ok, hkept''.call.trans hkept'.call,
            hkept''.found.trans hkept'.found, hkept''.announced⟩, by simp, fun he => ?_⟩
          rw [hint]
          exact hends.restart he

end Inside

/-! ## every run -/

/-- What a call of `axivc_send_message` that returns `a` has done. -/
structure SendReturns (target : NotifyTarget) (a : Except Errno Nat) (g : CallLog SendArgs Transmit) : Prop where
  announced : g.Announced target
  restart : a = .error .ERESTARTSYS → g.interrupted = true
  sent : ∀ n, a = .ok n → n = g.call.buf.length ∧ ∃ found, g.found = some found ∧
    Canonical found.half.tx.nextMessageId g.call.buf g.pushed

section Runs

variable {target : NotifyTarget}

/-- The outline of `sendMachine`. -/
abbrev sendOutline (target : NotifyTarget) : Machine.Outline (sendMachine target) :=
  (endpointMonitor SendArgs Transmit target).outline _ _ TransmitOk (SleepsAnnounced target) (SendReturns target)

theorem sendMessage_safe (call : SendArgs) (i : Nat) (s : Guarded (HalfState Transmit) (CallLog SendArgs Transmit))
    (hown : s.owner ≠ some i) (hlog : s.log i = some (.fresh call)) :
    ((sendOutline target).view i).Safe ((sendOutline target).post i)
      (sendMessage atomicRing target call.iterations call.buf) s := by
  unfold sendMessage
  split
  · intro t ht _
    exact ⟨fun h => hown (ht.owner.mp h), _, ht.log.trans hlog, fun _ => rfl, by simp, by simp⟩
  · next hne =>
      refine Monitor.safe_locked hown hlog ⟨rfl, fun _ _ => rfl⟩ endpoint_unlock
        (fun _ => rfl) (fun r h hallowed htakes => ?_) fun r h htakes hJ => ?_
      · obtain rfl : r = .error .EINTR := by
          rcases hallowed with rfl | rfl
          · rfl
          · cases htakes
        exact ⟨.error .EINTR, rfl, fun _ => rfl, by simp, by simp⟩
      · obtain rfl : r = .ok () := by
          match r, htakes with
          | .ok (), _ => rfl
        refine ⟨sendLocked atomicRing target call.iterations call.buf, rfl, ?_⟩
        refine (endpoint_sendLocked call.iterations call.fits hne hJ rfl fun _ => rfl).mono ?_
        rintro a ⟨t, g⟩ - ⟨hok, hkept, hends⟩
        refine ⟨hok, trivial, fun _ => ⟨hkept.announced, hends.restart, fun n ha => ?_⟩⟩
        have hcall : g.call = call := hkept.call
        have hfound : g.found = some h := hkept.found
        change n = g.call.buf.length ∧ ∃ found, g.found = some found ∧ Canonical _ g.call.buf g.pushed
        rw [hcall, hfound]
        exact ⟨(hends.sent n ha).1, h, rfl, (hends.sent n ha).2⟩

/-- Every configuration any run reaches is good. -/
theorem send_good {c : Config Nat (endpointIface ringIface Transmit)
      (Guarded (HalfState Transmit) (CallLog SendArgs Transmit)) (Except Errno Nat)}
    (hc : (sendMachine target).Reachable (Monitor.initial ⟨transmitInit, false⟩) c) : (sendOutline target).Good c :=
  Monitor.reachable sendMessage_safe ⟨.of_not_sending rfl, by simp [transmitInit]⟩ hc

/-- **Fragmentation is canonical.**  In any run of any number of
`axivc_send_message` calls, however the ring fills and drains, a call about to
return success has pushed exactly the `Canonical` frames of its buffer: the
id is the next one of the sender as the call found it.  So two calls, of any
two runs, that found the same sender and were given the same buffer have
pushed the same slots. -/
theorem fragmentation_canonical (target : NotifyTarget)
    (c : Config Nat (endpointIface ringIface Transmit)
      (Guarded (HalfState Transmit) (CallLog SendArgs Transmit)) (Except Errno Nat))
    (hc : (sendMachine target).Reachable (Monitor.initial ⟨transmitInit, false⟩) c) (i n : Nat)
    (hi : c.thread i = some (.ret (.ok n))) :
    ∃ g found, c.shared.log i = some g ∧ g.found = some found ∧ n = g.call.buf.length ∧
      Canonical found.half.tx.nextMessageId g.call.buf g.pushed ∧
      ∀ (target' : NotifyTarget) (c' : Config Nat (endpointIface ringIface Transmit)
          (Guarded (HalfState Transmit) (CallLog SendArgs Transmit)) (Except Errno Nat)) (i' n' : Nat) (g' found'),
        (sendMachine target').Reachable (Monitor.initial ⟨transmitInit, false⟩) c' →
        c'.thread i' = some (.ret (.ok n')) → c'.shared.log i' = some g' → g'.found = some found' →
        found'.half.tx = found.half.tx → g'.call.buf = g.call.buf → g'.pushed = g.pushed := by
  obtain ⟨-, g, hlog, hret⟩ := (send_good hc).post hi
  obtain ⟨hn, found, hfound, hcanon⟩ := hret.sent n rfl
  refine ⟨g, found, hlog, hfound, hn, hcanon, fun target' c' i' n' g' found' hc' hi' hlog' hfound' htx hbuf => ?_⟩
  obtain ⟨-, g₁, hlog₁, hret₁⟩ := (send_good hc').post hi'
  obtain rfl : g' = g₁ := Option.some.inj (hlog'.symm.trans hlog₁)
  obtain ⟨-, found₁, hfound₁, hcanon₁⟩ := hret₁.sent n' rfl
  obtain rfl : found' = found₁ := Option.some.inj (hfound'.symm.trans hfound₁)
  rw [htx, hbuf] at hcanon₁
  exact hcanon₁.unique hcanon

/-- Instance: a buffer of one byte. -/
theorem fragmentation_canonical_byte : ∃ c g found, (sendMachine ⟨true, 3, 7⟩).Reachable
      (Monitor.initial ⟨transmitInit, false⟩) c ∧ c.thread 0 = some (.ret (.ok 1)) ∧
    c.shared.log 0 = some g ∧ g.found = some found ∧
    Canonical found.half.tx.nextMessageId g.call.buf g.pushed := by
  have hquiet : (sendMachine ⟨true, 3, 7⟩).Reachable (Monitor.initial ⟨transmitInit, false⟩)
      ⟨Monitor.initial ⟨transmitInit, false⟩, fun _ => none⟩ := Relation.ReflTransGen.refl
  have hstarted := hquiet.start 0 ⟨1, [42], by decide⟩ rfl ⟨rfl, rfl⟩
  have hrun : ∃ s, (sendMessage atomicRing ⟨true, 3, 7⟩ 1 [42]).run
      (World.perform ⟨true, none, 0⟩ ⟨true, 3, 7⟩ 0)
      ⟨⟨transmitInit, false⟩, none, Function.update (fun _ => none) 0
        (some (.fresh (⟨1, [42], by decide⟩ : SendArgs)))⟩ = some (.ok 1, s) := ⟨_, rfl⟩
  obtain ⟨s, hrun⟩ := hrun
  have hret := hstarted.run (World.exec_perform ⟨true, none, 0⟩ ⟨true, 3, 7⟩ 0) hrun
  obtain ⟨g, found, hlog, hfound, -, hcanon, -⟩ := fragmentation_canonical _ _ hret 0 1 rfl
  exact ⟨_, g, found, hret, rfl, hlog, hfound, hcanon⟩

end Runs

end Axivc
