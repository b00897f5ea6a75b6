import Axivc.Lib.Turns
import Axivc.EndpointRuns
import Axivc.Wire

/-!
# Axivc.LinkSend

The writing end of a ring: any number of `write(2)` calls on one endpoint, and
the stream of slots they push together.

The calls interleave at single kernel and ring operations and take turns at
`tx_lock` (`Axivc.Lib.Turns`); the history of the endpoint is the stream.
Whatever the world answers, at any time

* the stream is one a receiver gets through (`Wire`);
* what a call has pushed is a stretch of it that begins between messages, and
  is a message made of the call's buffer, an aborted one, or the start of one.
-/

namespace Axivc

open Prog Rely

/-! ## the model -/

/-- The transmitting half of an endpoint, and the slots pushed to its ring so
far. -/
structure Outlet where
  half : Transmit
  stream : List Slot

/-- What a call on it has done. -/
structure SendLog where
  buf : List UInt8
  /-- the length of the stream when the call obtained the lock -/
  start : Option Nat
  pushed : List Slot
  result : Option (Except Errno Nat)

namespace SendLog

/-- A call that has just begun. -/
def fresh (call : SendArgs) : SendLog := ⟨call.buf, none, [], none⟩

/-- A call that has returned. -/
def ends (a : Except Errno Nat) (g : SendLog) : SendLog := { g with result := some a }

end SendLog

/-- The endpoint under `tx_lock`; whether a push finds room is left to the
world. -/
def outlet : Monitor (endpointIface ringIface Transmit) Outlet SendLog where
  takes
    | .mutexLockInterruptible, .ok () => true
    | _, _ => false
  gives
    | .mutexUnlock => true
    | _ => false
  allows
    | .mutexLockInterruptible, _, r => r = .error .EINTR ∨ r = .ok ()
    | .load, s, r => r = s.half
    | .copyFromUser _ len, _, r => r ≤ len
    | _, _, _ => True
  act
    | .store half, _, s => { s with half := half }
    | .ring (.push slot), true, s => { s with stream := s.stream ++ [slot] }
    | _, _, s => s
  note
    | .mutexLockInterruptible, .ok (), s, g => { g with start := some s.stream.length }
    | .ring (.push slot), true, _, g => { g with pushed := g.pushed ++ [slot] }
    | _, _, _, g => g

/-- The stream as the history of the endpoint. -/
def sendTurns : Turns outlet SendLog.fresh SendLog.ends Slot where
  hist := Outlet.stream
  start := SendLog.start
  own := SendLog.pushed
  act o r s g := by
    cases o with
    | ring o =>
        cases o with
        | push slot =>
            cases r with
            | true => exact ⟨[slot], rfl, rfl⟩
            | false => exact ⟨[], by simp [outlet], by simp [outlet]⟩
        | peek => exact ⟨[], by simp [outlet], by simp [outlet]⟩
        | pop => exact ⟨[], by simp [outlet], by simp [outlet]⟩
    | mutexLockInterruptible =>
        refine ⟨[], by simp [outlet], ?_⟩
        match r with
        | .ok () => simp [outlet]
        | .error e => simp [outlet]
    | _ => exact ⟨[], by simp [outlet], by simp [outlet]⟩
  stays o r s g h := by
    cases o with
    | ring o =>
        cases o with
        | push slot => cases r <;> rfl
        | peek => rfl
        | pop => rfl
    | mutexLockInterruptible =>
        match r with
        | .ok () => cases h
        | .error e => rfl
    | _ => rfl
  begins o r s g h := by
    cases o with
    | mutexLockInterruptible =>
        match r with
        | .ok () => exact ⟨rfl, rfl⟩
        | .error e => cases h
    | _ => cases h
  fresh_start _ := ⟨rfl, rfl⟩
  ends_keeps _ _ := ⟨rfl, rfl⟩

/-! ## the message being sent -/

/-- The slots are frames of a message as long as `buf`: the message, an
aborted one, or the start of one; a whole message carries `buf`. -/
structure Carries (buf : List UInt8) (slots : List Slot) (frames : List Frame) : Prop where
  decodes : Decodes slots frames
  piece : Piece frames
  length : ∀ f ∈ frames, f.messageLen.toNat = buf.length
  bytes : IsMessage frames → payload frames = buf

/-- `tx` is in the middle of the message `buf`, of which it has pushed
`slots`. -/
structure Opened (tx : Sender) (buf : List UInt8) (slots : List Slot) : Prop where
  ok : tx.Ok
  sending : tx.sending = true
  len : tx.active.len.toNat = buf.length
  nonempty : buf ≠ []
  frames : ∃ frames, Decodes slots frames ∧ payload frames = buf.take tx.sent.toNat ∧
    (tx.publishedAny = false ∧ frames = [] ∨ tx.publishedAny = true ∧ Opening tx.active frames)

section Opened

variable {tx : Sender} {buf : List UInt8} {slots : List Slot} {slot : Slot}

theorem Opening.length_eq {msg : MessageMeta} {frames : List Frame} (h : Opening msg frames) :
    ∀ f ∈ frames, f.messageLen = msg.len := fun f hf => (h.belongs.same f hf).2.1

theorem Opened.len_ne (h : Opened tx buf slots) : tx.active.len ≠ 0 := by
  intro hz
  have hlen := h.len
  rw [hz] at hlen
  exact h.nonempty (List.length_eq_zero_iff.mp hlen.symm)

theorem Opened.sent_lt (h : Opened tx buf slots) : tx.sent.toNat < buf.length := by
  rw [← h.len]
  exact UInt64.lt_iff_toNat_lt.mp (h.ok.sent_lt h.sending h.len_ne)

/-- The next fragment goes out: the message is complete, or goes on. -/
theorem Opened.advance (h : Opened tx buf slots) {n : Nat} (hpos : 0 < n) (hle : n ≤ buf.length - tx.sent.toNat)
    (henc : encodeFrame tx.active.id tx.active.len (!tx.publishedAny)
      (decide (tx.sent + .ofNat n = tx.active.len)) false ((buf.drop tx.sent.toNat).take n) = .ok slot) :
    ∃ frames, Carries buf (slots ++ [slot]) frames ∧
      ((tx.advance n).sending = true → Opened (tx.advance n) buf (slots ++ [slot])) ∧
      ((tx.advance n).sending = false → IsMessage frames) := by
  obtain ⟨frames, hdec, hpay, hstate⟩ := h.frames
  obtain ⟨frame, hframe, hid, hlen, hfirst, hlast, habort, hfrag⟩ := decodeFrame_encodeFrame henc
  have hle' : n ≤ tx.active.len.toNat - tx.sent.toNat := by rw [h.len]; exact hle
  have hsent := Sender.toNat_add_ofNat (h.ok.sent_le h.sending) hle'
  have hdec' := hdec.snoc hframe
  have hpay' : payload (frames ++ [frame]) = buf.take (tx.sent + .ofNat n).toNat := by
    rw [payload_append, payload_singleton, hpay, hfrag, hsent, List.take_add]
  have hlong : (payload (frames ++ [frame])).length = (tx.sent + .ofNat n).toNat := by
    rw [hpay', List.length_take, hsent]
    have := h.sent_lt
    omega
  -- The frames so far with the new one are data frames of the active message.
  have hbelongs : Belongs tx.active (frames ++ [frame]) := by
    rcases hstate with ⟨hp, rfl⟩ | ⟨hp, hopening⟩
    · rw [hp] at hfirst
      have hone := Belongs.single hfirst habort
      rw [hid, hlen] at hone
      exact hone
    · rw [hp] at hfirst
      exact hopening.belongs.snoc hfirst hid hlen habort
  have hnl : ∀ f ∈ frames, f.last = false := by
    rcases hstate with ⟨-, rfl⟩ | ⟨-, hopening⟩
    · simp
    · exact hopening.not_last
  have hsame : ∀ f ∈ frames ++ [frame], f.messageLen.toNat = buf.length := by
    intro f hf
    rw [(hbelongs.same f hf).2.1, h.len]
  by_cases hend : tx.sent + .ofNat n = tx.active.len
  · have hmsg : IsMessage (frames ++ [frame]) :=
      ⟨tx.active, frames, frame, rfl, hbelongs, hnl, by simp [hlast, hend], by rw [hlong, hend]⟩
    refine ⟨frames ++ [frame], ⟨hdec', .inl (.inl hmsg), hsame, fun _ => ?_⟩, fun hs => ?_, fun _ => hmsg⟩
    · rw [hpay', hend, h.len, List.take_length]
    · simp [Sender.advance, hend] at hs
  · have hopening : Opening tx.active (frames ++ [frame]) := by
      refine ⟨hbelongs, fun f hf => ?_, by rw [hlong, hsent]; have := h.len; omega⟩
      rcases List.mem_append.mp hf with hf | hf
      · exact hnl f hf
      · rw [List.mem_singleton.mp hf, hlast]
        simp [hend]
    refine ⟨frames ++ [frame], ⟨hdec', .inr ⟨_, hopening⟩, hsame, fun hmsg => ?_⟩, fun hs => ?_, fun hs => ?_⟩
    · exact absurd hmsg hopening.not_message
    · exact ⟨h.ok.advance h.sending hpos hle', hs, h.len, h.nonempty, frames ++ [frame], hdec', hpay', .inr ⟨rfl, hopening⟩⟩
    · simp [Sender.advance, hend] at hs

/-- An ABORT frame cuts the message off. -/
theorem Opened.abort (h : Opened tx buf slots) (hp : tx.publishedAny = true)
    (henc : encodeFrame tx.active.id tx.active.len false false true [] = .ok slot) :
    ∃ frames, Carries buf (slots ++ [slot]) frames ∧ IsAborted frames := by
  obtain ⟨frames, hdec, -, hstate⟩ := h.frames
  obtain ⟨frame, hframe, hid, hlen, hfirst, hlast, habort, hfrag⟩ := decodeFrame_encodeFrame henc
  rcases hstate with ⟨hp', -⟩ | ⟨-, hopening⟩
  · rw [hp] at hp'
    cases hp'
  · have haborted : IsAborted (frames ++ [frame]) := ⟨tx.active, frames, frame, rfl, hopening, habort, hid, hlen⟩
    refine ⟨frames ++ [frame], ⟨hdec.snoc hframe, .inl (.inr haborted), fun f hf => ?_,
      fun hmsg => absurd hmsg haborted.not_message⟩, haborted⟩
    rcases List.mem_append.mp hf with hf | hf
    · rw [hopening.length_eq f hf, h.len]
    · rw [List.mem_singleton.mp hf, hlen, h.len]

end Opened

/-- `axivc_message_try_write` of at most one slot's worth of bytes is one
attempt at a push. -/
theorem messageTryWrite_chunk {I : Iface} (ring : RingImpl I) {tx : Sender} {input : List UInt8} (hok : tx.Ok)
    (hs : tx.sending = true) (hlen : tx.active.len ≠ 0) (hne : input ≠ []) (hcap : input.length ≤ fragmentCapacity)
    (hfits : input.length ≤ tx.active.len.toNat - tx.sent.toNat) :
    ∃ slot, encodeFrame tx.active.id tx.active.len (!tx.publishedAny)
        (decide (tx.sent + .ofNat input.length = tx.active.len)) false input = .ok slot ∧
      messageTryWrite ring tx input = ring (.push slot) >>= fun ok =>
        .ret (if ok then (tx.advance input.length, .ok ⟨input.length, 1, !(tx.advance input.length).sending⟩)
          else (tx, .ok ⟨0, 0, false⟩)) := by
  obtain ⟨slot, henc⟩ := hok.encode_data hs hlen hne hcap (!tx.publishedAny)
    (decide (tx.sent + .ofNat input.length = tx.active.len))
  have hpos := List.length_pos_of_ne_nil hne
  have hrem := Sender.toNat_sub_sent (hok.sent_le hs)
  obtain ⟨m, hm⟩ : ∃ m, input.length = m + 1 := ⟨input.length - 1, by omega⟩
  refine ⟨slot, henc, ?_⟩
  rw [messageTryWrite, if_neg (by simp [hs]), if_neg (by omega), if_neg hlen]
  conv => lhs; rw [hm]
  rw [tryWriteLoop, if_pos hpos]
  simp only [Nat.sub_zero, Nat.min_eq_right hcap, List.drop_zero, List.take_length, henc]
  congr 1
  funext ok
  cases ok with
  | false => rfl
  | true =>
      rw [if_pos rfl, if_pos rfl]
      by_cases hend : tx.sent + .ofNat input.length = tx.active.len
      · simp [hend, Sender.advance]
      · rw [if_neg hend, Nat.zero_add, Nat.zero_add]
        -- Nothing is left of the chunk: the loop is over.
        have hdone : tryWriteLoop ring input { tx with sent := tx.sent + .ofNat input.length, publishedAny := true }
            input.length 1 m = .ret ({ tx with sent := tx.sent + .ofNat input.length, publishedAny := true },
              .ok ⟨input.length, 1, false⟩) := by
          cases m with
          | zero => rw [tryWriteLoop, if_neg (Nat.lt_irrefl _), pure_eq_ret]
          | succ m => rw [tryWriteLoop, if_neg (Nat.lt_irrefl _), pure_eq_ret]
        rw [hdone]
        simp [Sender.advance, hend, hs]

/-- `axivc_message_try_abort` of a message of which nothing has been pushed. -/
theorem messageTryAbort_unpublished {I : Iface} (ring : RingImpl I) {tx : Sender} (hs : tx.sending = true)
    (hp : tx.publishedAny = false) : messageTryAbort ring tx = .ret ({ tx with sending := false }, .ok ()) := by
  rw [messageTryAbort, if_neg (by simp [hs]), if_pos (by simp [hp]), pure_eq_ret]

/-- Else it is one attempt at a push. -/
theorem messageTryAbort_published {I : Iface} (ring : RingImpl I) {tx : Sender} (hok : tx.Ok)
    (hs : tx.sending = true) (hp : tx.publishedAny = true) :
    ∃ slot, encodeFrame tx.active.id tx.active.len false false true [] = .ok slot ∧
      messageTryAbort ring tx = ring (.push slot) >>= fun ok =>
        .ret (if ok then ({ tx with sending := false }, .ok ()) else (tx, .error .EAGAIN)) := by
  obtain ⟨slot, henc⟩ := hok.encode_abort hs
  refine ⟨slot, henc, ?_⟩
  rw [messageTryAbort, if_neg (by simp [hs]), if_neg (by simp [hp]), henc]
  dsimp only
  congr 1
  funext ok
  cases ok <;> rfl

/-! ## the terms -/

/-- What a call may return, by its log. -/
def SendLog.Sent (g : SendLog) : Except Errno Nat → Prop
  | .ok n => n = g.buf.length ∧ ∃ frames, Decodes g.pushed frames ∧ IsMessage frames
  | .error _ => ∀ frames, Decodes g.pushed frames → ¬ IsMessage frames

/-- What is known of a call at any time. -/
structure Pushed (stream : List Slot) (g : SendLog) : Prop where
  stretch : g.pushed ≠ [] → ∃ p, g.start = some p ∧ Stretch stream p g.pushed
  carries : g.pushed ≠ [] → ∃ frames, Carries g.buf g.pushed frames
  settled : ∀ a, g.result = some a → g.Sent a

/-- A call that has pushed nothing, and has failed if it has returned. -/
theorem pushed_nil {stream : List Slot} {g : SendLog} (h : g.pushed = [])
    (hresult : ∀ a, g.result = some a → ∃ e, a = .error e) : Pushed stream g := by
  refine ⟨fun hne => absurd h hne, fun hne => absurd h hne, fun a ha => ?_⟩
  obtain ⟨e, rfl⟩ := hresult a ha
  intro frames hdec
  rw [h] at hdec
  exact not_message_nil hdec

/-- The endpoint between calls: ready for a message, or fenced off. -/
structure SendFree (s : Outlet) : Prop where
  wire : Wire s.stream
  ok : s.half.tx.Ok
  error : ∀ e, s.half.txError = some e → e = .EPIPE
  ready : s.half.txError = none → s.half.tx.sending = false ∧ Between s.stream

/-- What the endpoint is used for. -/
def sendTerms : Terms (endpointIface ringIface Transmit) Outlet SendLog where
  free := SendFree
  held s _ := Wire s.stream
  kept s g := Pushed s.stream g
  needs _ _ _ := True
  grows s t := s.stream <+: t.stream
  grows_refl _ := List.prefix_rfl
  grows_trans h h' := h.trans h'
  stable h hgrows := by
    refine ⟨fun hne => ?_, h.carries, h.settled⟩
    obtain ⟨p, hp, hstretch⟩ := h.stretch hne
    exact ⟨p, hp, hstretch.mono hgrows⟩

/-- The view from within the lock. -/
abbrev sendView : View (endpointIface ringIface Transmit) (Outlet × SendLog) := sendTurns.inside sendTerms

/-- The holder of the lock, `before` being the stream it found, is in the
middle of its message. -/
structure Midst (before : List Slot) (s : Outlet) (g : SendLog) : Prop where
  opened : Opened s.half.tx g.buf g.pushed
  error : s.half.txError = none
  start : g.start = some before.length
  stream : s.stream = before ++ g.pushed
  between : Between before
  wire : Wire before
  running : g.result = none

/-- One more slot of the message may go out. -/
theorem Midst.push {before : List Slot} {s : Outlet} {g : SendLog} (h : Midst before s g) {slot : Slot}
    {frames : List Frame} (hc : Carries g.buf (g.pushed ++ [slot]) frames) :
    Wire (s.stream ++ [slot]) ∧ Pushed (s.stream ++ [slot]) { g with pushed := g.pushed ++ [slot] } := by
  have hstream : s.stream ++ [slot] = before ++ (g.pushed ++ [slot]) := by rw [h.stream, List.append_assoc]
  rw [hstream]
  refine ⟨⟨h.between.piece hc.decodes hc.piece, fun x hx frame hframe => ?_⟩, fun _ => ⟨before.length, h.start, .of_append h.between⟩,
    fun _ => ⟨frames, hc⟩, fun a ha => ?_⟩
  · rcases List.mem_append.mp hx with hx | hx
    · exact h.wire.nonempty x hx frame hframe
    · intro hz
      have hlen := hc.length frame (hc.decodes.mem hx hframe)
      rw [hz] at hlen
      exact h.opened.nonempty (List.length_eq_zero_iff.mp hlen.symm)
  · rw [show ({ g with pushed := g.pushed ++ [slot] } : SendLog).result = g.result from rfl, h.running] at ha
    cases ha

/-! ## within the lock -/

section Inside

variable {α β : Type} {target : NotifyTarget} {s : Outlet} {g : SendLog} {post : α → Outlet × SendLog → Prop}
  {before : List Slot}

theorem sendView_load {f : Transmit → Prog (endpointIface ringIface Transmit) α}
    (hf : sendView.Safe post (f s.half) (s, g)) : sendView.Safe post (kernel .load >>= f) (s, g) := by
  refine Turns.inside_quiet ⟨rfl, fun _ _ => trivial, fun _ _ => rfl, fun _ _ _ => rfl⟩ fun half hhalf => ?_
  obtain rfl : half = s.half := hhalf
  exact hf

theorem sendView_store {half : Transmit} {k : Unit → Prog (endpointIface ringIface Transmit) α}
    (hk : sendView.Safe post (k ()) ({ s with half := half }, g)) :
    sendView.Safe post (.act (.store half) k) (s, g) :=
  Turns.inside_act rfl trivial fun hheld hkept _ _ => ⟨⟨hheld, hkept⟩, List.prefix_rfl, hk⟩

/-- A call on the sender that pushes nothing. -/
theorem sendView_onSender {f : Sender → Prog (endpointIface ringIface Transmit) (Sender × β)}
    {k : β → Prog (endpointIface ringIface Transmit) α} {tx : Sender} {b : β} (hf : f s.half.tx = .ret (tx, b))
    (hk : sendView.Safe post (k b) ({ s with half := { s.half with tx := tx } }, g)) :
    sendView.Safe post (onSender f >>= k) (s, g) := by
  rw [onSender, Prog.bind_assoc]
  refine sendView_load ?_
  rw [hf]
  exact sendView_store hk

/-- A call on the sender that makes one attempt at a push. -/
theorem sendView_onSender_push {f : Sender → Prog (endpointIface ringIface Transmit) (Sender × β)}
    {k : β → Prog (endpointIface ringIface Transmit) α} {slot : Slot} {F : Bool → Sender × β}
    (hf : f s.half.tx = atomicRing (.push slot) >>= fun ok => .ret (F ok))
    (hpush : Wire (s.stream ++ [slot]) ∧ Pushed (s.stream ++ [slot]) { g with pushed := g.pushed ++ [slot] })
    (hfull : sendView.Safe post (k (F false).2) ({ s with half := { s.half with tx := (F false).1 } }, g))
    (hdone : sendView.Safe post (k (F true).2) (⟨{ s.half with tx := (F true).1 }, s.stream ++ [slot]⟩,
      { g with pushed := g.pushed ++ [slot] })) :
    sendView.Safe post (onSender f >>= k) (s, g) := by
  rw [onSender, Prog.bind_assoc]
  refine sendView_load ?_
  rw [hf]
  change sendView.Safe post (.act (.ring (.push slot)) _) (s, g)
  refine Turns.inside_act rfl trivial fun hheld hkept ok _ => ?_
  cases ok with
  | false => exact ⟨⟨hheld, hkept⟩, List.prefix_rfl, sendView_store hfull⟩
  | true => exact ⟨hpush, List.prefix_append _ _, sendView_store hdone⟩

variable (target) in
theorem each_notifyPublisher : (notifyPublisher (R := ringIface) (S := Transmit) target).Each
    (Turns.Quiet outlet sendTerms) := by
  rw [notifyPublisher]
  split
  · exact ⟨⟨rfl, fun _ _ => trivial, fun _ _ => rfl, fun _ _ _ => rfl⟩, fun _ => trivial⟩
  · trivial

theorem each_deadlineAfter (ms : Nat) : (deadlineAfter (R := ringIface) (S := Transmit) ms).Each
    (Turns.Quiet outlet sendTerms) :=
  ⟨⟨rfl, fun _ _ => trivial, fun _ _ => rfl, fun _ _ _ => rfl⟩, fun _ =>
    ⟨⟨rfl, fun _ _ => trivial, fun _ _ => rfl, fun _ _ _ => rfl⟩, fun _ => trivial⟩⟩

theorem each_afterProgress (slots : Nat) (deadline : UInt64) :
    (afterProgress (R := ringIface) (S := Transmit) target slots deadline).Each (Turns.Quiet outlet sendTerms) := by
  rw [afterProgress]
  split
  · exact (each_deadlineAfter _).bind fun _ => (each_notifyPublisher target).bind fun _ => trivial
  · trivial

theorem each_copyAnyFromUser (offset len : Nat) : (copyAnyFromUser (R := ringIface) (S := Transmit) offset len).Each
    (Turns.Quiet outlet sendTerms) := by
  rw [copyAnyFromUser]
  split
  · exact ⟨⟨rfl, fun _ _ => trivial, fun _ _ => rfl, fun _ _ _ => rfl⟩, fun _ => trivial⟩
  · trivial

/-- The endpoint after a message: it is ready for the next one. -/
structure Ready (s : Outlet) : Prop where
  idle : s.half.tx.sending = false
  error : s.half.txError = none
  between : Between s.stream

theorem Ready.free (h : Ready s) (hwire : Wire s.stream) : SendFree s :=
  ⟨hwire, .of_not_sending h.idle, by simp [h.error], fun _ => ⟨h.idle, h.between⟩⟩

/-- An open message is no whole one. -/
theorem Opened.not_message {tx : Sender} {buf : List UInt8} {slots : List Slot} (h : Opened tx buf slots)
    {frames : List Frame} (hdec : Decodes slots frames) : ¬ IsMessage frames := by
  obtain ⟨frames', hdec', -, hstate⟩ := h.frames
  obtain rfl := hdec.unique hdec'
  rcases hstate with ⟨-, rfl⟩ | ⟨-, hopening⟩
  · rintro ⟨msg, init, last, heq, -⟩
    simp at heq
  · exact hopening.not_message

/-- The loop of `axivc_abort_send`. -/
theorem sendView_abortLoop (deadline : UInt64) (iterations : Nat) (h : Midst before s g) :
    sendView.Safe (fun result t => result = .ok () ∧ Ready t.1 ∧
          (∀ frames, Decodes t.2.pushed frames → ¬ IsMessage frames) ∨
        result = .error .EAGAIN ∧ Midst before t.1 t.2)
      (abortLoop atomicRing target deadline iterations) (s, g) := by
  induction iterations with
  | zero => exact fun _ _ _ => trivial
  | succ iterations ih =>
      rw [abortLoop]
      cases hp : s.half.tx.publishedAny with
      | false =>
          refine sendView_onSender (messageTryAbort_unpublished atomicRing h.opened.sending hp) ?_
          refine Turns.inside_ret fun _ _ => .inl ⟨rfl, ⟨rfl, h.error, ?_⟩,
            fun frames hdec => h.opened.not_message hdec⟩
          obtain ⟨frames, hdec, -, ⟨-, rfl⟩ | ⟨hp', -⟩⟩ := h.opened.frames
          · have hnil : g.pushed = [] := List.length_eq_zero_iff.mp hdec.length_eq.symm
            change Between s.stream
            rw [h.stream, hnil, List.append_nil]
            exact h.between
          · rw [hp] at hp'
            cases hp'
      | true =>
          obtain ⟨slot, henc, hf⟩ := messageTryAbort_published atomicRing h.opened.ok h.opened.sending hp
          obtain ⟨frames, hc, haborted⟩ := h.opened.abort hp henc
          refine sendView_onSender_push hf (h.push hc) ?_ ?_
          · -- The ring is full: try again until the deadline.
            change sendView.Safe _ (notifyPublisher target >>= _) (s, g)
            refine Turns.inside_each (each_notifyPublisher target) fun _ => ?_
            refine Turns.inside_quiet ⟨rfl, fun _ _ => trivial, fun _ _ => rfl, fun _ _ _ => rfl⟩ fun now _ => ?_
            change sendView.Safe _ (ite (timeAfterEq now deadline = true) _ _) (s, g)
            split
            · exact Turns.inside_ret fun _ _ => .inr ⟨rfl, h⟩
            · exact Turns.inside_quiet ⟨rfl, fun _ _ => trivial, fun _ _ => rfl, fun _ _ _ => rfl⟩ fun _ _ => ih
          · refine Turns.inside_ret fun _ _ => .inl ⟨rfl, ⟨rfl, h.error, ?_⟩,
              fun frames' hdec hmsg => ?_⟩
            · change Between (s.stream ++ [slot])
              rw [h.stream, List.append_assoc]
              exact h.between.whole hc.decodes (.inr haborted)
            · obtain rfl := hc.decodes.unique hdec
              exact haborted.not_message hmsg

/-- `axivc_abort_send`: the message is cut off, or the endpoint fenced off. -/
theorem sendView_abortSend (iterations : Nat) (h : Midst before s g) :
    sendView.Safe (fun _ t => SendFree t.1 ∧ ∀ frames, Decodes t.2.pushed frames → ¬ IsMessage frames)
      (abortSend atomicRing target iterations) (s, g) := by
  rw [abortSend]
  refine Turns.inside_each (each_deadlineAfter _) fun deadline => ?_
  refine sendView_load ?_
  refine View.Safe.bind ((sendView_abortLoop deadline iterations h).mono ?_)
  rintro result ⟨t, g'⟩ - (⟨rfl, hready, hno⟩ | ⟨rfl, hmidst⟩)
  · have hend : sendView.Safe (fun _ t => SendFree t.1 ∧ ∀ frames, Decodes t.2.pushed frames → ¬ IsMessage frames)
        (.ret ()) (t, g') := Turns.inside_ret fun hwire _ => ⟨hready.free hwire, hno⟩
    change sendView.Safe _ (ite (s.half.tx.publishedAny = true) _ _) (t, g')
    split
    · rw [← Prog.bind_ret (notifyPublisher target)]
      exact Turns.inside_each (each_notifyPublisher target) fun _ => hend
    · exact hend
  · -- The peer may not have seen the end of the message: nothing may follow it.
    refine sendView_load ?_
    refine sendView_store (Turns.inside_ret fun hwire _ => ⟨⟨hwire, hmidst.opened.ok, ?_, by rintro ⟨⟩⟩,
      fun frames hdec => hmidst.opened.not_message hdec⟩)
    rintro e ⟨⟩
    rfl

/-- The loop of `axivc_send_message`. -/
theorem sendView_sendLoop (deadline : UInt64) (iterations : Nat) (h : Midst before s g) :
    sendView.Safe (fun a t => a = .ok t.2.buf.length ∧ Ready t.1 ∧
          (∃ frames, Decodes t.2.pushed frames ∧ IsMessage frames) ∨
        (∃ e, a = .error e) ∧ Midst before t.1 t.2)
      (sendLoop atomicRing target g.buf s.half.tx.sent.toNat deadline iterations) (s, g) := by
  induction iterations generalizing s g deadline with
  | zero => exact fun _ _ _ => trivial
  | succ iterations ih =>
      have hlt := h.opened.sent_lt
      have hcap : 0 < fragmentCapacity := by decide
      rw [sendLoop]
      refine Turns.inside_each (each_copyAnyFromUser _ _) fun uncopied => ?_
      split
      · exact Turns.inside_ret fun _ _ => .inr ⟨⟨_, rfl⟩, h⟩
      · -- The chunk is not empty, and one slot holds it.
        generalize hchunk : min fragmentCapacity (g.buf.length - s.half.tx.sent.toNat) = n
        have hn : 0 < n ∧ n ≤ fragmentCapacity ∧ n ≤ g.buf.length - s.half.tx.sent.toNat := by omega
        have hlen : ((g.buf.drop s.half.tx.sent.toNat).take n).length = n := by
          rw [List.length_take, List.length_drop]
          omega
        obtain ⟨slot, henc, hf⟩ := messageTryWrite_chunk atomicRing h.opened.ok h.opened.sending h.opened.len_ne
          (List.ne_nil_of_length_pos (hlen.symm ▸ hn.1)) (hlen.symm ▸ hn.2.1) (by rw [hlen, h.opened.len]; exact hn.2.2)
        rw [hlen] at henc hf
        obtain ⟨frames, hc, hmore, hdone⟩ := h.opened.advance hn.1 hn.2.2 henc
        refine sendView_onSender_push hf (h.push hc) ?_ ?_
        · -- The ring is full.
          refine Turns.inside_each (each_afterProgress 0 deadline) fun deadline => ?_
          refine Turns.inside_quiet ⟨rfl, fun _ _ => trivial, fun _ _ => rfl, fun _ _ _ => rfl⟩ fun now _ => ?_
          change sendView.Safe _ (ite (timeAfterEq now deadline = true) _ _) (s, g)
          split
          · exact Turns.inside_ret fun _ _ => .inr ⟨⟨_, rfl⟩, h⟩
          · refine Turns.inside_quiet ⟨rfl, fun _ _ => trivial, fun _ _ => rfl, fun _ _ _ => rfl⟩ fun left _ => ?_
            change sendView.Safe _ (ite (left ≠ 0) _ _) (s, g)
            split
            · exact Turns.inside_ret fun _ _ => .inr ⟨⟨_, rfl⟩, h⟩
            · exact ih deadline h
        · refine Turns.inside_each (each_afterProgress 1 deadline) fun deadline => ?_
          have hstream : s.stream ++ [slot] = before ++ (g.pushed ++ [slot]) := by rw [h.stream, List.append_assoc]
          have hsent : (s.half.tx.advance n).sent.toNat = s.half.tx.sent.toNat + n :=
            Sender.toNat_add_ofNat (h.opened.ok.sent_le h.opened.sending) (by rw [h.opened.len]; exact hn.2.2)
          cases hsending : (s.half.tx.advance n).sending with
          | false =>
              simp only [if_true, Bool.not_false]
              refine Turns.inside_ret fun _ _ => .inl ⟨rfl, ⟨hsending, h.error, ?_⟩, frames, hc.decodes, hdone hsending⟩
              change Between (s.stream ++ [slot])
              rw [hstream]
              exact h.between.whole hc.decodes (.inl (hdone hsending))
          | true =>
              have hnext := ih (s := ⟨{ s.half with tx := s.half.tx.advance n }, s.stream ++ [slot]⟩)
                (g := { g with pushed := g.pushed ++ [slot] }) deadline
                ⟨hmore hsending, h.error, h.start, hstream, h.between, h.wire, h.running⟩
              change sendView.Safe _ (sendLoop atomicRing target g.buf (s.half.tx.advance n).sent.toNat deadline
                iterations) _ at hnext
              rw [hsent] at hnext
              simp only [if_true, Bool.not_true, Bool.false_eq_true, if_false]
              exact hnext

/-- `axivc_send_message` between lock and unlock. -/
theorem sendView_sendLocked (iterations : Nat) (hfits : g.buf.length < 2 ^ 64) (hne : g.buf ≠ [])
    (hfree : SendFree s) (hstart : g.start = some s.stream.length) (hpushed : g.pushed = [])
    (hrunning : g.result = none) :
    sendView.Safe (fun a t => SendFree t.1 ∧ t.2.Sent a) (sendLocked atomicRing target iterations g.buf) (s, g) := by
  -- A call that fails before it has pushed anything.
  have hnone (e : Errno) : sendView.Safe (fun a t => SendFree t.1 ∧ t.2.Sent a) (.ret (.error e)) (s, g) := by
    refine Turns.inside_ret fun _ _ => ⟨hfree, fun frames hdec => ?_⟩
    change Decodes g.pushed frames at hdec
    rw [hpushed] at hdec
    exact not_message_nil hdec
  rw [sendLocked]
  refine sendView_load ?_
  cases herror : s.half.txError with
  | some e => exact hnone e
  | none =>
      obtain ⟨hidle, hbetween⟩ := hfree.ready herror
      rcases messageStart_result s.half.tx (.ofNat g.buf.length) with ⟨hs, -⟩ | ⟨-, -, heq⟩ | ⟨-, hid, next, heq⟩
      · rw [hidle] at hs
        cases hs
      · exact sendView_onSender (f := fun tx => pure (messageStart tx (.ofNat g.buf.length))) (congrArg Prog.ret heq)
          (hnone _)
      · refine sendView_onSender (f := fun tx => pure (messageStart tx (.ofNat g.buf.length))) (congrArg Prog.ret heq) ?_
        refine Turns.inside_each (each_deadlineAfter _) fun deadline => ?_
        have hlen : (UInt64.ofNat g.buf.length).toNat = g.buf.length := UInt64.toNat_ofNat_of_lt' hfits
        have hok : Sender.Ok ⟨next, true, ⟨s.half.tx.nextMessageId, .ofNat g.buf.length⟩, 0, false⟩ := by
          have hok := messageStart_ok hfree.ok (.ofNat g.buf.length)
          rwa [heq] at hok
        have hmidst : Midst s.stream ⟨⟨⟨next, true, ⟨s.half.tx.nextMessageId, .ofNat g.buf.length⟩, 0, false⟩,
            s.half.txError⟩, s.stream⟩ g := by
          refine ⟨⟨hok, rfl, hlen, hne, [], ?_, ?_, .inl ⟨rfl, rfl⟩⟩, herror, hstart, ?_, hbetween, hfree.wire, hrunning⟩
          · rw [hpushed]
            rfl
          · rfl
          · rw [hpushed, List.append_nil]
        refine View.Safe.bind ((sendView_sendLoop deadline iterations hmidst).mono ?_)
        rintro a ⟨t, g'⟩ ⟨hwire, -⟩ (⟨rfl, hready, hmsg⟩ | ⟨⟨e, rfl⟩, hmidst'⟩)
        · exact Turns.inside_ret fun _ _ => ⟨hready.free hwire, rfl, hmsg⟩
        · refine View.Safe.bind ((sendView_abortSend iterations hmidst').mono ?_)
          rintro _ ⟨u, g''⟩ - ⟨hfree', hno⟩
          exact Turns.inside_ret fun _ _ => ⟨hfree', hno⟩

end Inside

/-! ## every run -/

section Runs

variable {target : NotifyTarget}

/-- The body of a `write(2)` call. -/
abbrev writeBody (target : NotifyTarget) (call : SendArgs) : Prog (endpointIface ringIface Transmit) (Except Errno Nat) :=
  sendMessage atomicRing target call.iterations call.buf

/-- Any number of `write(2)` calls. -/
def writeCalls (target : NotifyTarget) :
    Machine Nat (endpointIface ringIface Transmit) (Guarded Outlet SendLog) SendArgs (Except Errno Nat) :=
  outlet.calls (writeBody target) .fresh .ends

/-- The outline of `writeCalls`. -/
abbrev writersOutline (target : NotifyTarget) : Machine.Outline (writeCalls target) :=
  sendTurns.outline sendTerms (writeBody target)

theorem sendFree_initial : SendFree ⟨transmitInit, []⟩ :=
  ⟨⟨⟨messageReceiverInit, rfl⟩, by simp⟩, .of_not_sending rfl, by simp [transmitInit], fun _ => ⟨rfl, between_nil⟩⟩

theorem outlet_unlock : outlet.gives .mutexUnlock = true ∧ (∀ r, outlet.takes .mutexUnlock r = false) ∧
    ∀ r h, outlet.act .mutexUnlock r h = h := ⟨rfl, fun _ => rfl, fun _ _ => rfl⟩

theorem writers_safe (call : SendArgs) (i : Nat) (s : Guarded Outlet SendLog) (hown : s.owner ≠ some i)
    (hlog : s.log i = some (.fresh call)) :
    ((writersOutline target).view i).Safe ((writersOutline target).post i) (writeBody target call) s := by
  unfold writeBody sendMessage
  split
  · rintro t ⟨ht, -⟩ _
    refine ⟨fun h => hown (ht.owner.mp h), _, ht.log.trans hlog, pushed_nil rfl ?_⟩
    rintro a ⟨⟩
    exact ⟨_, rfl⟩
  · next hne =>
      refine Turns.safe_locked hown hlog rfl ⟨rfl, fun _ _ => rfl⟩ outlet_unlock
        (fun r h hallowed htakes hkept => ?_) fun r h htakes hfree hkept => ?_
      · obtain rfl : r = .error .EINTR := by
          rcases hallowed with rfl | rfl
          · rfl
          · cases htakes
        refine ⟨_, rfl, hkept, pushed_nil rfl ?_⟩
        rintro a ⟨⟩
        exact ⟨_, rfl⟩
      · obtain rfl : r = .ok () := by
          match r, htakes with
          | .ok (), _ => rfl
        refine ⟨hfree.wire, pushed_nil rfl (by rintro a ⟨⟩), sendLocked atomicRing target call.iterations call.buf, rfl, ?_⟩
        have hbuf : call.buf ≠ [] := fun hnil => hne (by rw [hnil]; rfl)
        refine View.Safe.mono (sendView_sendLocked (g := { SendLog.fresh call with start := some h.stream.length })
          call.iterations call.fits hbuf hfree rfl rfl rfl) ?_
        rintro a ⟨t, g⟩ ⟨-, hkept'⟩ ⟨hfree', hsent⟩
        refine ⟨hfree', trivial, fun _ => ⟨hkept', hkept'.stretch, hkept'.carries, ?_⟩⟩
        rintro b ⟨⟩
        exact hsent

/-- In every configuration any run reaches, the stream and the logs agree. -/
theorem writers_agree {c : Config Nat (endpointIface ringIface Transmit) (Guarded Outlet SendLog) (Except Errno Nat)}
    (hc : (writeCalls target).Reachable (Monitor.initial ⟨transmitInit, []⟩) c) :
    sendTurns.Agrees sendTerms c.shared :=
  (Turns.good (fun _ _ _ => pushed_nil rfl (by rintro a ⟨⟩)) (fun _ _ _ _ => pushed_nil rfl (by rintro a ⟨⟩))
    writers_safe sendFree_initial rfl hc).1

theorem writers_wire {c : Config Nat (endpointIface ringIface Transmit) (Guarded Outlet SendLog) (Except Errno Nat)}
    (hc : (writeCalls target).Reachable (Monitor.initial ⟨transmitInit, []⟩) c) : Wire c.shared.record.stream := by
  have hi := writers_agree hc
  cases howner : c.shared.owner with
  | none => exact (hi.free howner).wire
  | some i =>
      obtain ⟨g, -, hlog, -⟩ := hi.turns.latest i howner
      exact hi.held i g howner hlog

end Runs

end Axivc
