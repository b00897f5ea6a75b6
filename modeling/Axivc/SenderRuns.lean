import Axivc.Producer

/-!
# Axivc.SenderRuns

Runs of a sender: one call of `axivc_message_start`, `axivc_message_try_write`
or `axivc_message_try_abort` after the other, at single memory accesses, on a
ring whose head cursor the consumer moves as it likes.

Next to the sender and the ring the state records history: the slots pushed,
the ids handed out, the ring as the latest call found it, and whether that
call has seen the ring full.

* `sender_errors_exact` — when a call fails, with what, and that a failed
  call has written nothing;
* `message_ids_never_reused` — what the frames pushed over a whole run look
  like.
-/

namespace Axivc

open Prog Rely

/-- What a call on the sender returns. -/
inductive SendRet where
  | started (result : Except Errno Unit)
  | wrote (result : Except Errno SendProgress)
  | aborted (result : Except Errno Unit)

/-- A sender, its ring, and the history of their use. -/
structure SenderState where
  tx : Sender
  ring : Ring
  /-- slots pushed so far, oldest first -/
  pushed : List Slot
  /-- ids handed out so far, oldest first -/
  ids : List UInt64
  /-- the latest call -/
  call : SendCall
  /-- the ring when the latest call began -/
  before : Ring
  /-- whether the ring was full when the latest call last loaded its head -/
  sawFull : Bool

namespace SenderState

/-- A sender that hands out `next` as its first id, on any ring memory. -/
def init (next : UInt64) (ring : Ring) : SenderState :=
  ⟨{ messageSenderInit with nextMessageId := next }, ring, [], [], .tryAbort, ring, false⟩

/-- The history after an access: a store of the tail cursor publishes the slot
it moves past, a load of the head cursor shows whether the ring is full. -/
def record (s : SenderState) : RingAccess → SenderState
  | .loadHead => { s with sawFull := decide (s.ring.tail - s.ring.head ≥ .ofNat ringCapacity) }
  | .storeTail _ => { s with pushed := s.pushed ++ [s.ring.slots (slotIndex s.ring.tail)] }
  | _ => s

/-- An access: its answer, and memory and history after it. -/
def perform (a : RingAccess) (s : SenderState) : ringMemory.Res a × SenderState :=
  ((access a s.ring).1, { s.record a with ring := (access a s.ring).2 })

/-- The state after a call has returned. -/
def finished (s : SenderState) (tx : Sender) : SendRet → SenderState
  | .started (.ok ()) => { s with tx := tx, ids := s.ids ++ [tx.active.id] }
  | _ => { s with tx := tx }

end SenderState

/-- The program of a call on the sender. -/
def sendProgram (tx : Sender) : SendCall → Prog ringMemory (Sender × SendRet)
  | .start messageLen => pure ((messageStart tx messageLen).1, .started (messageStart tx messageLen).2)
  | .tryWrite input => do
      let (tx, result) ← messageTryWrite ringProgram tx input
      pure (tx, .wrote result)
  | .tryAbort => do
      let (tx, result) ← messageTryAbort ringProgram tx
      pure (tx, .aborted result)

/-- One sender; the consumer moves the head cursor. -/
def senderMachine : Machine Unit ringMemory SenderState SendCall (Sender × SendRet) where
  body _ call s := sendProgram s.tx call
  exec _ a s r t := r = (s.perform a).1 ∧ t = (s.perform a).2
  start _ call s t := t = { s with call := call, before := s.ring, sawFull := false }
  finish _ ret s t := t = s.finished ret.1 ret.2
  env s t := ∃ head, t = { s with ring := { s.ring with head := head } }

theorem sendProgram_returns (tx : Sender) (call : SendCall) : (sendProgram tx call).Returns := by
  cases call with
  | start messageLen => trivial
  | tryWrite input => exact (messageTryWrite_returns ringProgram_returns tx input).bind fun _ => trivial
  | tryAbort => exact (messageTryAbort_returns ringProgram_returns tx).bind fun _ => trivial

/-! ## frames over a whole run -/

/-- The frames a sender may have pushed, and the message that is open after
them: messages come one after the other, each with a larger id. -/
inductive History : List Frame → Option MessageMeta → Prop where
  | nil : History [] none
  | first {frames : List Frame} {f : Frame} : History frames none →
      (∀ g ∈ frames, g.messageId < f.messageId) → f.first = true → f.abort = false →
      History (frames ++ [f]) (if f.last then none else some ⟨f.messageId, f.messageLen⟩)
  | more {frames : List Frame} {m : MessageMeta} {f : Frame} : History frames (some m) → f.first = false →
      f.messageId = m.id → f.messageLen = m.len →
      History (frames ++ [f]) (if f.last || f.abort then none else some m)

/-- Message ids are not reused and messages do not interleave. -/
structure NeverReused (frames : List Frame) : Prop where
  /-- the ids of FIRST frames are strictly increasing -/
  increasing : ((frames.filter fun f => f.first).map fun f => f.messageId).Pairwise (· < ·)
  nonzero : ∀ f ∈ frames, f.first = true → f.messageId ≠ 0
  /-- every frame has the id and the length of the latest FIRST frame -/
  together : ∀ (i : Nat) (f : Frame), frames[i]? = some f →
    ∃ (j : Nat) (g : Frame), j ≤ i ∧ frames[j]? = some g ∧ g.first = true ∧
      (∀ (k : Nat) (h : Frame), j < k → k ≤ i → frames[k]? = some h → h.first = false) ∧
      f.messageId = g.messageId ∧ f.messageLen = g.messageLen
  /-- nothing of a message is pushed after its LAST or ABORT frame -/
  closed : ∀ (i j : Nat) (f g : Frame), i < j → frames[i]? = some f → frames[j]? = some g →
    f.last = true ∨ f.abort = true → g.messageId ≠ f.messageId
  /-- no frame is both LAST and ABORT -/
  apart : ∀ f ∈ frames, f.abort = true → f.last = false

section Frames

variable {frames : List Frame} {f : Frame} {opened : Option MessageMeta} {m : MessageMeta}

/-- The elements of a list with one more at the end. -/
theorem getElem?_snoc_eq_some {i : Nat} {g : Frame} :
    (frames ++ [f])[i]? = some g ↔ frames[i]? = some g ∨ i = frames.length ∧ g = f := by
  by_cases hlt : i < frames.length
  · rw [List.getElem?_append_left hlt]
    constructor
    · exact .inl
    · rintro (h | ⟨h, -⟩)
      · exact h
      · omega
  · rw [List.getElem?_append_right (by omega), List.getElem?_eq_none (l := frames) (by omega)]
    by_cases heq : i = frames.length
    · simp [heq, eq_comm]
    · have hsub : i - frames.length ≠ 0 := by omega
      simp [heq, hsub]

/-- The open message: its FIRST frame is the latest one, and it has not been
closed. -/
theorem History.opened_some (h : History frames opened) (hm : opened = some m) :
    (∃ (j : Nat) (g : Frame), frames[j]? = some g ∧ g.first = true ∧ g.messageId = m.id ∧ g.messageLen = m.len ∧
      ∀ (k : Nat) (h : Frame), j < k → frames[k]? = some h → h.first = false) ∧
    ∀ f ∈ frames, f.messageId = m.id → f.last = false ∧ f.abort = false := by
  induction h with
  | nil => cases hm
  | @first frames f _ hlt hfirst habort _ =>
      cases hlast : f.last with
      | true => simp [hlast] at hm
      | false =>
          rw [hlast, if_neg (by simp), Option.some.injEq] at hm
          subst hm
          refine ⟨⟨frames.length, f, by simp, hfirst, rfl, rfl, fun k h hk hget => ?_⟩, fun g hg hid => ?_⟩
          · have hlen := (List.getElem?_eq_some_iff.mp hget).1
            rw [List.length_append, List.length_singleton] at hlen
            omega
          · rcases List.mem_append.mp hg with hg | hg
            · have hne := hlt g hg
              rw [hid] at hne
              exact absurd hne (UInt64.lt_irrefl _)
            · rw [List.mem_singleton.mp hg]
              exact ⟨hlast, habort⟩
  | @more frames m' f _ hfirst hid hlen ih =>
      cases hend : (f.last || f.abort) with
      | true => simp [hend] at hm
      | false =>
          rw [hend, if_neg (by simp), Option.some.injEq] at hm
          subst hm
          obtain ⟨⟨j, g, hget, hg, hgid, hglen, hrest⟩, hopen⟩ := ih rfl
          refine ⟨⟨j, g, getElem?_snoc_eq_some.mpr (.inl hget), hg, hgid, hglen, fun k h hk hkget => ?_⟩,
            fun x hx hxid => ?_⟩
          · rcases getElem?_snoc_eq_some.mp hkget with hkget | ⟨-, rfl⟩
            · exact hrest k h hk hkget
            · exact hfirst
          · rcases List.mem_append.mp hx with hx | hx
            · exact hopen x hx hxid
            · rw [List.mem_singleton.mp hx]
              simpa using hend

/-- One more frame, with the id and the length of the latest FIRST frame. -/
theorem NeverReused.snoc (h : NeverReused frames) (hincr : f.first = true → ∀ g ∈ frames, g.messageId < f.messageId)
    (htogether : f.first = false → ∃ (j : Nat) (g : Frame), frames[j]? = some g ∧ g.first = true ∧
      f.messageId = g.messageId ∧ f.messageLen = g.messageLen ∧
      ∀ (k : Nat) (h : Frame), j < k → frames[k]? = some h → h.first = false)
    (hclosed : ∀ g ∈ frames, g.last = true ∨ g.abort = true → f.messageId ≠ g.messageId) :
    NeverReused (frames ++ [f]) := by
  refine ⟨?_, fun g _ _ => g.id_ne_zero, fun i g hget => ?_, fun i j x y hij hx hy hend => ?_,
    fun g _ hg => (g.abort_shape hg).2.1⟩
  · rw [List.filter_append, List.map_append, List.pairwise_append]
    refine ⟨h.increasing, ?_, fun a ha b hb => ?_⟩
    · cases hf : f.first <;> simp [hf]
    · cases hf : f.first with
      | false => simp [hf] at hb
      | true =>
          obtain ⟨g, hg, rfl⟩ := List.mem_map.mp ha
          obtain rfl : b = f.messageId := by simpa [hf] using hb
          exact hincr hf g (List.mem_of_mem_filter hg)
  · rcases getElem?_snoc_eq_some.mp hget with hget | ⟨rfl, rfl⟩
    · obtain ⟨j, g', hji, hj, hg', hbetween, hids⟩ := h.together i g hget
      have hi := (List.getElem?_eq_some_iff.mp hget).1
      refine ⟨j, g', hji, getElem?_snoc_eq_some.mpr (.inl hj), hg', fun k x hk hki hkget => ?_, hids⟩
      rcases getElem?_snoc_eq_some.mp hkget with hkget | ⟨hk', -⟩
      · exact hbetween k x hk hki hkget
      · omega
    · cases hf : g.first with
      | true =>
          exact ⟨frames.length, g, Nat.le_refl _, by simp, hf, fun k x hk hki => absurd hk (by omega), rfl, rfl⟩
      | false =>
          obtain ⟨j, g', hj, hg', hid, hlen, hrest⟩ := htogether hf
          have hlt := (List.getElem?_eq_some_iff.mp hj).1
          refine ⟨j, g', by omega, getElem?_snoc_eq_some.mpr (.inl hj), hg', fun k x hk _ hkget => ?_, hid, hlen⟩
          rcases getElem?_snoc_eq_some.mp hkget with hkget | ⟨-, rfl⟩
          · exact hrest k x hk hkget
          · exact hf
  · rcases getElem?_snoc_eq_some.mp hx with hx' | ⟨rfl, -⟩
    · rcases getElem?_snoc_eq_some.mp hy with hy' | ⟨-, rfl⟩
      · exact h.closed i j x y hij hx' hy' hend
      · exact hclosed x (List.mem_of_getElem? hx') hend
    · have hlen := (List.getElem?_eq_some_iff.mp hy).1
      rw [List.length_append, List.length_singleton] at hlen
      omega

theorem History.neverReused (h : History frames opened) : NeverReused frames := by
  induction h with
  | nil => exact ⟨.nil, by simp, by simp, by simp, by simp⟩
  | first hist hlt hfirst habort ih =>
      refine ih.snoc (fun _ => hlt) (fun hf => by rw [hfirst] at hf; cases hf) fun g hg _ heq => ?_
      have hne := hlt g hg
      rw [heq] at hne
      exact absurd hne (UInt64.lt_irrefl _)
  | more hist hfirst hid hlen ih =>
      obtain ⟨⟨j, g, hget, hg, hgid, hglen, hrest⟩, hopen⟩ := hist.opened_some rfl
      refine ih.snoc (fun hf => by rw [hfirst] at hf; cases hf)
        (fun _ => ⟨j, g, hget, hg, by rw [hid, hgid], by rw [hlen, hglen], hrest⟩) fun x hx hend heq => ?_
      obtain ⟨hl, ha⟩ := hopen x hx (by rw [← heq, hid])
      simp [hl, ha] at hend

/-- What has been pushed up to some moment. -/
theorem NeverReused.take (h : NeverReused frames) (n : Nat) : NeverReused (frames.take n) := by
  have hget {i : Nat} {g : Frame} (hi : (frames.take n)[i]? = some g) : i < n ∧ frames[i]? = some g := by
    have hlt := (List.getElem?_eq_some_iff.mp hi).1
    rw [List.length_take] at hlt
    rw [List.getElem?_take, if_pos (by omega)] at hi
    exact ⟨by omega, hi⟩
  refine ⟨?_, fun g _ _ => g.id_ne_zero, fun i g hi => ?_, fun i j x y hij hx hy => ?_,
    fun g _ hg => (g.abort_shape hg).2.1⟩
  · exact h.increasing.sublist (((List.take_sublist n frames).filter _).map _)
  · obtain ⟨hin, hi⟩ := hget hi
    obtain ⟨j, g', hji, hj, hg', hbetween, hids⟩ := h.together i g hi
    refine ⟨j, g', hji, ?_, hg', fun k x hk hki hkget => hbetween k x hk hki (hget hkget).2, hids⟩
    rw [List.getElem?_take, if_pos (by omega)]
    exact hj
  · exact h.closed i j x y hij (hget hx).2 (hget hy).2

end Frames

/-! ## frames and the sender's record -/

/-- The message whose FIRST frame is out and whose end is not. -/
def Sender.opened (tx : Sender) : Option MessageMeta :=
  if tx.sending && tx.publishedAny then some tx.active else none

/-- The frames pushed so far are level with the sender's record. -/
structure Level (tx : Sender) (ids : List UInt64) (frames : List Frame) : Prop where
  history : History frames tx.opened
  known : ∀ f ∈ frames, f.messageId ∈ ids
  fresh : tx.sending = true → tx.publishedAny = false → ∀ f ∈ frames, f.messageId < tx.active.id

section Level

variable {tx tx' : Sender} {ids : List UInt64} {frames : List Frame} {f : Frame} {slot : Slot}
  {slots : List Slot} {bytes : List UInt8}

/-- One more frame of the message at hand. -/
theorem Level.snoc (h : Level tx ids frames) (hs : tx.sending = true) (hmem : tx.active.id ∈ ids)
    (hid : f.messageId = tx.active.id) (hlen : f.messageLen = tx.active.len) (hfirst : f.first = !tx.publishedAny)
    (hs' : tx'.sending = !(f.last || f.abort)) (hp' : tx'.sending = true → tx'.publishedAny = true)
    (hactive : tx'.active = tx.active) : Level tx' ids (frames ++ [f]) := by
  have hopened : tx'.opened = if f.last || f.abort then none else some tx.active := by
    unfold Sender.opened
    cases hend : (f.last || f.abort) with
    | true => simp [hs', hend]
    | false =>
        rw [hend] at hs'
        simp [hs', hp' hs', hactive]
  refine ⟨?_, fun g hg => ?_, fun hsend hp => ?_⟩
  · have hhist := h.history
    rw [hopened]
    cases hp : tx.publishedAny with
    | true =>
        rw [Sender.opened, hs, hp, Bool.and_self, if_pos rfl] at hhist
        exact hhist.more (by rw [hfirst, hp]; rfl) hid hlen
    | false =>
        rw [Sender.opened, hs, hp, Bool.and_false, if_neg (by simp)] at hhist
        have habort : f.abort = false := by
          by_contra habort
          have hnot := (f.abort_shape (by simpa using habort)).1
          rw [hfirst, hp] at hnot
          cases hnot
        have hmeta : (⟨f.messageId, f.messageLen⟩ : MessageMeta) = tx.active := by rw [hid, hlen]
        have hnext := hhist.first (by rw [hid]; exact h.fresh hs hp) (by rw [hfirst, hp]; rfl) habort
        rwa [hmeta, ← Bool.or_false f.last, ← habort] at hnext
  · rcases List.mem_append.mp hg with hg | hg
    · exact h.known g hg
    · rw [List.mem_singleton.mp hg, hid]
      exact hmem
  · rw [hp' hsend] at hp
    cases hp

/-- The fragments of a write, one after the other. -/
theorem Level.sends (h : Level tx ids frames) (hsends : Sends tx bytes slots tx') (hmem : tx.active.id ∈ ids) :
    ∃ more, Decodes slots more ∧ Level tx' ids (frames ++ more) := by
  induction hsends generalizing frames with
  | nil tx => exact ⟨[], rfl, by rwa [List.append_nil]⟩
  | @cons tx tx' fragment bytes slot slots hs _ _ _ henc _ ih =>
      obtain ⟨frame, hdec, hid, hlen, hfirst, hlast, habort, -⟩ := decodeFrame_encodeFrame henc
      have hnext : Level (tx.advance fragment.length) ids (frames ++ [frame]) :=
        h.snoc hs hmem hid hlen hfirst (by simp [Sender.advance, hlast, habort]) (fun _ => rfl) rfl
      obtain ⟨more, hmore, hlevel⟩ := ih hnext hmem
      rw [List.append_assoc] at hlevel
      exact ⟨frame :: more, (by simp [Decodes, hdec] : Decodes [slot] [frame]).append hmore, hlevel⟩

/-- A frame that ends the message at hand. -/
theorem Level.ends (h : Level tx ids frames) (hs : tx.sending = true) (hmem : tx.active.id ∈ ids)
    {len : UInt64} {last abort : Bool} (hlen : len = tx.active.len) (hend : (last || abort) = true)
    (henc : encodeFrame tx.active.id len (!tx.publishedAny) last abort [] = .ok slot) :
    ∃ more, Decodes [slot] more ∧ Level { tx with sending := false } ids (frames ++ more) := by
  obtain ⟨frame, hdec, hid, hl, hfirst, hlast, habort, -⟩ := decodeFrame_encodeFrame henc
  refine ⟨[frame], by simp [Decodes, hdec], ?_⟩
  exact h.snoc hs hmem hid (by rw [hl, hlen]) hfirst (by rw [hlast, habort, hend]; rfl) (by simp) rfl

/-- A message given up before anything of it was published. -/
theorem Level.cancel (h : Level tx ids frames) (hp : tx.publishedAny = false) :
    Level { tx with sending := false } ids frames := by
  refine ⟨?_, h.known, by simp⟩
  have hhist := h.history
  simp only [Sender.opened, hp, Bool.and_false] at hhist ⊢
  exact hhist

/-- A write keeps the frames level with the record. -/
theorem Level.write (h : Level tx ids frames) (hok : tx.Ok) (hmem : tx.sending = true → tx.active.id ∈ ids)
    {input : List UInt8} {result : Except Errno SendProgress} (hr : WriteResult tx input slots tx' result) :
    ∃ more, Decodes slots more ∧ Level tx' ids (frames ++ more) := by
  cases hr with
  | notSending | tooLong | emptyFull => exact ⟨[], rfl, by rwa [List.append_nil]⟩
  | empty hs hlen _ henc =>
      have hp : tx.publishedAny = false := hok.not_published hs (hok.sent_zero hs hlen)
      exact h.ends hs (hmem hs) hlen.symm rfl (by rw [hp]; exact henc)
  | data hs _ _ _ _ hsends => exact h.sends hsends (hmem hs)

/-- An abort keeps the frames level with the record. -/
theorem Level.abort (h : Level tx ids frames) (hmem : tx.sending = true → tx.active.id ∈ ids)
    {result : Except Errno Unit} (hr : AbortResult tx slots tx' result) :
    ∃ more, Decodes slots more ∧ Level tx' ids (frames ++ more) := by
  cases hr with
  | notSending | full => exact ⟨[], rfl, by rwa [List.append_nil]⟩
  | unpublished hs hp => exact ⟨[], rfl, by rw [List.append_nil]; exact h.cancel hp⟩
  | published hs hp henc => exact h.ends hs (hmem hs) rfl (Bool.or_true _) (by rw [hp]; exact henc)

end Level

/-! ## the outline -/

namespace SenderState

/-- The ids handed out by a sender whose first one is `next`. -/
structure Inv (next : UInt64) (s : SenderState) : Prop where
  ok : s.tx.Ok
  sent_le : s.tx.sent ≤ s.tx.active.len
  increasing : s.ids.Pairwise (· < ·)
  below : ∀ id ∈ s.ids, s.tx.nextMessageId = 0 ∨ id < s.tx.nextMessageId
  exhausted : s.tx.nextMessageId = 0 → ~~~0 ∈ s.ids ∨ next = 0
  unusable : next = 0 → s.tx.nextMessageId = 0
  active : s.tx.sending = true → s.tx.active.id ∈ s.ids

/-- Between calls the frames pushed are level with the sender. -/
def Idle (s : SenderState) : Prop := ∃ frames, Decodes s.pushed frames ∧ Level s.tx s.ids frames

/-- Nothing of the call at hand is left, in the record it returns or in the
ring: only the consumer has moved its cursor. -/
def Unchanged (s : SenderState) (tx : Sender) : Prop :=
  tx = s.tx ∧ s.ring = { s.before with head := s.ring.head }

/-- When each call fails and with what, and what a write that succeeds
reports. -/
def Contract (s : SenderState) (tx : Sender) : SendCall → SendRet → Prop
  | .start _, .started result =>
      (result = .error .EBUSY ↔ s.tx.sending = true) ∧
      (result = .error .EOVERFLOW ↔ s.tx.sending = false ∧ ~~~0 ∈ s.ids) ∧
      ∀ e, result = .error e → (e = .EBUSY ∨ e = .EOVERFLOW) ∧ s.Unchanged tx
  | .tryWrite input, .wrote result =>
      (result = .error .ENOMSG ↔ s.tx.sending = false) ∧
      (result = .error .EINVAL ↔
        s.tx.sending = true ∧ input.length > s.tx.active.len.toNat - s.tx.sent.toNat) ∧
      (∀ e, result = .error e → (e = .ENOMSG ∨ e = .EINVAL) ∧ s.Unchanged tx) ∧
      ∀ progress, result = .ok progress → tx.active = s.tx.active ∧ tx.sent ≤ tx.active.len ∧
        tx.sent.toNat = s.tx.sent.toNat + progress.consumed ∧ (progress.complete = true ↔ tx.sending = false)
  | .tryAbort, .aborted result =>
      (result = .error .ENOMSG ↔ s.tx.sending = false) ∧
      (result = .error .EAGAIN ↔ s.tx.sending = true ∧ s.tx.publishedAny = true ∧ s.sawFull = true) ∧
      ∀ e, result = .error e → (e = .ENOMSG ∨ e = .EAGAIN) ∧ s.Unchanged tx
  | _, _ => False

/-- The consumer has moved the head cursor. -/
def Moved (s t : SenderState) : Prop := ∃ head, t = { s with ring := { s.ring with head := head } }

theorem Moved.refl (s : SenderState) : Moved s s := ⟨s.ring.head, rfl⟩

theorem Moved.trans {s t u : SenderState} (h : Moved s t) (h' : Moved t u) : Moved s u := by
  obtain ⟨_, rfl⟩ := h
  obtain ⟨head, rfl⟩ := h'
  exact ⟨head, rfl⟩

variable {next : UInt64} {s t u : SenderState}

theorem Inv.moved (h : s.Inv next) (hm : Moved s t) : t.Inv next := by
  obtain ⟨_, rfl⟩ := hm
  exact ⟨h.ok, h.sent_le, h.increasing, h.below, h.exhausted, h.unusable, h.active⟩

end SenderState

open SenderState

/-- The sender stores neither the head cursor nor anything of a failed call. -/
def senderOutline (next : UInt64) : Machine.Outline senderMachine where
  inv := Inv next
  pre _ a _ := ∀ head, a ≠ .storeHead head
  wait _ _ := False
  rely _ := Moved
  guar _ s t := s.pushed <+: t.pushed
  post _ ret s := (next ≠ 0 → s.Contract ret.1 s.call ret.2) ∧ (s.finished ret.1 ret.2).Inv next ∧
    (s.finished ret.1 ret.2).Idle
  idle _ := Idle
  rely_refl _ := Moved.refl
  rely_trans _ := Moved.trans
  guar_rely hij := absurd rfl hij
  env_rely hi h := ⟨hi.moved h, fun _ => h⟩
  idle_stable h hm _ := by
    obtain ⟨_, rfl⟩ := hm
    exact h
  finish_ok {_ ret s t} _ hpost hf := by
    subst hf
    refine ⟨hpost.2.1, ?_, hpost.2.2⟩
    unfold finished
    split <;> exact List.prefix_rfl

/-! ## one push -/

namespace SenderState

/-- From `s` to `t` the call at hand pushed `slots`; without a push it has
left the ring to the consumer. -/
structure Pushes (s : SenderState) (slots : List Slot) (t : SenderState) : Prop where
  tx : t.tx = s.tx
  ids : t.ids = s.ids
  call : t.call = s.call
  before : t.before = s.before
  pushed : t.pushed = s.pushed ++ slots
  ring : slots = [] → t.ring = { s.ring with head := t.ring.head }

/-- What the sender knows while it fills the free slot: `todo` are the offsets
still to be written. -/
structure Filling (s : SenderState) (slot : Slot) (todo : List (Fin slotSize)) (t : SenderState) : Prop where
  same : t = { s with ring := t.ring }
  tail : t.ring.tail = s.ring.tail
  bytes : ∀ j, j ∉ todo → (t.ring.slots (slotIndex s.ring.tail)).get j = slot.get j

variable {next : UInt64} {s t u : SenderState} {slot : Slot} {todo : List (Fin slotSize)}

theorem Pushes.moved (h : Moved s t) : Pushes s [] t := by
  obtain ⟨_, rfl⟩ := h
  exact ⟨rfl, rfl, rfl, rfl, (List.append_nil _).symm, fun _ => rfl⟩

theorem Pushes.trans {slots slots' : List Slot} (h : Pushes s slots t) (h' : Pushes t slots' u) :
    Pushes s (slots ++ slots') u := by
  refine ⟨h'.tx.trans h.tx, h'.ids.trans h.ids, h'.call.trans h.call, h'.before.trans h.before,
    by rw [h'.pushed, h.pushed, List.append_assoc], fun hnil => ?_⟩
  obtain ⟨hnil, hnil'⟩ := List.append_eq_nil_iff.mp hnil
  rw [h'.ring hnil', h.ring hnil]

theorem Filling.moved (h : Filling s slot todo t) (hm : Moved t u) : Filling s slot todo u := by
  obtain ⟨_, rfl⟩ := hm
  refine ⟨?_, h.tail, h.bytes⟩
  rw [h.same]

/-- Copying the slot in touches nothing but the free slot. -/
theorem safe_storeBytes {post : Unit → SenderState → Prop} (hpost : ∀ t, Filling s slot [] t → post () t)
    (todo : List (Fin slotSize)) (ht : Filling s slot todo t) :
    ((senderOutline next).view ()).Safe post (storeBytes (slotIndex s.ring.tail) slot todo) t := by
  induction todo generalizing t with
  | nil => exact View.safe_ret _ ht (fun _ _ h hr _ => h.moved hr) fun u hu _ => hpost u hu
  | cons j todo ih =>
      refine View.safe_act _ ht (fun _ _ h hr _ => h.moved hr) fun u hu hi => ⟨(fun _ h => nomatch h), ?_⟩
      rintro r v ⟨-, rfl⟩
      refine ⟨⟨hi.ok, hi.sent_le, hi.increasing, hi.below, hi.exhausted, hi.unusable, hi.active⟩, List.prefix_rfl, ih ?_⟩
      refine ⟨?_, hu.tail, fun j' hj' => ?_⟩
      · have hsame := hu.same
        rw [hsame]
        rfl
      · simp only [perform, access, Function.update_self]
        by_cases hj : j' = j
        · subst hj; simp
        · rw [Slot.get_set_of_ne _ _ hj]
          exact hu.bytes j' (by simp [hj, hj'])

/-- `axivc_ring_try_push_slot` pushes exactly its argument, and finds the ring
full only when it was. -/
theorem safe_tryPush (slot : Slot) (s : SenderState) :
    ((senderOutline next).view ()).Safe
      (fun ok t => Pushes s (if ok then [slot] else []) t ∧ t.sawFull = !ok) (ringTryPushSlot slot) s := by
  refine View.safe_act (Pushes s []) (.moved (.refl s)) (fun t u h hr _ => h.trans (.moved hr))
    fun t ht hi => ⟨(fun _ h => nomatch h), ?_⟩
  rintro tail u ⟨rfl, rfl⟩
  refine ⟨hi, List.prefix_rfl, ?_⟩
  refine View.safe_act (fun u => Pushes s [] u ∧ u.ring.tail = t.ring.tail) ⟨ht, rfl⟩ ?_ ?_
  · rintro u _ ⟨hu, htail⟩ hr -
    refine ⟨hu.trans (.moved hr), ?_⟩
    obtain ⟨_, rfl⟩ := hr
    exact htail
  intro u ⟨hu, htail⟩ hi
  refine ⟨(fun _ h => nomatch h), ?_⟩
  rintro head v ⟨rfl, rfl⟩
  refine ⟨⟨hi.ok, hi.sent_le, hi.increasing, hi.below, hi.exhausted, hi.unusable, hi.active⟩, List.prefix_rfl, ?_⟩
  change View.Safe _ _ (ite (t.ring.tail - u.ring.head ≥ UInt32.ofNat ringCapacity) (pure false)
      (storeBytes (slotIndex t.ring.tail) slot (List.finRange _) >>= fun _ =>
        mem (.storeTail (t.ring.tail + 1)) >>= fun _ => pure true))
    { u with sawFull := decide (u.ring.tail - u.ring.head ≥ UInt32.ofNat ringCapacity) }
  rw [← htail]
  by_cases hfull : u.ring.tail - u.ring.head ≥ UInt32.ofNat ringCapacity
  · rw [if_pos hfull]
    refine View.safe_ret (fun v => Pushes s [] v ∧ v.sawFull = true) ⟨?_, by simp [hfull]⟩ ?_ fun v hv _ => hv
    · exact ⟨hu.tx, hu.ids, hu.call, hu.before, hu.pushed, hu.ring⟩
    · rintro v _ ⟨hv, hsaw⟩ hr -
      refine ⟨hv.trans (.moved hr), ?_⟩
      obtain ⟨_, rfl⟩ := hr
      exact hsaw
  · rw [if_neg hfull, decide_eq_false hfull]
    refine View.Safe.bind (safe_storeBytes (s := { u with sawFull := false }) (fun v hv => ?_) _
      ⟨rfl, rfl, fun j hj => absurd (List.mem_finRange j) hj⟩)
    refine View.safe_act _ hv (fun _ _ h hr _ => h.moved hr) fun w hw hi => ⟨(fun _ h => nomatch h), ?_⟩
    rintro r x ⟨-, rfl⟩
    refine ⟨⟨hi.ok, hi.sent_le, hi.increasing, hi.below, hi.exhausted, hi.unusable, hi.active⟩, List.prefix_append _ _, ?_⟩
    have hslot : w.ring.slots (slotIndex w.ring.tail) = slot := by
      rw [hw.tail]
      exact Slot.ext fun j => hw.bytes j (by simp)
    rintro y ⟨_, rfl⟩ -
    have hsame := hw.same
    have hpushed : w.pushed = s.pushed := by
      rw [hsame, ← List.append_nil s.pushed]
      exact hu.pushed
    refine ⟨⟨?_, ?_, ?_, ?_, ?_, by simp⟩, ?_⟩
    · change w.tx = s.tx
      rw [hsame]
      exact hu.tx
    · change w.ids = s.ids
      rw [hsame]
      exact hu.ids
    · change w.call = s.call
      rw [hsame]
      exact hu.call
    · change w.before = s.before
      rw [hsame]
      exact hu.before
    · change w.pushed ++ [w.ring.slots (slotIndex w.ring.tail)] = s.pushed ++ [slot]
      rw [hslot, hpushed]
    · change w.sawFull = false
      rw [hsame]

end SenderState

/-! ## the calls -/

/-- What a write reports is exact. -/
theorem WriteResult.exact {tx tx' : Sender} {input : List UInt8} {slots : List Slot}
    {result : Except Errno SendProgress} (h : WriteResult tx input slots tx' result) (hok : tx.Ok)
    (hle : tx.sent ≤ tx.active.len) :
    (result = .error .ENOMSG ↔ tx.sending = false) ∧
    (result = .error .EINVAL ↔ tx.sending = true ∧ input.length > tx.active.len.toNat - tx.sent.toNat) ∧
    (∀ e, result = .error e → (e = .ENOMSG ∨ e = .EINVAL) ∧ tx' = tx ∧ slots = []) ∧
    ∀ progress, result = .ok progress → tx'.active = tx.active ∧ tx'.sent ≤ tx'.active.len ∧
      tx'.sent.toNat = tx.sent.toNat + progress.consumed ∧ (progress.complete = true ↔ tx'.sending = false) := by
  cases h with
  | notSending hs => simp [hs]
  | tooLong hs hlong =>
      rw [Sender.toNat_sub_sent hle] at hlong
      simp [hs, hlong]
  | emptyFull hs hlen hnil => simp [hs, hnil, hle]
  | empty hs hlen hnil => simp [hs, hnil, hle]
  | @data n slots tx' hs hlen hfits hn hfull hsends =>
      obtain ⟨hactive, -, hsent⟩ := hsends.counts hok
      have hle' := UInt64.le_iff_toNat_le.mp hle
      rw [List.length_take, Nat.min_eq_left hn] at hsent
      refine ⟨by simp [hs], by simp [hs, hfits], by simp, ?_⟩
      rintro progress ⟨rfl⟩
      refine ⟨hactive, ?_, hsent, by simp⟩
      rw [hactive, UInt64.le_iff_toNat_le, hsent]
      omega

/-- What an abort does to the record. -/
theorem AbortResult.exact {tx tx' : Sender} {slots : List Slot} {result : Except Errno Unit}
    (h : AbortResult tx slots tx' result) :
    (result = .error .ENOMSG ↔ tx.sending = false) ∧
    (result = .error .EAGAIN ↔ tx.sending = true ∧ tx.publishedAny = true ∧ slots = []) ∧
    (∀ e, result = .error e → (e = .ENOMSG ∨ e = .EAGAIN) ∧ tx' = tx ∧ slots = []) ∧
    (tx' = tx ∨ tx' = { tx with sending := false }) := by
  cases h with
  | notSending hs => simp [hs]
  | unpublished hs hp => simp [hs, hp]
  | published hs hp => simp [hs, hp]
  | full hs hp => simp [hs, hp]

namespace SenderState

variable {next : UInt64} {s t u : SenderState} {tx : Sender} {slots : List Slot}

theorem pushLog (next : UInt64) :
    PushLog ((senderOutline next).view ()) ringProgram (fun _ => True) Pushes where
  trans h h' := h.trans h'
  stable _ _ hr _ := .moved hr
  push slot s _ := (safe_tryPush slot s).mono fun _ _ _ h => h.1

/-- The record after a call that starts no message. -/
theorem Inv.keep (h : s.Inv next) (hok : tx.Ok) (hle : tx.sent ≤ tx.active.len)
    (hnext : tx.nextMessageId = s.tx.nextMessageId) (hactive : tx.active = s.tx.active)
    (hs : tx.sending = true → s.tx.sending = true) : ({ s with tx := tx } : SenderState).Inv next := by
  refine ⟨hok, hle, h.increasing, ?_, ?_, ?_, fun hs' => ?_⟩
  · rw [hnext]
    exact h.below
  · rw [hnext]
    exact h.exhausted
  · rw [hnext]
    exact h.unusable
  · rw [hactive]
    exact h.active (hs hs')

/-- Nothing was pushed since the call began. -/
theorem Pushes.unchanged (h : Pushes s [] t) (hbefore : s.before = s.ring) (htx : tx = s.tx) : t.Unchanged tx := by
  refine ⟨by rw [htx, h.tx], ?_⟩
  rw [h.before, hbefore]
  exact h.ring rfl

/-- The frames pushed by a call, after those of the calls before it. -/
theorem Pushes.idle (h : Pushes s slots t) (hidle : s.Idle)
    (hlevel : ∀ frames, Level s.tx s.ids frames → ∃ more, Decodes slots more ∧ Level tx s.ids (frames ++ more)) :
    ({ t with tx := tx } : SenderState).Idle := by
  obtain ⟨frames, hdec, hframes⟩ := hidle
  obtain ⟨more, hmore, hnext⟩ := hlevel frames hframes
  refine ⟨frames ++ more, ?_, ?_⟩
  · change Decodes t.pushed _
    rw [h.pushed]
    exact hdec.append hmore
  · change Level tx t.ids _
    rwa [h.ids]

/-- Adding one does not wrap before the last id. -/
theorem lt_add_one_of_le {id n : UInt64} (hn : n ≠ ~~~0) (hle : id ≤ n) : id < n + 1 := by
  have hne : n.toNat ≠ 2 ^ 64 - 1 := fun h => hn (UInt64.toNat_inj.mp h)
  have hbound := n.toNat_lt
  rw [UInt64.le_iff_toNat_le] at hle
  rw [UInt64.lt_iff_toNat_lt, UInt64.toNat_add, UInt64.toNat_one]
  omega

/-- The sender hands out `nextMessageId`, unless a message is being sent or
there is no id left. -/
theorem start_post (hi : s.Inv next) (hidle : s.Idle) (messageLen : UInt64) (hcall : s.call = .start messageLen)
    (hunchanged : s.Unchanged s.tx) : (senderOutline next).post ()
      ((messageStart s.tx messageLen).1, .started (messageStart s.tx messageLen).2) s := by
  change (_ → s.Contract _ s.call _) ∧ (s.finished _ _).Inv next ∧ (s.finished _ _).Idle
  rw [hcall]
  cases hs : s.tx.sending with
  | true =>
      have hstart : messageStart s.tx messageLen = (s.tx, .error .EBUSY) := by simp [messageStart, hs]
      rw [hstart]
      exact ⟨fun _ => by simp [Contract, hs, hunchanged], hi, hidle⟩
  | false =>
      by_cases hzero : s.tx.nextMessageId = 0
      · have hstart : messageStart s.tx messageLen = (s.tx, .error .EOVERFLOW) := by
          simp [messageStart, hs, hzero]
        rw [hstart]
        refine ⟨fun hnext => ?_, hi, hidle⟩
        have hmem := (hi.exhausted hzero).resolve_right hnext
        simpa [Contract, hs, hunchanged] using hmem
      · have hbelow : ∀ id ∈ s.ids, id < s.tx.nextMessageId := fun id hid => (hi.below id hid).resolve_left hzero
        have hmax : ~~~0 ∉ s.ids := by
          intro hmem
          have hlt := UInt64.lt_iff_toNat_lt.mp (hbelow _ hmem)
          have htop : (~~~0 : UInt64).toNat = 2 ^ 64 - 1 := rfl
          have hbound := s.tx.nextMessageId.toNat_lt
          omega
        obtain ⟨frames, hdec, hlevel⟩ := hidle
        have hok := messageStart_ok hi.ok messageLen
        rw [messageStart, if_neg (by simp [hs]), if_neg hzero] at hok ⊢
        refine ⟨fun _ => by simpa [Contract, hs] using hmax, ⟨hok, UInt64.zero_le, ?_, fun id hid => ?_, fun hnext => ?_,
          fun hnext => absurd (hi.unusable hnext) hzero, fun _ => by simp [finished]⟩, frames, hdec, ?_⟩
        · refine List.pairwise_append.mpr ⟨hi.increasing, List.pairwise_singleton .., fun a ha b hb => ?_⟩
          rw [List.mem_singleton.mp hb]
          exact hbelow a ha
        · -- The next id is one more, or 0 after the last one.
          change (if s.tx.nextMessageId = ~~~0 then 0 else s.tx.nextMessageId + 1) = 0 ∨
            id < if s.tx.nextMessageId = ~~~0 then 0 else s.tx.nextMessageId + 1
          by_cases hlast : s.tx.nextMessageId = ~~~0
          · exact .inl (if_pos hlast)
          · rw [if_neg hlast]
            right
            have hle : id ≤ s.tx.nextMessageId := by
              rcases List.mem_append.mp hid with hid | hid
              · exact UInt64.le_of_lt (hbelow id hid)
              · rw [List.mem_singleton.mp hid]
                exact UInt64.le_refl _
            exact lt_add_one_of_le hlast hle
        · change (if s.tx.nextMessageId = ~~~0 then 0 else s.tx.nextMessageId + 1) = 0 at hnext
          left
          by_cases hlast : s.tx.nextMessageId = ~~~0
          · simp [finished, hlast]
          · rw [if_neg hlast] at hnext
            have hpos := lt_add_one_of_le hlast (UInt64.zero_le (a := s.tx.nextMessageId))
            rw [hnext] at hpos
            exact absurd hpos (UInt64.lt_irrefl 0)
        · have hhist := hlevel.history
          rw [Sender.opened, hs, Bool.false_and, if_neg (by simp)] at hhist
          exact ⟨hhist, fun f hf => List.mem_append_left _ (hlevel.known f hf),
            fun _ _ f hf => hbelow _ (hlevel.known f hf)⟩

/-- What a write leaves behind. -/
theorem write_post (hi : t.Inv next) (hidle : s.Idle) {input : List UInt8} (hcall : s.call = .tryWrite input)
    (hbefore : s.before = s.ring) (hp : Pushes s slots t) {result : Except Errno SendProgress}
    (hr : WriteResult s.tx input slots tx result) : (senderOutline next).post () (tx, .wrote result) t := by
  have hok : s.tx.Ok := hp.tx ▸ hi.ok
  have hle : s.tx.sent ≤ s.tx.active.len := hp.tx ▸ hi.sent_le
  have hmem : s.tx.sending = true → s.tx.active.id ∈ s.ids := hp.tx ▸ hp.ids ▸ hi.active
  obtain ⟨hnomsg, hinval, herr, hsent⟩ := hr.exact hok hle
  have hkept : tx.Ok ∧ (tx.sending = true → s.tx.sending = true) ∧ tx.nextMessageId = s.tx.nextMessageId := by
    cases hr with
    | notSending | tooLong | emptyFull => exact ⟨hok, id, rfl⟩
    | empty => exact ⟨.of_not_sending rfl, by simp, rfl⟩
    | data hs _ _ _ _ hsends => exact ⟨hsends.ok hok, fun _ => hs, (hsends.counts hok).2.1⟩
  have hactive : tx.active = s.tx.active ∧ tx.sent ≤ tx.active.len := by
    cases result with
    | error e => rw [(herr e rfl).2.1]; exact ⟨rfl, hle⟩
    | ok progress => exact ⟨(hsent progress rfl).1, (hsent progress rfl).2.1⟩
  refine ⟨fun _ => ?_, hi.keep hkept.1 hactive.2 ?_ ?_ ?_, hp.idle hidle fun frames h => h.write hok hmem hr⟩
  · change t.Contract tx t.call (.wrote result)
    rw [hp.call, hcall]
    refine ⟨by rwa [hp.tx], by rwa [hp.tx], fun e he => ?_, by rwa [hp.tx]⟩
    obtain ⟨hwhich, htx, rfl⟩ := herr e he
    exact ⟨hwhich, hp.unchanged hbefore htx⟩
  · rw [hp.tx, hkept.2.2]
  · rw [hp.tx, hactive.1]
  · rw [hp.tx]
    exact hkept.2.1

/-- What an abort leaves behind; it has seen the ring full when it pushed
nothing. -/
theorem abort_post (hi : t.Inv next) (hidle : s.Idle) (hcall : s.call = .tryAbort) (hbefore : s.before = s.ring)
    (hp : Pushes s slots t) {result : Except Errno Unit} (hr : AbortResult s.tx slots tx result)
    (hfull : s.tx.sending = true → s.tx.publishedAny = true → (slots = [] ↔ t.sawFull = true)) :
    (senderOutline next).post () (tx, .aborted result) t := by
  have hok : s.tx.Ok := hp.tx ▸ hi.ok
  have hle : s.tx.sent ≤ s.tx.active.len := hp.tx ▸ hi.sent_le
  have hmem : s.tx.sending = true → s.tx.active.id ∈ s.ids := hp.tx ▸ hp.ids ▸ hi.active
  obtain ⟨hnomsg, hagain, herr, htx⟩ := hr.exact
  refine ⟨fun _ => ?_, ?_, hp.idle hidle fun frames h => h.abort hmem hr⟩
  · change t.Contract tx t.call (.aborted result)
    rw [hp.call, hcall]
    refine ⟨by rwa [hp.tx], ?_, fun e he => ?_⟩
    · rw [hagain, hp.tx]
      constructor
      · rintro ⟨hs, hpub, hnil⟩
        exact ⟨hs, hpub, (hfull hs hpub).mp hnil⟩
      · rintro ⟨hs, hpub, hsaw⟩
        exact ⟨hs, hpub, (hfull hs hpub).mpr hsaw⟩
    · obtain ⟨hwhich, htx, rfl⟩ := herr e he
      exact ⟨hwhich, hp.unchanged hbefore htx⟩
  · rcases htx with rfl | rfl
    · exact hi.keep hok hle (by rw [hp.tx]) (by rw [hp.tx]) (by rw [hp.tx]; exact id)
    · exact hi.keep (.of_not_sending rfl) hle (by rw [hp.tx]) (by rw [hp.tx]) (by simp)

/-- The last id is never below the next one. -/
theorem Inv.next_eq_zero (h : s.Inv next) (hmem : ~~~0 ∈ s.ids ∨ next = 0) : s.tx.nextMessageId = 0 := by
  rcases hmem with hmem | hnext
  · rcases h.below _ hmem with hzero | hlt
    · exact hzero
    · rw [UInt64.lt_iff_toNat_lt] at hlt
      have htop : (~~~0 : UInt64).toNat = 2 ^ 64 - 1 := rfl
      have hbound := s.tx.nextMessageId.toNat_lt
      omega
  · exact h.unusable hnext

/-- `axivc_message_try_abort` pushes its frame unless it sees the ring full. -/
theorem safe_abort (s : SenderState) : ((senderOutline next).view ()).inv s → ((senderOutline next).view ()).Safe
    (fun r t => ∃ slots, Pushes s slots t ∧ AbortResult s.tx slots r.1 r.2 ∧
      (s.tx.sending = true → s.tx.publishedAny = true → (slots = [] ↔ t.sawFull = true)))
    (messageTryAbort ringProgram s.tx) s := by
  intro hi
  rw [messageTryAbort]
  by_cases hs : s.tx.sending
  · rw [if_neg (by simp [hs])]
    by_cases hp : s.tx.publishedAny
    · rw [if_neg (by simp [hp])]
      obtain ⟨slot, henc⟩ := hi.ok.encode_abort hs
      rw [henc]
      refine View.Safe.bind ((safe_tryPush slot s).mono fun ok t _ ht => ?_)
      cases ok with
      | true =>
          refine View.safe_ret (fun t => Pushes s [slot] t ∧ t.sawFull = false) ht ?_ fun t ht _ =>
            ⟨[slot], ht.1, .published hs hp henc, by simp [ht.2]⟩
          rintro t _ ⟨ht, hsaw⟩ ⟨_, rfl⟩ -
          exact ⟨ht.trans (.moved ⟨_, rfl⟩), hsaw⟩
      | false =>
          refine View.safe_ret (fun t => Pushes s [] t ∧ t.sawFull = true) ht ?_ fun t ht _ =>
            ⟨[], ht.1, .full hs hp, by simp [ht.2]⟩
          rintro t _ ⟨ht, hsaw⟩ ⟨_, rfl⟩ -
          exact ⟨ht.trans (.moved ⟨_, rfl⟩), hsaw⟩
    · rw [if_pos (by simp [hp])]
      exact fun t ht _ => ⟨[], .moved ht, .unpublished hs (by simpa using hp), fun _ h => absurd h hp⟩
  · rw [if_pos (by simp [hs])]
    exact fun t ht _ => ⟨[], .moved ht, .notSending (by simpa using hs), fun h => absurd h hs⟩

end SenderState

theorem sender_starts (next : UInt64) : (senderOutline next).Starts := by
  rintro ⟨⟩ call s t hi hidle rfl
  refine ⟨⟨hi.ok, hi.sent_le, hi.increasing, hi.below, hi.exhausted, hi.unusable, hi.active⟩, List.prefix_rfl, ?_⟩
  generalize ht : ({ s with call := call, before := s.ring, sawFull := false } : SenderState) = t
  have hi : t.Inv next := by
    subst ht
    exact ⟨hi.ok, hi.sent_le, hi.increasing, hi.below, hi.exhausted, hi.unusable, hi.active⟩
  have hidle : t.Idle := by
    subst ht
    exact hidle
  have hcall : t.call = call := by rw [← ht]
  have hbefore : t.before = t.ring := by rw [← ht]
  cases call with
  | start messageLen =>
      intro u hm hiu
      have hunchanged : u.Unchanged u.tx := (Pushes.moved hm).unchanged hbefore (Pushes.moved hm).tx
      obtain ⟨_, rfl⟩ := hm
      exact start_post hiu hidle messageLen hcall hunchanged
  | tryWrite input =>
      refine View.Safe.bind ((safe_messageTryWrite (pushLog next) hi.ok (fun _ _ _ _ _ _ _ => trivial) input).mono ?_)
      rintro ⟨tx, result⟩ u hiu ⟨slots, hp, hr⟩
      refine View.safe_ret (Pushes t slots) hp (fun _ _ h hm _ => ?_) fun v hv hiv =>
        write_post hiv hidle hcall hbefore hv hr
      rw [← List.append_nil slots]
      exact h.trans (.moved hm)
  | tryAbort =>
      refine View.Safe.bind ((safe_abort t hi).mono ?_)
      rintro ⟨tx, result⟩ u hiu ⟨slots, hp, hr, hfull⟩
      refine View.safe_ret (fun u => Pushes t slots u ∧ (t.tx.sending = true → t.tx.publishedAny = true →
        (slots = [] ↔ u.sawFull = true))) ⟨hp, hfull⟩ ?_ fun v hv hiv =>
        abort_post hiv hidle hcall hbefore hv.1 hr hv.2
      rintro v _ ⟨hv, hfull⟩ hm -
      refine ⟨?_, ?_⟩
      · rw [← List.append_nil slots]
        exact hv.trans (.moved hm)
      · obtain ⟨_, rfl⟩ := hm
        exact hfull

/-! ## every run -/

section Runs

variable {next : UInt64} {ring : Ring} {c : Config Unit ringMemory SenderState (Sender × SendRet)}

theorem sender_good (h : senderMachine.Reachable (.init next ring) c) : (senderOutline next).Good c := by
  have hidle : (SenderState.init next ring).Idle := ⟨[], rfl, .nil, by simp, by simp⟩
  refine (senderOutline next).good (sender_starts next) ?_ (fun _ => hidle) h
  exact ⟨.of_not_sending rfl, UInt64.le_refl _, .nil, by simp [SenderState.init], fun h => .inr h, fun h => h,
    by simp [SenderState.init, messageSenderInit]⟩

/-- In the middle of a call too, the frames pushed are the beginning of those
that are out when the call has returned. -/
theorem pushed_neverReused (h : (senderOutline next).Good c) :
    ∃ frames, Decodes c.shared.pushed frames ∧ NeverReused frames := by
  obtain ⟨t, ⟨rest, hrest⟩, frames, hdec, hlevel⟩ : ∃ t : SenderState, c.shared.pushed <+: t.pushed ∧ t.Idle := by
    cases hth : c.thread () with
    | none => exact ⟨c.shared, List.prefix_rfl, (h.2 ()).1 hth⟩
    | some p =>
        obtain ⟨ret, t, -, hle, -, -, hidle⟩ := View.Safe.ends (V := (senderOutline next).view ())
          (g := SenderState.perform) (R := fun s t => s.pushed <+: t.pushed) (fun _ _ => ⟨rfl, rfl⟩) (fun _ h => h) (fun _ => List.prefix_rfl)
          (fun _ _ _ => List.IsPrefix.trans) (fun _ _ h => h) ((h.2 ()).2 p hth) h.1
        refine ⟨t.finished ret.1 ret.2, ?_, hidle⟩
        have hpushed : (t.finished ret.1 ret.2).pushed = t.pushed := by
          unfold finished
          split <;> rfl
        rwa [hpushed]
  refine ⟨frames.take c.shared.pushed.length, ?_, hlevel.history.neverReused.take _⟩
  have htake := hdec.take c.shared.pushed.length
  rwa [← hrest, List.take_left] at htake

/-- **Message ids are never reused and messages never interleave.**  Take a
sender whose first id is `next`, any `u64`, on any ring memory, and any run of
calls.  Then in every configuration reached the slots pushed so far decode,
their frames are as `NeverReused` says, the ids handed out are strictly
increasing, and once the last id has been handed out (or when there was none
from the beginning) no message can be started. -/
theorem message_ids_never_reused (next : UInt64) (ring : Ring)
    (c : Config Unit ringMemory SenderState (Sender × SendRet))
    (hc : senderMachine.Reachable (.init next ring) c) :
    (∃ frames, Decodes c.shared.pushed frames ∧ NeverReused frames) ∧
    c.shared.ids.Pairwise (· < ·) ∧
    (~~~0 ∈ c.shared.ids ∨ next = 0 → ∀ messageLen, (messageStart c.shared.tx messageLen).2 ≠ .ok ()) := by
  have hgood := sender_good hc
  refine ⟨pushed_neverReused hgood, hgood.1.increasing, fun hmem messageLen => ?_⟩
  have hzero := hgood.1.next_eq_zero hmem
  rw [messageStart, if_pos hzero]
  split
  · exact fun h => nomatch h
  · exact fun h => nomatch h

/-- Instance: the last id has been handed out. -/
theorem message_ids_never_reused_last : ∃ c, senderMachine.Reachable (.init (~~~0) (.initial 1)) c ∧
    ~~~0 ∈ c.shared.ids ∧ (messageStart c.shared.tx 1).2 ≠ .ok () := by
  have hquiet : senderMachine.Reachable (.init (~~~0) (.initial 1)) (Machine.quiet (.init (~~~0) (.initial 1))) := .refl
  have hstart := hquiet.start () (.start 1) rfl rfl
  have hfinish := hstart.finish () (Function.update_self ..) rfl
  refine ⟨_, hfinish, List.mem_singleton.mpr rfl, ?_⟩
  exact (message_ids_never_reused _ _ _ hfinish).2.2 (.inl (List.mem_singleton.mpr rfl)) 1

end Runs

end Axivc
