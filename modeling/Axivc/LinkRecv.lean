import Axivc.Lib.Turns
import Axivc.DeviceRead
import Axivc.EndpointRuns
import Axivc.Wire

/-!
# Axivc.LinkRecv

The reading end of a ring: any number of `read(2)` calls on one endpoint, and
the stream of slots they pop together.

In `Axivc.DeviceRead` the peer publishes whatever it likes.  Here it is one
that keeps to the protocol: what a peek finds goes on with a stream a receiver
gets through, and stays where it is until it is popped (`Lawful`).  Then no
call fails by the protocol, and what a call has popped when it returns is a
message, an aborted one, or the start of one.
-/

namespace Axivc

open Prog Rely

/-! ## the model -/

/-- The receiving half of an endpoint, the slots popped from its ring so far,
and the slot a peek has found after them. -/
structure Inlet where
  rx : Receiver
  taken : List Slot
  seen : Option Slot

/-- What a call on it has done. -/
structure RecvLog where
  count : UInt64
  /-- the number of slots taken when the call obtained the lock -/
  start : Option Nat
  popped : List Slot
  /-- what the call wrote to user memory, by offset -/
  buffer : Nat → Option UInt8
  result : Option (Except Errno Nat)

namespace RecvLog

/-- A call that has just begun. -/
def fresh (call : RecvArgs) : RecvLog := ⟨call.count, none, [], fun _ => none, none⟩

/-- A call that has returned. -/
def ends (a : Except Errno Nat) (g : RecvLog) : RecvLog := { g with result := some a }

end RecvLog

/-- The endpoint under `rx_lock`; what a peek finds is left to the world, and a
pop takes what the latest successful peek found. -/
def inlet : Monitor (endpointIface ringIface Receiver) Inlet RecvLog where
  takes
    | .mutexLockInterruptible, .ok () => true
    | _, _ => false
  gives
    | .mutexUnlock => true
    | _ => false
  allows
    | .mutexLockInterruptible, _, r => r = .error .EINTR ∨ r = .ok ()
    | .load, s, r => r = s.rx
    | .copyToUser _ bytes, _, r => r ≤ bytes.length
    | _, _, _ => True
  act
    | .store rx, _, s => { s with rx := rx }
    | .ring .peek, some slot, s => { s with seen := some slot }
    | .ring .pop, _, s => { s with taken := s.taken ++ s.seen.toList, seen := none }
    | _, _, s => s
  note
    | .mutexLockInterruptible, .ok (), s, g => { g with start := some s.taken.length }
    | .ring .pop, _, s, g => { g with popped := g.popped ++ s.seen.toList }
    | .copyToUser offset bytes, uncopied, _, g =>
        { g with buffer := userWrite g.buffer offset (bytes.take (bytes.length - uncopied)) }
    | _, _, _, g => g

/-- A peer that keeps to the protocol. -/
def Lawful : (o : EndpointOp ringIface Receiver) → Inlet → (endpointIface ringIface Receiver).Res o → Prop
  | .ring .peek, s, some slot => (∀ x, s.seen = some x → slot = x) ∧ Wire (s.taken ++ [slot])
  | _, _, _ => True

/-- The slots taken as the history of the endpoint. -/
def recvTurns : Turns (inlet.restrict Lawful) RecvLog.fresh RecvLog.ends Slot where
  hist := Inlet.taken
  start := RecvLog.start
  own := RecvLog.popped
  act o r s g := by
    cases o with
    | ring o =>
        cases o with
        | pop => exact ⟨s.seen.toList, rfl, rfl⟩
        | peek =>
            match r with
            | some slot => exact ⟨[], by simp [inlet, Monitor.restrict], by simp [inlet, Monitor.restrict]⟩
            | none => exact ⟨[], by simp [inlet, Monitor.restrict], by simp [inlet, Monitor.restrict]⟩
        | push slot => exact ⟨[], by simp [inlet, Monitor.restrict], by simp [inlet, Monitor.restrict]⟩
    | mutexLockInterruptible =>
        refine ⟨[], by simp [inlet, Monitor.restrict], ?_⟩
        match r with
        | .ok () => simp [inlet, Monitor.restrict]
        | .error e => simp [inlet, Monitor.restrict]
    | _ => exact ⟨[], by simp [inlet, Monitor.restrict], by simp [inlet, Monitor.restrict]⟩
  stays o r s g h := by
    cases o with
    | ring o => cases o <;> rfl
    | mutexLockInterruptible =>
        match r with
        | .ok () => cases h
        | .error e => rfl
    | _ => rfl
  begins o r s g h := by
    cases o with
    | mutexLockInterruptible =>
        match r with
        | .ok () => exact ⟨rfl, rfl⟩
        | .error e => cases h
    | _ => cases h
  fresh_start _ := ⟨rfl, rfl⟩
  ends_keeps _ _ := ⟨rfl, rfl⟩

/-! ## how a call ends -/

/-- The errors that leave the receiver behind, in the middle of the stream. -/
def Stuck (e : Errno) : Prop := e = .EFAULT ∨ e = .ETIMEDOUT ∨ e = .ERESTARTSYS

/-- `g.Took a`: what a call that returned `a` has taken. -/
inductive RecvLog.Took (g : RecvLog) : Except Errno Nat → Prop where
  | nothing {a : Except Errno Nat} : g.popped = [] → a = .ok 0 ∨ a = .error .EINTR ∨ a = .error .EMSGSIZE → Took g a
  | failed {e : Errno} : g.popped = [] → Stuck e → Took g (.error e)
  | message {frames : List Frame} : Decodes g.popped frames → IsMessage frames → payload frames ≠ [] →
      (payload frames).length ≤ g.count.toNat → g.buffer = Holding (payload frames) →
      Took g (.ok (payload frames).length)
  | aborted {frames : List Frame} : Decodes g.popped frames → IsAborted frames → Took g (.error .ECONNRESET)
  | fault {frames : List Frame} : Decodes g.popped frames → (IsMessage frames ∨ ∃ msg, Opening msg frames) →
      Took g (.error .EFAULT)
  | gaveUp {frames : List Frame} {e : Errno} : Decodes g.popped frames → frames = [] ∨ (∃ msg, Opening msg frames) →
      e = .ETIMEDOUT ∨ e = .ERESTARTSYS → Took g (.error e)

theorem RecvLog.Took.ends {g : RecvLog} {a b : Except Errno Nat} (h : g.Took a) : (RecvLog.ends b g).Took a := by
  cases h with
  | nothing hnil ha => exact .nothing hnil ha
  | failed hnil he => exact .failed hnil he
  | message hdec hmsg hne hle hbuf => exact .message hdec hmsg hne hle hbuf
  | aborted hdec hword => exact .aborted hdec hword
  | fault hdec hpiece => exact .fault hdec hpiece
  | gaveUp hdec hopening he => exact .gaveUp hdec hopening he

/-- The slots a returned read popped are a piece of a message. -/
theorem RecvLog.Took.piece {r : RecvLog} {a : Except Errno Nat} (h : r.Took a) (hne : r.popped ≠ []) :
    ∃ frames, Decodes r.popped frames ∧ Piece frames ∧
      (IsMessage frames → a = .ok (payload frames).length ∧ r.buffer = Holding (payload frames) ∨ a = .error .EFAULT) := by
  cases h with
  | nothing hnil => exact absurd hnil hne
  | failed hnil => exact absurd hnil hne
  | message hdec hmsg _ _ hbuf => exact ⟨_, hdec, .inl (.inl hmsg), fun _ => .inl ⟨rfl, hbuf⟩⟩
  | aborted hdec hword => exact ⟨_, hdec, .inl (.inr hword), fun hmsg => absurd hmsg hword.not_message⟩
  | fault hdec hpiece =>
      refine ⟨_, hdec, ?_, fun _ => .inr rfl⟩
      rcases hpiece with hmsg | hopening
      · exact .inl (.inl hmsg)
      · exact .inr hopening
  | gaveUp hdec hopening =>
      rcases hopening with rfl | ⟨msg, hopening⟩
      · exact absurd (List.length_eq_zero_iff.mp hdec.length_eq.symm) hne
      · exact ⟨_, hdec, .inr ⟨msg, hopening⟩, fun hmsg => absurd hmsg hopening.not_message⟩

/-- What is known of a call at any time. -/
structure Drawn (taken : List Slot) (g : RecvLog) : Prop where
  stretch : g.popped ≠ [] → ∃ p, g.start = some p ∧ Stretch taken p g.popped
  settled : ∀ a, g.result = some a → g.Took a

theorem drawn_nil {taken : List Slot} {g : RecvLog} (h : g.popped = []) (hresult : ∀ a, g.result = some a → g.Took a) :
    Drawn taken g := ⟨fun hne => absurd h hne, hresult⟩

/-- The endpoint between calls: it has taken whole messages, or it is stuck. -/
def RecvFree (s : Inlet) : Prop :=
  s.taken.foldlM Receiver.accept messageReceiverInit = .ok s.rx ∧ s.rx.state = .idle ∨
    ∃ e, s.rx.state = .failed e ∧ Stuck e

/-- What the endpoint is used for: a slot is popped only after it was found. -/
def recvTerms : Terms (endpointIface ringIface Receiver) Inlet RecvLog where
  free := RecvFree
  held _ _ := True
  kept s g := Drawn s.taken g
  needs
    | .ring .pop, s, _ => s.seen ≠ none
    | _, _, _ => True
  grows s t := s.taken <+: t.taken
  grows_refl _ := List.prefix_rfl
  grows_trans h h' := h.trans h'
  stable h hgrows := by
    refine ⟨fun hne => ?_, h.settled⟩
    obtain ⟨p, hp, hstretch⟩ := h.stretch hne
    exact ⟨p, hp, hstretch.mono hgrows⟩

/-- The view from within the lock. -/
abbrev recvView : View (endpointIface ringIface Receiver) (Inlet × RecvLog) := recvTurns.inside recvTerms

/-! ## within the lock -/

/-- The call has the lock, found `before` taken and the receiver `rx₀` between
messages. -/
structure Entered (before : List Slot) (rx₀ : Receiver) (t : Inlet × RecvLog) : Prop where
  taken : t.1.taken = before ++ t.2.popped
  start : t.2.start = some before.length
  accepted : before.foldlM Receiver.accept messageReceiverInit = .ok rx₀
  idle : rx₀.state = .idle
  running : t.2.result = none

/-- The first slot of the call's turn, as far as it is known. -/
def firstSlot (t : Inlet × RecvLog) : Option Slot := (t.2.popped ++ t.1.seen.toList).head?

/-- Between `s` and `t` the call popped `slots`; `seen` is what it last found. -/
structure Draws (before : List Slot) (rx₀ : Receiver) (s : Inlet × RecvLog) (slots : List Slot)
    (seen : Option (Option Slot)) (t : Inlet × RecvLog) : Prop where
  entered : Entered before rx₀ t
  rx : t.1.rx = s.1.rx
  log : t.2 = { s.2 with popped := s.2.popped ++ slots }
  found : ∀ x, seen = some (some x) → t.1.seen = some x ∧ Wire (t.1.taken ++ [x])
  first : ∀ x, firstSlot s = some x → firstSlot t = some x

section Inside

variable {α β : Type} {target : NotifyTarget} {s t : Inlet} {g : RecvLog} {post : α → Inlet × RecvLog → Prop}
  {before : List Slot} {rx₀ : Receiver}

theorem Draws.refl {x : Inlet × RecvLog} (h : Entered before rx₀ x) : Draws before rx₀ x [] none x :=
  ⟨h, rfl, by simp, by rintro _ ⟨⟩, fun _ h => h⟩

theorem recv_popLog : PopLog recvView atomicRing (Draws before rx₀) where
  stable h hr _ := by
    obtain rfl := hr
    exact h
  peek {s slots seen t} h := by
    obtain ⟨t, g⟩ := t
    change recvView.Safe _ (.act (.ring .peek) _) (t, g)
    refine Turns.inside_act rfl trivial fun _ hkept found hfound => ?_
    obtain ⟨-, hlawful⟩ := hfound
    match found with
    | none =>
        refine ⟨⟨trivial, hkept⟩, List.prefix_rfl, Turns.inside_ret fun _ _ => ?_⟩
        exact ⟨h.entered, h.rx, h.log, by rintro _ ⟨⟩, h.first⟩
    | some slot =>
        obtain ⟨hsame, hwire⟩ := hlawful
        refine ⟨⟨trivial, hkept⟩, List.prefix_rfl, Turns.inside_ret fun _ _ => ?_⟩
        refine ⟨⟨h.entered.taken, h.entered.start, h.entered.accepted, h.entered.idle, h.entered.running⟩, h.rx, h.log,
          ?_, fun x hx => ?_⟩
        · rintro x ⟨⟩
          exact ⟨rfl, hwire⟩
        · have hfirst := h.first x hx
          cases hseen : t.seen with
          | none =>
              simp only [firstSlot, hseen, Option.toList_none, List.append_nil] at hfirst
              change (g.popped ++ [slot]).head? = some x
              rw [List.head?_append, hfirst]
              rfl
          | some y =>
              obtain rfl := hsame y hseen
              simp only [firstSlot, hseen] at hfirst
              exact hfirst
  pop {s slots slot t} h := by
    obtain ⟨t, g⟩ := t
    obtain ⟨hseen, -⟩ := h.found slot rfl
    change recvView.Safe _ (.act (.ring .pop) _) (t, g)
    change t.seen = some slot at hseen
    have hne : t.seen ≠ none := by simp [hseen]
    refine Turns.inside_act rfl hne fun _ hkept found _ => ?_
    have hact : (inlet.restrict Lawful).act (.ring .pop) found t = ⟨t.rx, t.taken ++ [slot], none⟩ := by
      simp [inlet, Monitor.restrict, hseen]
    have hnote : (inlet.restrict Lawful).note (.ring .pop) found t g = { g with popped := g.popped ++ [slot] } := by
      simp [inlet, Monitor.restrict, hseen]
    rw [hact, hnote]
    have htaken : t.taken ++ [slot] = before ++ (g.popped ++ [slot]) := by
      rw [show t.taken = before ++ g.popped from h.entered.taken, List.append_assoc]
    refine ⟨⟨trivial, fun _ => ⟨before.length, h.entered.start, ?_⟩, fun a ha => ?_⟩, List.prefix_append _ _,
      Turns.inside_ret fun _ _ => ⟨⟨htaken, h.entered.start, h.entered.accepted, h.entered.idle, h.entered.running⟩,
        h.rx, ?_, by rintro _ ⟨⟩, fun x hx => ?_⟩⟩
    · change Stretch (t.taken ++ [slot]) before.length (g.popped ++ [slot])
      rw [htaken]
      exact .of_append ⟨rx₀, h.entered.accepted, h.entered.idle⟩
    · exact absurd (h.entered.running.symm.trans ha) (by simp)
    · change { g with popped := g.popped ++ [slot] } = _
      rw [show g = { s.2 with popped := s.2.popped ++ slots } from h.log]
      simp
    · have hfirst := h.first x hx
      simp only [firstSlot, hseen] at hfirst
      simpa [firstSlot] using hfirst

/-! ### the services -/

variable (target) in
theorem recv_notifyPublisher : (notifyPublisher (R := ringIface) (S := Receiver) target).Each
    (Turns.Quiet (inlet.restrict Lawful) recvTerms) := by
  rw [notifyPublisher]
  split
  · exact ⟨⟨rfl, fun _ _ => trivial, fun _ _ => rfl, fun _ _ _ => rfl⟩, fun _ => trivial⟩
  · trivial

theorem recv_deadlineAfter (ms : Nat) : (deadlineAfter (R := ringIface) (S := Receiver) ms).Each
    (Turns.Quiet (inlet.restrict Lawful) recvTerms) :=
  ⟨⟨rfl, fun _ _ => trivial, fun _ _ => rfl, fun _ _ _ => rfl⟩, fun _ =>
    ⟨⟨rfl, fun _ _ => trivial, fun _ _ => rfl, fun _ _ _ => rfl⟩, fun _ => trivial⟩⟩

theorem recv_afterProgress (slots : Nat) (deadline : UInt64) :
    (afterProgress (R := ringIface) (S := Receiver) target slots deadline).Each
      (Turns.Quiet (inlet.restrict Lawful) recvTerms) := by
  rw [afterProgress]
  split
  · exact (recv_deadlineAfter _).bind fun _ => (recv_notifyPublisher target).bind fun _ => trivial
  · trivial

theorem recvView_load {f : Receiver → Prog (endpointIface ringIface Receiver) α}
    (hf : recvView.Safe post (f s.rx) (s, g)) : recvView.Safe post (kernel .load >>= f) (s, g) := by
  refine Turns.inside_quiet ⟨rfl, fun _ _ => trivial, fun _ _ => rfl, fun _ _ _ => rfl⟩ fun rx hrx => ?_
  obtain rfl : rx = s.rx := hrx.1
  exact hf

theorem recvView_store {rx : Receiver} {k : Unit → Prog (endpointIface ringIface Receiver) α}
    (hk : recvView.Safe post (k ()) ({ s with rx := rx }, g)) :
    recvView.Safe post (.act (.store rx) k) (s, g) :=
  Turns.inside_act rfl trivial fun _ hkept _ _ => ⟨⟨trivial, hkept⟩, List.prefix_rfl, hk⟩

/-- Giving up: the receiver is stuck from now on. -/
theorem recvView_poison {e : Errno} (he : Stuck e) (hg : g.Took (.error e)) :
    recvView.Safe (fun a t => RecvFree t.1 ∧ t.2.Took a) (poison e) (s, g) := by
  rw [poison, onReceiver]
  refine recvView_load (recvView_store (Turns.inside_ret fun _ _ => ⟨.inr ⟨e, rfl, he⟩, hg⟩))

/-- Copying to user memory what comes after `bytes`. -/
theorem recvView_copyAnyToUser {bytes : List UInt8} (output : List UInt8)
    {k : Nat → Prog (endpointIface ringIface Receiver) α} (hrunning : g.result = none)
    (hbuf : g.buffer = Holding bytes)
    (hok : recvView.Safe post (k 0) (s, { g with buffer := Holding (bytes ++ output) }))
    (hfault : output ≠ [] → ∀ uncopied buffer, uncopied ≠ 0 →
      recvView.Safe post (k uncopied) (s, { g with buffer := buffer })) :
    recvView.Safe post (copyAnyToUser bytes.length output >>= k) (s, g) := by
  rw [copyAnyToUser]
  split
  · next hne =>
      change recvView.Safe post (.act (.copyToUser bytes.length output) _) (s, g)
      refine Turns.inside_act rfl trivial fun _ hkept uncopied _ => ?_
      refine ⟨⟨trivial, hkept.stretch, fun a ha => absurd (hrunning.symm.trans ha) (by simp)⟩, List.prefix_rfl, ?_⟩
      by_cases hz : uncopied = 0
      · subst hz
        have hwrite : userWrite g.buffer bytes.length (output.take (output.length - 0)) = Holding (bytes ++ output) := by
          rw [hbuf, Nat.sub_zero, List.take_length, userWrite_holding]
        change recvView.Safe post (k 0) (s, { g with buffer := userWrite g.buffer bytes.length _ })
        rw [hwrite]
        exact hok
      · exact hfault (fun hnil => hne (by rw [hnil]; rfl)) uncopied _ hz
  · next hz =>
      have hnil : output = [] := List.length_eq_zero_iff.mp (Decidable.of_not_not hz)
      rw [hnil, List.append_nil, ← hbuf] at hok
      exact hok

/-- A call on the receiver of the endpoint. -/
theorem recvView_onReceiver {f : Receiver → Prog (endpointIface ringIface Receiver) (Receiver × β)}
    {k : β → Prog (endpointIface ringIface Receiver) α} {Q : List Slot → Option (Option Slot) → Receiver × β → Prop}
    (hf : recvView.Safe (Consumes (Draws before rx₀) (s, g) [] Q) (f s.rx) (s, g))
    (hk : ∀ slots seen rx b t, Draws before rx₀ (s, g) slots seen (t, { g with popped := g.popped ++ slots }) →
      Q slots seen (rx, b) →
      recvView.Safe post (k b) ({ t with rx := rx }, { g with popped := g.popped ++ slots })) :
    recvView.Safe post (onReceiver f >>= k) (s, g) := by
  rw [onReceiver, Prog.bind_assoc]
  refine recvView_load ?_
  rw [Prog.bind_assoc]
  refine View.Safe.bind (hf.mono ?_)
  rintro ⟨rx, b⟩ ⟨t, g'⟩ - ⟨slots, seen, hdraws, hq⟩
  rw [List.nil_append] at hdraws
  obtain rfl : g' = { g with popped := g.popped ++ slots } := hdraws.log
  exact recvView_store (hk slots seen rx b t hdraws hq)

/-! ### the loop -/

/-- The call is in the middle of a message of length `messageLen`, of which it
has received `bytes`. -/
structure Amid (before : List Slot) (rx₀ : Receiver) (messageLen : UInt64) (bytes : List UInt8) (s : Inlet)
    (g : RecvLog) : Prop where
  entered : Entered before rx₀ (s, g)
  takes : Takes rx₀ bytes g.popped s.rx
  buffer : g.buffer = Holding bytes
  fits : messageLen ≤ g.count
  first : ∃ x frame, firstSlot (s, g) = some x ∧ decodeFrame x = .ok frame ∧ frame.messageLen = messageLen
  nonempty : messageLen ≠ 0

section Loop

variable {messageLen : UInt64} {bytes b : List UInt8} {slots : List Slot} {slot : Slot} {rx rx' : Receiver}
  {frame : Frame} {transition : Transition} {seen : Option (Option Slot)}

/-- Slots that do not end a message are the start of one. -/
theorem Takes.opening (h : Takes rx bytes slots rx') (hidle : rx.state = .idle) :
    ∃ frames, Decodes slots frames ∧ payload frames = bytes ∧ (frames = [] ∨ ∃ msg, Opening msg frames) := by
  obtain ⟨frames, hdec, hpay, hparsed⟩ := h.parsed hidle
  rcases hparsed.state with ⟨-, hnil⟩ | ⟨-, hopening, -⟩
  · exact ⟨frames, hdec, hpay, .inl hnil⟩
  · exact ⟨frames, hdec, hpay, .inr ⟨_, hopening⟩⟩

/-- The receiver has got through everything taken. -/
theorem Amid.accepted (h : Amid before rx₀ messageLen bytes s g) :
    s.taken.foldlM Receiver.accept messageReceiverInit = .ok s.rx := by
  rw [show s.taken = before ++ g.popped from h.entered.taken, List.foldlM_append, h.entered.accepted]
  exact h.takes.accepted

/-- What comes next in a lawful stream is accepted. -/
theorem examine_of_wire {taken : List Slot} (hfold : taken.foldlM Receiver.accept messageReceiverInit = .ok rx)
    (hwire : Wire (taken ++ [slot])) : ∃ frame transition, rx.examine slot = .ok (frame, transition) := by
  obtain ⟨rx', hrx'⟩ := hwire.accepted
  obtain ⟨rx₁, hrx₁, haccept⟩ := foldlM_snoc.mp hrx'
  obtain rfl : rx = rx₁ := Except.ok.inj (hfold.symm.trans hrx₁)
  obtain ⟨frame, transition, hex, -⟩ := Receiver.accept_iff_examine.mp haccept
  exact ⟨frame, transition, hex⟩

/-- The endpoint after the last slot of a message. -/
theorem Amid.free (h : Amid before rx₀ messageLen bytes s g) (htakes : Takes s.rx b slots rx')
    (hex : rx'.examine slot = .ok (frame, transition)) (hidle : (rx'.commit transition).state = .idle) {t : Inlet}
    (ht : t.taken = before ++ (g.popped ++ (slots ++ [slot]))) : RecvFree { t with rx := rx'.commit transition } := by
  refine .inl ⟨?_, hidle⟩
  change t.taken.foldlM Receiver.accept messageReceiverInit = _
  rw [ht, List.foldlM_append, h.entered.accepted]
  change (g.popped ++ (slots ++ [slot])).foldlM Receiver.accept rx₀ = _
  rw [← List.append_assoc]
  exact foldlM_snoc.mpr ⟨rx', (h.takes.trans htakes).accepted, Receiver.accept_iff_examine.mpr ⟨_, _, hex, rfl⟩⟩

/-- The message is as long as announced. -/
theorem Amid.message (h : Amid before rx₀ messageLen bytes s g) (htakes : Takes s.rx b slots rx')
    (hex : rx'.examine slot = .ok (frame, transition)) (hc : transition.complete = true)
    (hdraws : Draws before rx₀ (s, g) (slots ++ [slot]) none (t, { g with popped := g.popped ++ (slots ++ [slot]) })) :
    (rx'.commit transition).state = .idle ∧ ∃ frames, Decodes (g.popped ++ (slots ++ [slot])) frames ∧
      IsMessage frames ∧ payload frames = bytes ++ (b ++ frame.fragment) ∧
      (payload frames).length = messageLen.toNat := by
  obtain ⟨hidle, frames, hdec, hmsg, hpay, -⟩ := (h.takes.trans htakes).message h.entered.idle hex hc
  rw [List.append_assoc] at hdec hpay
  obtain ⟨x, f, hx, hf, rfl⟩ := h.first
  have hfirst := hdraws.first x hx
  have hmem : x ∈ g.popped ++ (slots ++ [slot]) := by
    have hhead : (g.popped ++ (slots ++ [slot])).head? = some x := by
      change ((g.popped ++ (slots ++ [slot])) ++ _).head? = some x at hfirst
      rwa [List.head?_append_of_ne_nil _ (by simp)] at hfirst
    exact List.mem_of_head? hhead
  refine ⟨hidle, frames, hdec, hmsg, hpay, ?_⟩
  rw [(hmsg.frame (hdec.mem hmem hf)).2]

/-- After slots that do not end the message. -/
theorem recvView_recvProgress (deadline : UInt64)
    {again : Nat → UInt64 → Prog (endpointIface ringIface Receiver) (Except Errno Nat)}
    (h : Amid before rx₀ messageLen bytes s g) (htakes : Takes s.rx b slots rx')
    (hdraws : Draws before rx₀ (s, g) slots seen (t, { g with popped := g.popped ++ slots }))
    (hagain : ∀ s g deadline, Amid before rx₀ messageLen (bytes ++ b) s g →
      recvView.Safe (fun a t => RecvFree t.1 ∧ t.2.Took a) (again (bytes ++ b).length deadline) (s, g)) :
    recvView.Safe (fun a t => RecvFree t.1 ∧ t.2.Took a)
      (recvProgress target messageLen bytes.length deadline ⟨b, slots.length, false⟩ again)
      ({ t with rx := rx' }, { g with popped := g.popped ++ slots }) := by
  have hentered := hdraws.entered
  have htakes' := h.takes.trans htakes
  have hnext : Amid before rx₀ messageLen (bytes ++ b) { t with rx := rx' }
      { g with popped := g.popped ++ slots, buffer := Holding (bytes ++ b) } := by
    obtain ⟨x, f, hx, hf, hlen⟩ := h.first
    exact ⟨⟨hentered.taken, hentered.start, hentered.accepted, hentered.idle, hentered.running⟩, htakes', rfl, h.fits,
      ⟨x, f, hdraws.first x hx, hf, hlen⟩, h.nonempty⟩
  obtain ⟨frames, hdec, hpay, hopening⟩ := htakes'.opening h.entered.idle
  have hgive {e : Errno} (he : e = .ETIMEDOUT ∨ e = .ERESTARTSYS) :
      recvView.Safe (fun a t => RecvFree t.1 ∧ t.2.Took a) (poison e) ({ t with rx := rx' },
        { g with popped := g.popped ++ slots, buffer := Holding (bytes ++ b) }) :=
    recvView_poison (.inr he) (.gaveUp hdec hopening he)
  rw [recvProgress]
  refine Turns.inside_each (recv_afterProgress _ _) fun deadline => ?_
  refine recvView_copyAnyToUser b hentered.running h.buffer ?_ fun hout uncopied buffer hne => ?_
  · rw [if_neg (by simp), if_neg (by simp)]
    simp only [← List.length_append]
    split
    · exact hagain _ _ _ hnext
    · refine Turns.inside_quiet ⟨rfl, fun _ _ => trivial, fun _ _ => rfl, fun _ _ _ => rfl⟩ fun now _ => ?_
      change recvView.Safe _ (ite (timeAfterEq now deadline = true) _ _) _
      split
      · exact hgive (.inl rfl)
      · refine Turns.inside_quiet ⟨rfl, fun _ _ => trivial, fun _ _ => rfl, fun _ _ _ => rfl⟩ fun left _ => ?_
        change recvView.Safe _ (ite (left ≠ 0) _ _) _
        split
        · exact hgive (.inr rfl)
        · exact hagain _ _ _ hnext
  · rw [if_pos hne]
    refine recvView_poison (.inl rfl) (.fault hdec (.inr (hopening.resolve_left ?_)))
    rintro rfl
    exact hout (List.append_eq_nil_iff.mp hpay.symm).2

/-- After the last slot of the message. -/
theorem recvView_recvComplete (deadline : UInt64)
    {again : Nat → UInt64 → Prog (endpointIface ringIface Receiver) (Except Errno Nat)}
    (h : Amid before rx₀ messageLen bytes s g) (htakes : Takes s.rx b slots rx')
    (hex : rx'.examine slot = .ok (frame, transition)) (hc : transition.complete = true)
    (hdraws : Draws before rx₀ (s, g) (slots ++ [slot]) none (t, { g with popped := g.popped ++ (slots ++ [slot]) })) :
    recvView.Safe (fun a t => RecvFree t.1 ∧ t.2.Took a)
      (recvProgress target messageLen bytes.length deadline ⟨b ++ frame.fragment, slots.length + 1, true⟩ again)
      ({ t with rx := rx'.commit transition }, { g with popped := g.popped ++ (slots ++ [slot]) }) := by
  obtain ⟨hidle, frames, hdec, hmsg, hpay, hlen⟩ := h.message htakes hex hc hdraws
  rw [recvProgress]
  refine Turns.inside_each (recv_afterProgress _ _) fun deadline => ?_
  refine recvView_copyAnyToUser (b ++ frame.fragment) hdraws.entered.running h.buffer ?_ fun _ uncopied buffer hne => ?_
  · rw [if_neg (by simp), if_pos rfl, if_neg h.nonempty]
    refine Turns.inside_ret fun _ _ => ⟨h.free htakes hex hidle hdraws.entered.taken, ?_⟩
    have hcount : bytes.length + (b ++ frame.fragment).length = (payload frames).length := by
      rw [hpay]
      exact List.length_append.symm
    dsimp only
    rw [hcount]
    refine .message hdec hmsg ?_ ?_ (by rw [hpay])
    · intro hnil
      rw [hnil] at hlen
      exact h.nonempty (UInt64.toNat_inj.mp hlen.symm)
    · rw [hlen]
      exact UInt64.le_iff_toNat_le.mp h.fits
  · rw [if_pos hne]
    exact recvView_poison (.inl rfl) (.fault hdec (.inl hmsg))

/-- **The receive loop**, from the middle of a message on. -/
theorem recvView_recvLoop (deadline : UInt64) (iterations : Nat) (h : Amid before rx₀ messageLen bytes s g) :
    recvView.Safe (fun a t => RecvFree t.1 ∧ t.2.Took a)
      (recvLoop atomicRing target messageLen bytes.length deadline iterations) (s, g) := by
  induction iterations generalizing s g bytes deadline with
  | zero => exact fun _ _ _ => trivial
  | succ iterations ih =>
      rw [recvLoop]
      refine recvView_onReceiver (safe_messageTryRead recv_popLog fragmentCapacity (.refl h.entered)) ?_
      intro slots seen rx result t hdraws hres
      dsimp only at hres
      cases result with
      | ok progress =>
          cases hres with
          | empty _ htakes =>
              exact recvView_recvProgress deadline h htakes hdraws fun s g deadline h => ih deadline h
          | deferred _ htakes =>
              exact recvView_recvProgress deadline h htakes hdraws fun s g deadline h => ih deadline h
          | complete _ htakes hex hc => exact recvView_recvComplete deadline h htakes hex hc hdraws
      | error e =>
          cases hres with
          | failed hf => exact absurd hf (h.takes.not_failed h.entered.idle _)
          | @short _ frame _ _ hlong => exact absurd frame.fragment_le (Nat.not_le.mpr hlong)
          | @protocol slot _ _ hex =>
              -- The peer keeps to the protocol.
              obtain ⟨-, hwire⟩ := hdraws.found slot rfl
              have htaken : t.taken = s.taken := by
                rw [show t.taken = before ++ _ from hdraws.entered.taken,
                  show s.taken = before ++ _ from h.entered.taken, List.append_nil]
              obtain ⟨frame, transition, hex'⟩ := examine_of_wire h.accepted (htaken ▸ hwire)
              rw [hex] at hex'
              cases hex'
          | aborted hex hab =>
              obtain ⟨hidle, -, -, frames, hdec, hword⟩ := h.takes.aborted h.entered.idle hex hab
              refine Turns.inside_each (recv_notifyPublisher target) fun _ => Turns.inside_ret fun _ _ => ?_
              exact ⟨h.free .nil hex hidle hdraws.entered.taken, .aborted hdec hword⟩

end Loop

/-- `axivc_recv_message` between lock and unlock. -/
theorem recvView_recvLocked (iterations : Nat) (hfree : RecvFree s) (hstart : g.start = some s.taken.length)
    (hpopped : g.popped = []) (hbuf : g.buffer = Holding []) (hrunning : g.result = none) :
    recvView.Safe (fun a t => RecvFree t.1 ∧ t.2.Took a) (recvLocked atomicRing target iterations g.count) (s, g) := by
  rw [recvLocked]
  rcases hfree with ⟨hfold, hidle⟩ | ⟨e, hfailed, he⟩
  · -- It is between messages: what a peek finds begins one.
    have hentered : Entered s.taken s.rx (s, g) := ⟨by rw [hpopped, List.append_nil], hstart, hfold, hidle, hrunning⟩
    have hpeeks : recvView.Safe (Consumes (Draws s.taken s.rx) (s, g) []
        fun slots seen r => slots = [] ∧ PeekResult s.rx seen r.1 r.2) (messagePeekMeta atomicRing s.rx) (s, g) := by
      refine (safe_messagePeekMeta recv_popLog (.refl hentered)).mono ?_
      rintro r u - ⟨seen, hdraws, hpeek⟩
      exact ⟨[], seen, hdraws, rfl, hpeek⟩
    refine recvView_onReceiver hpeeks ?_
    · rintro slots seen rx result t hdraws ⟨rfl, hpeek⟩
      rw [List.append_nil] at hdraws
      have htaken : t.taken = s.taken := by
        rw [show t.taken = s.taken ++ g.popped from hdraws.entered.taken, hpopped, List.append_nil]
      -- The call returns, and nothing has changed.
      have hnone {a : Except Errno Nat} (ha : a = .ok 0 ∨ a = .error .EINTR ∨ a = .error .EMSGSIZE) :
          recvView.Safe (fun a t => RecvFree t.1 ∧ t.2.Took a) (.ret a)
            ({ t with rx := s.rx }, { g with popped := g.popped ++ [] }) := by
        refine Turns.inside_ret fun _ _ => ⟨.inl ⟨?_, hidle⟩, .nothing (by rw [List.append_nil, hpopped]) ha⟩
        rw [htaken]
        exact hfold
      dsimp only at hpeek
      cases hpeek with
      | failed hf => simp [hidle] at hf
      | receiving hrecv => simp [hidle] at hrecv
      | empty => exact hnone (.inl rfl)
      | @protocol slot e _ hex =>
          obtain ⟨-, hwire⟩ := hdraws.found slot rfl
          obtain ⟨frame, transition, hex'⟩ := examine_of_wire hfold (htaken ▸ hwire)
          rw [hex] at hex'
          cases hex'
      | @available slot frame _ hdec =>
          obtain ⟨hseen, hwire⟩ := hdraws.found slot rfl
          dsimp only
          split
          · exact hnone (.inr (.inr rfl))
          · next hfits =>
              refine Turns.inside_each (recv_deadlineAfter _) fun deadline => ?_
              rw [List.append_nil]
              have hamid : Amid s.taken s.rx frame.messageLen [] { t with rx := s.rx } g := by
                refine ⟨⟨hdraws.entered.taken, hstart, hfold, hidle, hrunning⟩, ?_, hbuf, UInt64.not_lt.mp hfits,
                  ⟨slot, frame, ?_, hdec, rfl⟩, hwire.nonempty slot (by simp) frame hdec⟩
                · rw [hpopped]
                  exact .nil
                · change (g.popped ++ t.seen.toList).head? = some slot
                  rw [hpopped, show t.seen = some slot from hseen]
                  rfl
              exact recvView_recvLoop deadline iterations hamid
  · -- A receiver that is stuck stays so.
    have hpeek : messagePeekMeta (atomicRing (S := Receiver)) s.rx = .ret (s.rx, .error e) := by
      rw [messagePeekMeta, hfailed]
      rfl
    rw [onReceiver, Prog.bind_assoc]
    refine recvView_load ?_
    rw [hpeek]
    exact recvView_store (Turns.inside_ret fun _ _ => ⟨.inr ⟨e, hfailed, he⟩, .failed hpopped he⟩)

end Inside

/-! ## every run -/

section Runs

variable {target : NotifyTarget}

/-- The body of a `read(2)` call. -/
abbrev readBody (target : NotifyTarget) (call : RecvArgs) : Prog (endpointIface ringIface Receiver) (Except Errno Nat) :=
  recvMessage atomicRing target call.iterations call.count

/-- Any number of `read(2)` calls, in a world that answers as `ok` says. -/
def readCalls (target : NotifyTarget)
    (ok : (o : EndpointOp ringIface Receiver) → Inlet → (endpointIface ringIface Receiver).Res o → Prop) :
    Machine Nat (endpointIface ringIface Receiver) (Guarded Inlet RecvLog) RecvArgs (Except Errno Nat) :=
  (inlet.restrict ok).calls (readBody target) .fresh .ends

/-- The outline of the calls whose peer keeps to the protocol. -/
abbrev readersOutline (target : NotifyTarget) : Machine.Outline (readCalls target Lawful) :=
  recvTurns.outline recvTerms (readBody target)

theorem recvFree_initial : RecvFree ⟨messageReceiverInit, [], none⟩ := .inl ⟨rfl, rfl⟩

theorem inlet_unlock : (inlet.restrict Lawful).gives .mutexUnlock = true ∧
    (∀ r, (inlet.restrict Lawful).takes .mutexUnlock r = false) ∧
    ∀ r h, (inlet.restrict Lawful).act .mutexUnlock r h = h := ⟨rfl, fun _ => rfl, fun _ _ => rfl⟩

theorem readers_safe (call : RecvArgs) (i : Nat) (s : Guarded Inlet RecvLog) (hown : s.owner ≠ some i)
    (hlog : s.log i = some (.fresh call)) :
    ((readersOutline target).view i).Safe ((readersOutline target).post i) (readBody target call) s := by
  unfold readBody recvMessage
  split
  · rintro t ⟨ht, -⟩ _
    refine ⟨fun h => hown (ht.owner.mp h), _, ht.log.trans hlog, drawn_nil rfl ?_⟩
    rintro a ⟨⟩
    exact .nothing rfl (.inl rfl)
  · refine Turns.safe_locked hown hlog rfl ⟨rfl, fun _ _ => rfl⟩ inlet_unlock (fun r h hallowed htakes hkept => ?_)
      fun r h htakes hfree hkept => ?_
    · obtain rfl : r = .error .EINTR := by
        rcases hallowed.1 with rfl | rfl
        · rfl
        · cases htakes
      refine ⟨_, rfl, hkept, drawn_nil rfl ?_⟩
      rintro a ⟨⟩
      exact .nothing rfl (.inr (.inl rfl))
    · obtain rfl : r = .ok () := by
        match r, htakes with
        | .ok (), _ => rfl
      refine ⟨trivial, drawn_nil rfl (by rintro a ⟨⟩), recvLocked atomicRing target call.iterations call.count, rfl, ?_⟩
      refine View.Safe.mono (recvView_recvLocked (g := { RecvLog.fresh call with start := some h.taken.length })
        call.iterations hfree rfl rfl DeviceRead.holding_nil.symm rfl) ?_
      rintro a ⟨t, g⟩ ⟨-, hkept'⟩ ⟨hfree', htook⟩
      refine ⟨hfree', trivial, fun _ => ⟨hkept', hkept'.stretch, ?_⟩⟩
      rintro b ⟨⟩
      exact htook.ends

/-- Every configuration any run reaches is good. -/
theorem readers_good {c : Config Nat (endpointIface ringIface Receiver) (Guarded Inlet RecvLog) (Except Errno Nat)}
    (hc : (readCalls target Lawful).Reachable (Monitor.initial ⟨messageReceiverInit, [], none⟩) c) :
    (readersOutline target).Good c :=
  Turns.good (fun _ _ _ => drawn_nil rfl (by rintro a ⟨⟩)) (fun _ _ _ _ => drawn_nil rfl (by rintro a ⟨⟩))
    readers_safe recvFree_initial rfl hc

end Runs

end Axivc
