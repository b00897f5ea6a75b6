import Axivc.Receiver

/-!
# Axivc.Batching

How the calls of `axivc_message_try_read` are cut does not change what is
received.

The slots are a fixed stream.  A `Reader` makes one call after the other,
each with an output length of its own; every look at the ring either finds
the next slot of the stream or finds none yet.  `digest` takes the slots one
at a time, without any calls: after `k` slots there is one record, one output
and one list of events, or the error of an earlier slot.  Every run agrees
with it between calls (`Reader.Level`), so any two runs agree with each other.
-/

namespace Axivc

open Prog Rely

/-- The end of a message, after so many slots: its LAST or its ABORT frame. -/
structure StreamEvent where
  position : Nat
  reset : Bool
  deriving DecidableEq

/-- A receiver, and what its calls have reported. -/
structure Reader where
  rx : Receiver
  /-- slots popped so far -/
  popped : Nat
  /-- bytes written by all calls, in order -/
  output : List UInt8
  /-- completions and resets reported -/
  events : List StreamEvent
  /-- the first protocol error reported -/
  error : Option Errno
  /-- slots popped when the latest call began -/
  started : Nat
  /-- whether the latest call found a slot when it first looked -/
  visible : Bool

namespace Reader

/-- A receiver just initialised. -/
def init : Reader := ⟨messageReceiverInit, 0, [], [], none, 0, false⟩

/-- After a call that left `rx` and returned `result`. -/
def finished (s : Reader) (rx : Receiver) : Except Errno ReceiveProgress → Reader
  | .ok progress =>
      { s with
        rx := rx
        output := s.output ++ progress.output
        events := s.events ++ if progress.complete then [⟨s.popped, false⟩] else [] }
  | .error .ECONNRESET => { s with rx := rx, events := s.events ++ [⟨s.popped, true⟩] }
  | .error .EMSGSIZE => { s with rx := rx }
  | .error e => { s with rx := rx, error := s.error <|> some e }

end Reader

/-- The ring as the reader sees it: what is there may not be visible yet.  A
reader has no use for a push. -/
inductive ReaderExec (stream : Nat → Slot) : (o : RingOp) → Reader → ringIface.Res o → Reader → Prop where
  | peek {s : Reader} {found : Option Slot} : found = none ∨ found = some (stream s.popped) →
      ReaderExec stream .peek s found { s with visible := if s.popped = s.started then found.isSome else s.visible }
  | pop {s : Reader} : ReaderExec stream .pop s () { s with popped := s.popped + 1 }
  | push {s : Reader} {slot : Slot} : ReaderExec stream (.push slot) s false s

/-- No further slot is in sight. -/
def Reader.unfed : (o : RingOp) → Reader → ringIface.Res o × Reader
  | .peek, s => (none, { s with visible := if s.popped = s.started then false else s.visible })
  | .pop, s => ((), { s with popped := s.popped + 1 })
  | .push _, s => (false, s)

/-- Calls of `axivc_message_try_read` with any output lengths. -/
def readsMachine (stream : Nat → Slot) :
    Machine Unit ringIface Reader Nat (Receiver × Except Errno ReceiveProgress) where
  body _ outputLen s := messageTryRead (fun o => op (I := ringIface) o) s.rx outputLen
  exec _ := ReaderExec stream
  start _ _ s t := t = { s with started := s.popped, visible := false }
  finish _ ret s t := t = s.finished ret.1 ret.2
  env _ _ := False

/-! ## one slot at a time -/

/-- What has been received after some slots. -/
structure Digest where
  rx : Receiver
  output : List UInt8
  events : List StreamEvent

/-- The events of a slot, the `k`-th of the stream. -/
def slotEvents (k : Nat) (transition : Transition) : List StreamEvent :=
  if transition.aborted then [⟨k, true⟩] else if transition.complete then [⟨k, false⟩] else []

/-- The first `k` slots of the stream, taken one at a time. -/
def digest (stream : Nat → Slot) : Nat → Except Errno Digest
  | 0 => .ok ⟨messageReceiverInit, [], []⟩
  | k + 1 =>
      match digest stream k with
      | .error e => .error e
      | .ok d =>
          match d.rx.examine (stream k) with
          | .error e => .error e
          | .ok (frame, transition) =>
              .ok ⟨d.rx.commit transition, d.output ++ frame.fragment, d.events ++ slotEvents (k + 1) transition⟩

section Digest

variable {stream : Nat → Slot} {k n : Nat} {d : Digest} {e : Errno}

theorem digest_succ (h : digest stream k = .ok d) {frame : Frame} {transition : Transition}
    (hex : d.rx.examine (stream k) = .ok (frame, transition)) :
    digest stream (k + 1) = .ok ⟨d.rx.commit transition, d.output ++ frame.fragment,
      d.events ++ slotEvents (k + 1) transition⟩ := by
  rw [digest, h]
  simp only [hex]

theorem digest_error (h : digest stream k = .ok d) (hex : d.rx.examine (stream k) = .error e) :
    digest stream (k + 1) = .error e := by
  rw [digest, h]
  simp only [hex]

/-- An error stays. -/
theorem digest_error_le (h : digest stream k = .error e) (hle : k ≤ n) : digest stream n = .error e := by
  induction n, hle using Nat.le_induction with
  | base => exact h
  | succ n _ ih => rw [digest, ih]

/-- Whoever has got further has taken the slots before. -/
theorem digest_ok_le (h : digest stream n = .ok d) (hle : k ≤ n) : ∃ d', digest stream k = .ok d' := by
  cases hk : digest stream k with
  | ok d' => exact ⟨d', rfl⟩
  | error e =>
      rw [digest_error_le hk hle] at h
      cases h

/-- Nobody takes a slot that is in error. -/
theorem digest_le_of_error (h : digest stream (k + 1) = .error e) (hn : digest stream n = .ok d) : n ≤ k := by
  by_contra hlt
  rw [digest_error_le h (by omega)] at hn
  cases hn

/-- The receiver of a digest has not failed. -/
theorem digest_not_failed (h : digest stream k = .ok d) (e : Errno) : d.rx.state ≠ .failed e := by
  induction k generalizing d with
  | zero =>
      cases h
      simp [messageReceiverInit]
  | succ k ih =>
      obtain ⟨d', hd'⟩ := digest_ok_le h (Nat.le_succ k)
      cases hex : d'.rx.examine (stream k) with
      | error e =>
          rw [digest_error hd' hex] at h
          cases h
      | ok step =>
          rw [digest_succ hd' hex] at h
          cases h
          exact Receiver.commit_not_failed hex e

/-- The slots of the stream from position `k` on. -/
def slice (stream : Nat → Slot) (k n : Nat) : List Slot := (List.range n).map fun i => stream (k + i)

theorem slice_succ : slice stream k (n + 1) = slice stream k n ++ [stream (k + n)] := by
  simp [slice, List.range_succ]

theorem length_slice : (slice stream k n).length = n := by simp [slice]

/-- Slots that end no message. -/
theorem Takes.digest_eq {rx rx' : Receiver} {bytes : List UInt8} {slots : List Slot} (h : Takes rx bytes slots rx')
    (hslots : slots = slice stream k slots.length) (hd : digest stream k = .ok d) (hrx : d.rx = rx) :
    digest stream (k + slots.length) = .ok ⟨rx', d.output ++ bytes, d.events⟩ := by
  induction h with
  | nil => simpa [← hrx] using hd
  | @snoc rx' bytes slots slot frame transition _ hex hcomplete haborted ih =>
      rw [List.length_append, List.length_singleton, slice_succ] at hslots
      obtain ⟨hinit, hslot⟩ := List.append_inj hslots (by rw [length_slice])
      obtain rfl : slot = stream (k + slots.length) := by simpa using hslot
      have hnext := digest_succ (ih hinit) hex
      rw [List.length_append, List.length_singleton, ← Nat.add_assoc, hnext]
      simp [slotEvents, haborted, hcomplete]

end Digest

/-! ## one call -/

namespace Reader

variable {stream : Nat → Slot} {s t : Reader} {d : Digest} {slots : List Slot} {seen : Option (Option Slot)}

/-- The receiver is the digest's, or it has failed on the next slot. -/
def Holds (stream : Nat → Slot) (s : Reader) (rx : Receiver) : Prop :=
  match s.error with
  | none => s.rx = rx
  | some e => s.rx.state = .failed e ∧ rx.examine (stream s.popped) = .error e

/-- Between calls: what the calls have reported is the digest of the slots
popped. -/
def Level (stream : Nat → Slot) (s : Reader) : Prop :=
  ∃ d, digest stream s.popped = .ok d ∧ d.output = s.output ∧ d.events = s.events ∧ s.Holds stream d.rx

/-- Since the call began at `s` the slots `slots` were popped, and `seen` is
what the last look has found. -/
structure Reads (stream : Nat → Slot) (s : Reader) (slots : List Slot) (seen : Option (Option Slot)) (t : Reader) :
    Prop where
  same : t = { s with popped := s.popped + slots.length, visible := t.visible }
  slots_eq : slots = slice stream s.popped slots.length
  seen_eq : ∀ slot, seen = some (some slot) → slot = stream t.popped
  visible_eq : slots = [] → t.visible = (seen.getD none).isSome

/-- The error of the slot at which the call began is reported by the call. -/
def Reports (stream : Nat → Slot) (s t : Reader) (result : Except Errno ReceiveProgress) : Prop :=
  ∀ e, digest stream (s.popped + 1) = .error e → t.visible = true ∨ s.error ≠ none → result = .error e

theorem Reads.popped_eq (h : Reads stream s slots seen t) : t.popped = s.popped + slots.length := by
  rw [h.same]

theorem Reads.output_eq (h : Reads stream s slots seen t) : t.output = s.output := by rw [h.same]

theorem Reads.events_eq (h : Reads stream s slots seen t) : t.events = s.events := by rw [h.same]

theorem Reads.error_eq (h : Reads stream s slots seen t) : t.error = s.error := by rw [h.same]

/-- A call that takes a slot begins at one that is not in error. -/
theorem Reports.of_taken {result : Except Errno ReceiveProgress} {k : Nat} (hd : digest stream k = .ok d)
    (hlt : s.popped < k) : Reports stream s t result := by
  intro e he
  obtain ⟨d', hd'⟩ := digest_ok_le hd hlt
  rw [hd'] at he
  cases he

/-- A receiver that has not failed is the digest's. -/
theorem Holds.of_not_failed {rx : Receiver} (h : s.Holds stream rx) (hnf : ∀ e, s.rx.state ≠ .failed e) :
    s.error = none ∧ s.rx = rx := by
  unfold Holds at h
  cases he : s.error with
  | none => exact ⟨rfl, by simpa only [he] using h⟩
  | some e =>
      rw [he] at h
      exact absurd h.1 (hnf e)

/-- A call that took slots without ending a message. -/
theorem Level.taken (hd : digest stream s.popped = .ok d) (hout : d.output = s.output) (hev : d.events = s.events)
    (hnone : s.error = none) (hrx : s.rx = d.rx) (hreads : Reads stream s slots seen t) {bytes : List UInt8}
    {rx' : Receiver} (htakes : Takes s.rx bytes slots rx') :
    Level stream (t.finished rx' (.ok ⟨bytes, slots.length, false⟩)) := by
  have hnext := htakes.digest_eq hreads.slots_eq hd hrx.symm
  rw [← hreads.popped_eq] at hnext
  refine ⟨_, hnext, ?_, ?_, ?_⟩
  · simp [finished, hout, hreads.output_eq]
  · simp [finished, hev, hreads.events_eq]
  · simp [Holds, finished, hreads.error_eq, hnone]

/-- The digest after a call whose last slot ended a message. -/
theorem Reads.ended (hd : digest stream s.popped = .ok d) (hrx : s.rx = d.rx) {slot : Slot}
    (hreads : Reads stream s (slots ++ [slot]) seen t) {bytes : List UInt8} {rx' : Receiver}
    (htakes : Takes s.rx bytes slots rx') {frame : Frame} {transition : Transition}
    (hex : rx'.examine slot = .ok (frame, transition)) :
    digest stream t.popped = .ok ⟨rx'.commit transition, d.output ++ bytes ++ frame.fragment,
      d.events ++ slotEvents t.popped transition⟩ := by
  have hslots := hreads.slots_eq
  rw [List.length_append, List.length_singleton, slice_succ] at hslots
  obtain ⟨hinit, hslot⟩ := List.append_inj hslots (by rw [length_slice])
  obtain rfl : slot = stream (s.popped + slots.length) := by simpa using hslot
  have hnext := digest_succ (htakes.digest_eq hinit hd hrx.symm) hex
  rw [hreads.popped_eq, List.length_append, List.length_singleton, ← Nat.add_assoc, hnext]

/-- **One call**: what is reported after it is again the digest, and the error
of the slot it began with is not passed over. -/
theorem Level.read (h : Level stream s) (hreads : Reads stream s slots seen t) {n : Nat} {rx' : Receiver}
    {result : Except Errno ReceiveProgress} (hr : ReadResult s.rx n slots seen rx' result) :
    Level stream (t.finished rx' result) ∧ Reports stream s t result := by
  obtain ⟨d, hd, hout, hev, hholds⟩ := h
  have hpopped := hreads.popped_eq
  have hd_nf := digest_not_failed hd
  cases hr with
  | @failed e _ hfailed =>
      rw [List.length_nil, Nat.add_zero] at hpopped
      cases he : s.error with
      | none =>
          rw [Holds, he] at hholds
          exact absurd (hholds ▸ hfailed) (hd_nf e)
      | some e' =>
          rw [Holds, he] at hholds
          obtain ⟨hstate, hex⟩ := hholds
          obtain rfl : e' = e := by simpa [hstate] using hfailed
          refine ⟨?_, fun e he _ => ?_⟩
          · rw [← hpopped] at hd hex
            rw [← hreads.output_eq] at hout
            rw [← hreads.events_eq] at hev
            rw [← hreads.error_eq] at he
            rcases Receiver.examine_error hd_nf hex with rfl | rfl <;>
              exact ⟨d, hd, hout, hev, by simp [Holds, finished, he, hfailed, hex]⟩
          · rw [digest_error hd hex] at he
            cases he
            rfl
  | empty hnf htakes =>
      obtain ⟨hnone, hrx⟩ := hholds.of_not_failed hnf
      have hlevel := Level.taken hd hout hev hnone hrx hreads htakes
      refine ⟨hlevel, ?_⟩
      cases slots with
      | nil =>
          rintro e - (hvis | herr)
          · rw [hreads.visible_eq rfl] at hvis
            cases hvis
          · exact absurd hnone herr
      | cons slot slots =>
          obtain ⟨d', hd', -⟩ := hlevel
          exact .of_taken hd' (by simp [finished, hpopped])
  | deferred hnf htakes hne =>
      obtain ⟨hnone, hrx⟩ := hholds.of_not_failed hnf
      have hlevel := Level.taken hd hout hev hnone hrx hreads htakes
      have hpos := List.length_pos_of_ne_nil hne
      obtain ⟨d', hd', hrest⟩ := hlevel
      exact ⟨⟨d', hd', hrest⟩, .of_taken hd' (by simp only [finished]; omega)⟩
  | complete hnf htakes hex hcomplete haborted =>
      obtain ⟨hnone, hrx⟩ := hholds.of_not_failed hnf
      have hnext := hreads.ended hd hrx htakes hex
      refine ⟨⟨_, hnext, ?_, ?_, ?_⟩, .of_taken hnext (by rw [hpopped]; simp)⟩
      · simp [finished, hout, hreads.output_eq]
      · simp [finished, hev, hreads.events_eq, slotEvents, hcomplete, haborted]
      · simp [Holds, finished, hreads.error_eq, hnone]
  | @aborted slot frame transition hex haborted =>
      obtain ⟨hnone, hrx⟩ := hholds.of_not_failed (Receiver.examine_not_failed hex)
      have hnext := Reads.ended hd hrx (show Reads stream s ([] ++ [slot]) _ _ from hreads) .nil hex
      have hempty : frame.fragment = [] := (frame.abort_shape (Receiver.examine_aborted hex haborted)).2.2
      refine ⟨⟨_, hnext, ?_, ?_, ?_⟩, .of_taken hnext (by rw [hpopped]; simp)⟩
      · simp [finished, hout, hreads.output_eq, hempty]
      · simp [finished, hev, hreads.events_eq, slotEvents, haborted]
      · simp [Holds, finished, hreads.error_eq, hnone]
  | @short slot frame transition hex hlong =>
      obtain ⟨hnone, hrx⟩ := hholds.of_not_failed (Receiver.examine_not_failed hex)
      have hslot := hreads.seen_eq slot rfl
      rw [List.length_nil, Nat.add_zero] at hpopped
      rw [hslot, hpopped, hrx] at hex
      refine ⟨⟨d, ?_, ?_, ?_, ?_⟩, .of_taken (digest_succ hd hex) (by omega)⟩
      · simpa [finished, hpopped] using hd
      · simp [finished, hout, hreads.output_eq]
      · simp [finished, hev, hreads.events_eq]
      · simp [Holds, finished, hreads.error_eq, hnone, hrx]
  | @protocol slot e hnf hex =>
      obtain ⟨hnone, hrx⟩ := hholds.of_not_failed hnf
      have hslot := hreads.seen_eq slot rfl
      rw [List.length_nil, Nat.add_zero] at hpopped
      rw [hslot, hpopped, hrx] at hex
      refine ⟨?_, fun e' he' _ => ?_⟩
      · rw [← hpopped] at hd hex
        rw [← hreads.output_eq] at hout
        rw [← hreads.events_eq] at hev
        rcases Receiver.examine_error hd_nf hex with rfl | rfl <;>
          exact ⟨d, hd, hout, hev, by simp [Holds, finished, hreads.error_eq, hnone, hex]⟩
      · rw [digest_error hd hex] at he'
        cases he'
        rfl

end Reader

/-! ## every run -/

open Reader

/-- Nothing but the reader moves. -/
def readsOutline (stream : Nat → Slot) : Machine.Outline (readsMachine stream) where
  inv _ := True
  wait _ _ := False
  rely _ s t := t = s
  guar _ s t := s.popped ≤ t.popped
  post _ ret t := Level stream (t.finished ret.1 ret.2) ∧
    ∀ e, digest stream (t.started + 1) = .error e → t.visible = true ∨ t.error ≠ none → ret.2 = .error e
  idle _ := Level stream
  rely_refl _ _ := rfl
  rely_trans _ {_ _ _} h h' := h'.trans h
  guar_rely hij := absurd rfl hij
  env_rely _ h := h.elim
  idle_stable h hr _ := hr ▸ h
  finish_ok {_ ret s t} _ hpost hf := by
    subst hf
    refine ⟨trivial, ?_, hpost.1⟩
    unfold finished
    split <;> exact Nat.le_refl _

section Runs

variable {stream : Nat → Slot} {s : Reader}
  {c : Config Unit ringIface Reader (Receiver × Except Errno ReceiveProgress)}

/-- A look finds the next slot of the stream or none, a pop takes it. -/
theorem reader_popLog : PopLog ((readsOutline stream).view ()) (fun o => op (I := ringIface) o)
    (fun s slots seen t => s.started = s.popped ∧ Reads stream s slots seen t) where
  stable h hr _ := by
    obtain rfl := hr
    exact h
  peek {s slots seen t} h := by
    obtain ⟨hstart, h⟩ := h
    intro t' hrely _
    obtain rfl := hrely
    refine ⟨trivial, ?_⟩
    rintro found u ⟨hfound⟩
    refine ⟨trivial, Nat.le_refl _, ?_⟩
    rintro _ rfl -
    refine ⟨hstart, ?_, h.slots_eq, ?_, fun hnil => ?_⟩
    · rw [h.same]
    · rintro slot ⟨rfl⟩
      simpa using hfound
    · subst hnil
      have hpopped := h.popped_eq
      have hstarted : t'.started = s.started := by rw [h.same]
      simp only [Option.getD_some]
      rw [if_pos (by rw [hpopped, hstarted, hstart]; rfl)]
  pop {s slots slot t} h := by
    obtain ⟨hstart, h⟩ := h
    rintro _ rfl -
    refine ⟨trivial, ?_⟩
    rintro _ u ⟨⟩
    refine ⟨trivial, Nat.le_succ _, ?_⟩
    rintro _ rfl -
    refine ⟨hstart, ?_, ?_, by simp, by simp⟩
    · rw [h.same]
      simp [Nat.add_assoc]
    · rw [List.length_append, List.length_singleton, slice_succ, ← h.slots_eq, ← h.popped_eq, ← h.seen_eq slot rfl]

theorem reader_starts (stream : Nat → Slot) : (readsOutline stream).Starts := by
  rintro ⟨⟩ outputLen s t - hlevel rfl
  refine ⟨trivial, Nat.le_refl _, ?_⟩
  have hreads : Reads stream { s with started := s.popped, visible := false } [] none
      { s with started := s.popped, visible := false } := ⟨by simp, rfl, by simp, fun _ => rfl⟩
  refine (safe_messageTryRead reader_popLog outputLen ⟨rfl, hreads⟩).mono ?_
  rintro ⟨rx, result⟩ u - ⟨slots, seen, ⟨-, hu⟩, hr⟩
  rw [List.nil_append] at hu
  obtain ⟨hnext, hreports⟩ := Level.read (s := { s with started := s.popped, visible := false }) hlevel hu hr
  refine ⟨hnext, fun e he hvis => hreports e ?_ ?_⟩
  · rw [hu.same] at he
    exact he
  · rw [← hu.error_eq]
    exact hvis

theorem reader_good (h : (readsMachine stream).Reachable .init c) : (readsOutline stream).Good c := by
  have hlevel : Level stream .init := ⟨_, rfl, rfl, rfl, rfl⟩
  exact (readsOutline stream).good (reader_starts stream) trivial (fun _ => hlevel) h

/-- In the middle of a call too, the slots popped are in order. -/
theorem reader_digest (h : (readsOutline stream).Good c) : ∃ d, digest stream c.shared.popped = .ok d := by
  obtain ⟨t, hle, d, hd, -⟩ : ∃ t : Reader, c.shared.popped ≤ t.popped ∧ Level stream t := by
    cases hth : c.thread () with
    | none => exact ⟨c.shared, Nat.le_refl _, (h.2 ()).1 hth⟩
    | some p =>
        -- Left alone, with no further slot in sight, the call returns.
        have hexec (o : RingOp) (s : Reader) : ReaderExec stream o s (s.unfed o).1 (s.unfed o).2 := by
          cases o with
          | peek => exact .peek (.inl rfl)
          | pop => exact .pop
          | push slot => exact .push
        obtain ⟨ret, t, -, hle, hlevel, -⟩ := View.Safe.ends (V := (readsOutline stream).view ())
          (g := fun o s => Reader.unfed o s) (R := fun s t => s.popped ≤ t.popped) hexec (fun _ h => h)
          (fun _ => Nat.le_refl _) (fun _ _ _ => Nat.le_trans) (fun _ _ h => h) ((h.2 ()).2 p hth) trivial
        refine ⟨t.finished ret.1 ret.2, ?_, hlevel⟩
        have hpopped : (t.finished ret.1 ret.2).popped = t.popped := by
          unfold finished
          split <;> rfl
        rwa [hpopped]
  exact digest_ok_le hd hle

/-- **Batching does not change what is received.**  Take any stream of slots,
and any two runs of `axivc_message_try_read` calls on it that differ in what
is visible at every look and in the output length of every call.

* Between calls, if both have popped the same number of slots, they have
  written the same bytes and reported the same completions and resets at the
  same positions, and if neither has reported a protocol error their records
  are the same.
* If one run has reported a protocol error, the other has popped no more slots
  than it, at any moment; and when a call of the other that began after as
  many slots is about to return, having found the next slot or failed before,
  it returns that same error. -/
theorem batching_invisible (stream : Nat → Slot)
    (c c' : Config Unit ringIface Reader (Receiver × Except Errno ReceiveProgress))
    (hc : (readsMachine stream).Reachable .init c) (hc' : (readsMachine stream).Reachable .init c')
    (hidle : c.thread () = none) :
    (c'.thread () = none → c.shared.popped = c'.shared.popped →
      c.shared.output = c'.shared.output ∧ c.shared.events = c'.shared.events ∧
      (c.shared.error = none → c'.shared.error = none → c.shared.rx = c'.shared.rx)) ∧
    ∀ e, c.shared.error = some e → c'.shared.popped ≤ c.shared.popped ∧
      ∀ rx result, c'.thread () = some (.ret (rx, result)) → c'.shared.started = c.shared.popped →
        c'.shared.visible = true ∨ c'.shared.error ≠ none → result = .error e := by
  have hgood := reader_good hc
  have hgood' := reader_good hc'
  obtain ⟨d, hd, hout, hev, hholds⟩ := (hgood.2 ()).1 hidle
  refine ⟨fun hidle' hpopped => ?_, fun e he => ?_⟩
  · obtain ⟨d', hd', hout', hev', hholds'⟩ := (hgood'.2 ()).1 hidle'
    rw [← hpopped, hd, Except.ok.injEq] at hd'
    subst hd'
    refine ⟨by rw [← hout, ← hout'], by rw [← hev, ← hev'], fun hnone hnone' => ?_⟩
    rw [Holds, hnone] at hholds
    rw [Holds, hnone'] at hholds'
    exact hholds.trans hholds'.symm
  · rw [Holds, he] at hholds
    have herror := digest_error hd hholds.2
    obtain ⟨d', hd'⟩ := reader_digest hgood'
    refine ⟨digest_le_of_error herror hd', fun rx result hret hstarted hvisible => ?_⟩
    exact (hgood'.post hret).2 e (by rw [hstarted]; exact herror) hvisible

/-- Every slot is in sight. -/
def Reader.fed (stream : Nat → Slot) : (o : RingOp) → Reader → ringIface.Res o × Reader
  | .peek, s => (some (stream s.popped), { s with visible := if s.popped = s.started then true else s.visible })
  | .pop, s => ((), { s with popped := s.popped + 1 })
  | .push _, s => (false, s)

/-- Instance: a slot of zeros is in error, whatever the output length. -/
theorem batching_invisible_zero : ∃ c c' : Config Unit ringIface Reader (Receiver × Except Errno ReceiveProgress),
    (readsMachine fun _ => Slot.zero).Reachable .init c ∧ (readsMachine fun _ => Slot.zero).Reachable .init c' ∧
    c.shared.error = some .EPROTONOSUPPORT ∧
    ∃ rx result, c'.thread () = some (.ret (rx, result)) ∧ result = .error .EPROTONOSUPPORT := by
  have hexec (o : RingOp) (s : Reader) : ReaderExec (fun _ => Slot.zero) o s
      (Reader.fed (fun _ => Slot.zero) o s).1 (Reader.fed (fun _ => Slot.zero) o s).2 := by
    cases o with
    | peek => exact .peek (.inr rfl)
    | pop => exact .pop
    | push slot => exact .push
  have hquiet : (readsMachine fun _ => Slot.zero).Reachable .init ⟨.init, fun _ => none⟩ := Relation.ReflTransGen.refl
  have hreturned := (hquiet.start () 0 rfl rfl).advance hexec 1
  have hfinished := hreturned.finish () (Function.update_self ..) rfl
  have hother := (hquiet.start () 232 rfl rfl).advance hexec 1
  refine ⟨_, _, hfinished, hother, rfl, _, _, rfl, ?_⟩
  exact ((batching_invisible _ _ _ hfinished hother rfl).2 _ rfl).2 _ _ rfl rfl (.inl rfl)

end Runs

end Axivc
