import Axivc.Lib.Rely
import Axivc.Exchange

/-!
# Axivc.ExchangeRuns

The two demo programs talking to each other.

Each direction of the channel is a queue of whole messages, which is what the
library and the driver make of the rings (`Axivc.Link`): a send that reports
the length of its message has put it into the queue, a receive that finds a
message takes the oldest.  Any call may fail, and a call that fails may or may
not have moved a message.

`exchange_agrees` is about every interleaving: neither program ever blames the
other for a message, and a program that passes knows what the other has done.
-/

namespace Axivc

namespace Exchange

open Prog Rely Demo AppProto

/-! ## the machine -/

/-- The messages that each side has sent, and the number that it has received. -/
structure Duplex where
  sent : DemoSide → List (List UInt8)
  taken : DemoSide → Nat
  started : DemoSide → Bool

namespace Duplex

def init : Duplex := ⟨fun _ => [], fun _ => 0, fun _ => false⟩

def push (s : Duplex) (i : DemoSide) (payload : List UInt8) : Duplex :=
  { s with sent := Function.update s.sent i (s.sent i ++ [payload]) }

def take (s : Duplex) (i : DemoSide) : Duplex := { s with taken := Function.update s.taken i (s.taken i + 1) }

/-- The oldest message that side `i` has not received. -/
def next (s : Duplex) (i : DemoSide) : Option (List UInt8) := (s.sent i.other)[s.taken i]?

end Duplex

/-- What a call of side `i` may do. -/
def Performs (i : DemoSide) : (o : AppOp) → Duplex → appIface.Res o → Duplex → Prop
  | .send payload, s, n, t => (t = s ∧ n ≠ .ofNat payload.length) ∨ t = s.push i payload
  | .recv _, s, r, t => (t = s ∧ (r.1 < 0 ∨ r.1 = 0)) ∨
      ∃ payload, s.next i = some payload ∧ t = s.take i ∧ (r.1 < 0 ∨ r = (.ofNat payload.length, payload))
  | _, s, _, t => t = s

/-- Both programs. -/
def exchangeMachine (lengths : AppLengths) (channelKey channelSize publisherId : UInt64) (targetCount : Nat) :
    Machine DemoSide appIface Duplex Unit Nat where
  body side _ _ :=
    match side with
    | .publisher => publishMain lengths channelKey channelSize
    | .subscriber => subscribeMain lengths publisherId channelKey targetCount
  exec := Performs
  start i _ s t := s.started i = false ∧ t = { s with started := Function.update s.started i true }
  finish _ _ s t := t = s
  env _ _ := False

/-- A program finds fault with a message. -/
def Complaint.isBlame : Complaint → Bool
  | .cannotEncode .. | .malformed | .badRequest .. | .badAck .. | .missingData _ | .unexpectedData _ | .badData ..
  | .unexpectedRequest => true
  | _ => false

/-! ## the outline -/

/-- All that a side sends. -/
def script (lengths : AppLengths) : DemoSide → List (List UInt8)
  | .publisher => patterns .request lengths.requests 1
  | .subscriber => patterns .data lengths.data 1 ++ ackPayloads 1 lengths.requests.length

/-- An ack is sent after its request has been received. -/
def Answers (lengths : AppLengths) : DemoSide → Nat → Nat → Prop
  | .publisher, _, _ => True
  | .subscriber, sent, taken => sent ≤ lengths.data.length + taken

/-- Each side follows its script. -/
structure Follows (lengths : AppLengths) (s : Duplex) : Prop where
  sent : ∀ i, s.sent i <+: script lengths i
  taken : ∀ i, s.taken i ≤ (s.sent i.other).length
  answers : ∀ i, Answers lengths i (s.sent i).length (s.taken i)

/-- What the other side leaves as it is. -/
def Leaves (i : DemoSide) (s t : Duplex) : Prop :=
  t.started i = s.started i ∧ t.sent i = s.sent i ∧ t.taken i = s.taken i

/-- Side `i` runs, is so far in its script, and has received so many messages. -/
structure Stands (lengths : AppLengths) (i : DemoSide) (sent taken : Nat) (s : Duplex) : Prop where
  started : s.started i = true
  sent_eq : s.sent i = (script lengths i).take sent
  taken_eq : s.taken i = taken

section Outline

variable (lengths : AppLengths) (channelKey channelSize publisherId : UInt64) (targetCount : Nat)

/-- A program that passes has sent and received everything. -/
def Passed (i : DemoSide) (ret : Nat) (s : Duplex) : Prop :=
  s.started i = true ∧ (ret = 0 → s.sent i = script lengths i ∧ s.taken i = (script lengths i.other).length)

def exchangeOutline :
    Machine.Outline (exchangeMachine lengths channelKey channelSize publisherId targetCount) where
  inv := Follows lengths
  pre _ o _ :=
    match o with
    | .complain complaint => complaint.isBlame = false
    | _ => True
  rely := Leaves
  guar i s t := ∀ j, j ≠ i → Leaves j s t
  post := Passed lengths
  idle i s := s.started i = false → s.sent i = [] ∧ s.taken i = 0
  rely_refl _ _ := ⟨rfl, rfl, rfl⟩
  rely_trans _ _ _ _ h h' := ⟨h'.1.trans h.1, h'.2.1.trans h.2.1, h'.2.2.trans h.2.2⟩
  guar_rely hij _ h := h _ (Ne.symm hij)
  env_rely _ h := h.elim
  idle_stable h hr _ hs := by
    rw [hr.1] at hs
    rw [hr.2.1, hr.2.2]
    exact h hs
  finish_ok {i a s t} hi hp hf := by
    obtain rfl : t = s := hf
    refine ⟨hi, fun _ _ => ⟨rfl, rfl, rfl⟩, fun h => ?_⟩
    rw [hp.1] at h
    cases h

end Outline

/-! ## the queues -/

section Queues

variable {lengths : AppLengths} {i j : DemoSide} {n taken : Nat} {s t : Duplex} {payload : List UInt8}

theorem Stands.stable (h : Stands lengths i n taken s) (hr : Leaves i s t) : Stands lengths i n taken t :=
  ⟨hr.1.trans h.started, hr.2.1.trans h.sent_eq, hr.2.2.trans h.taken_eq⟩

theorem sent_push_self : (s.push i payload).sent i = s.sent i ++ [payload] := Function.update_self ..

theorem taken_take_self : (s.take i).taken i = s.taken i + 1 := Function.update_self ..

theorem leaves_push (hj : j ≠ i) : Leaves j s (s.push i payload) := ⟨rfl, Function.update_of_ne hj .., rfl⟩

theorem leaves_take (hj : j ≠ i) : Leaves j s (s.take i) := ⟨rfl, rfl, Function.update_of_ne hj ..⟩

/-- The next message of the script is sent. -/
theorem Stands.push (h : Stands lengths i n taken s) (hpayload : (script lengths i)[n]? = some payload) :
    Stands lengths i (n + 1) taken (s.push i payload) := by
  refine ⟨h.started, ?_, h.taken_eq⟩
  rw [sent_push_self, h.sent_eq, List.take_add_one, hpayload]
  rfl

theorem Follows.push (h : Follows lengths s) (hs : Stands lengths i n taken s)
    (hpayload : (script lengths i)[n]? = some payload) (hanswers : Answers lengths i (n + 1) taken) :
    Follows lengths (s.push i payload) := by
  have hsent := (hs.push hpayload).sent_eq
  have hlength : ((s.push i payload).sent i).length = n + 1 := by
    rw [hsent, List.length_take]
    have hlt := (List.getElem?_eq_some_iff.mp hpayload).1
    omega
  refine ⟨fun j => ?_, fun j => ?_, fun j => ?_⟩
  · by_cases hj : j = i
    · rw [hj, hsent]
      exact List.take_prefix ..
    · rw [(leaves_push hj).2.1]
      exact h.sent j
  · refine Nat.le_trans (h.taken j) ?_
    by_cases hj : j.other = i
    · rw [hj, sent_push_self, List.length_append]
      exact Nat.le_add_right ..
    · rw [(leaves_push hj).2.1]
  · by_cases hj : j = i
    · rw [hj, hlength]
      exact hs.taken_eq ▸ hanswers
    · rw [(leaves_push hj).2.1]
      exact h.answers j

/-- A message is received. -/
theorem Follows.take (h : Follows lengths s) (hnext : s.next i = some payload) : Follows lengths (s.take i) := by
  refine ⟨h.sent, fun j => ?_, fun j => ?_⟩
  · by_cases hj : j = i
    · subst hj
      rw [taken_take_self]
      exact (List.getElem?_eq_some_iff.mp hnext).1
    · rw [(leaves_take hj).2.2]
      exact h.taken j
  · have hj := h.answers j
    cases j with
    | publisher => trivial
    | subscriber =>
        refine Nat.le_trans hj (Nat.add_le_add_left ?_ _)
        by_cases hi : DemoSide.subscriber = i
        · rw [← hi, taken_take_self]
          exact Nat.le_succ _
        · rw [(leaves_take hi).2.2]

/-- What a side receives is the next message of the other's script. -/
theorem Follows.next (h : Follows lengths s) (hs : Stands lengths i n taken s) (hnext : s.next i = some payload) :
    (script lengths i.other)[taken]? = some payload := by
  rw [Duplex.next, hs.taken_eq] at hnext
  obtain ⟨rest, hrest⟩ := h.sent i.other
  rw [← hrest, List.getElem?_append_left (List.getElem?_eq_some_iff.mp hnext).1]
  exact hnext

theorem Stands.take (h : Stands lengths i n taken s) : Stands lengths i n (taken + 1) (s.take i) := by
  refine ⟨h.started, h.sent_eq, ?_⟩
  rw [taken_take_self, h.taken_eq]

end Queues

/-! ## one call among the others -/

section Calls

variable {lengths : AppLengths} {i : DemoSide} {n taken : Nat} {s t : Duplex} {α : Type} {post : α → Duplex → Prop}

/-- The view of a side. -/
def side (lengths : AppLengths) (i : DemoSide) : View appIface Duplex where
  exec := Performs i
  inv := Follows lengths
  pre o _ :=
    match o with
    | .complain complaint => complaint.isBlame = false
    | _ => True
  wait _ := True
  rely := Leaves i
  guar s t := ∀ j, j ≠ i → Leaves j s t
  rely_refl _ := ⟨rfl, rfl, rfl⟩
  rely_trans h h' := ⟨h'.1.trans h.1, h'.2.1.trans h.2.1, h'.2.2.trans h.2.2⟩

/-- The calls that move no message. -/
def AppOp.isPlain : AppOp → Bool
  | .send _ | .recv _ | .complain _ => false
  | _ => true

theorem safe_plain {o : AppOp} {k : appIface.Res o → Prog appIface α} (ho : o.isPlain = true)
    (hk : ∀ r t, Leaves i s t → (side lengths i).Safe post (k r) t) : (side lengths i).Safe post (app o >>= k) s := by
  intro t ht hi
  refine ⟨?_, fun r u hu => ?_⟩
  · cases o <;> trivial
  · obtain rfl : u = t := by
      cases o <;> first | exact hu | cases ho
    exact ⟨hi, fun _ _ => ⟨rfl, rfl, rfl⟩, hk r u ht⟩

theorem safe_complain {complaint : Complaint} {a : α} (hblame : complaint.isBlame = false)
    (hpost : ∀ t, Leaves i s t → post a t) : (side lengths i).Safe post (complain complaint a) s := by
  intro t ht hi
  refine ⟨hblame, fun _ u hu => ?_⟩
  obtain rfl : u = t := hu
  exact ⟨hi, fun _ _ => ⟨rfl, rfl, rfl⟩, fun v hv _ => hpost v ((side lengths i).rely_trans ht hv)⟩

/-- The next message of the script is sent, or the program learns that it is
not. -/
theorem safe_send {payload : List UInt8} {k : Int32 → Prog appIface α} (hs : Stands lengths i n taken s)
    (hpayload : (script lengths i)[n]? = some payload) (hanswers : Answers lengths i (n + 1) taken)
    (hk : ∀ r t, t.started i = true → (r = .ofNat payload.length → Stands lengths i (n + 1) taken t) →
      (side lengths i).Safe post (k r) t) : (side lengths i).Safe post (app (.send payload) >>= k) s := by
  intro t ht hi
  have ht' := hs.stable ht
  refine ⟨trivial, fun r u hu => ?_⟩
  obtain ⟨rfl, hr⟩ | rfl := hu
  · exact ⟨hi, fun _ _ => ⟨rfl, rfl, rfl⟩, hk r u ht'.started fun h => absurd h hr⟩
  · exact ⟨hi.push ht' hpayload hanswers, fun _ hj => leaves_push hj, hk r _ ht'.started fun _ => ht'.push hpayload⟩

/-- What a search for a message has found. -/
def Finds (lengths : AppLengths) (i : DemoSide) (n taken : Nat) (found : Option (List UInt8)) (s : Duplex) : Prop :=
  s.started i = true ∧ ∀ payload, found = some payload →
    (script lengths i.other)[taken]? = some payload ∧ Stands lengths i n (taken + 1) s

theorem finds_none (h : s.started i = true) : Finds lengths i n taken none s := ⟨h, by simp⟩

end Calls

/-! ## messages -/

section Messages

variable {lengths : AppLengths} {i : DemoSide} {kind : AppKind} {payload : List UInt8} {first : Nat} {table : List Nat}

theorem exists_of_mem_patterns (h : payload ∈ patterns kind table first) :
    ∃ len ∈ table, ∃ sequence, payload = patternPayload kind sequence len := by
  induction table generalizing first with
  | nil => cases h
  | cons len rest ih =>
      obtain rfl | h := List.mem_cons.mp h
      · exact ⟨len, List.mem_cons_self .., _, rfl⟩
      · obtain ⟨len', hlen', hpayload⟩ := ih h
        exact ⟨len', List.mem_cons_of_mem _ hlen', hpayload⟩

/-- A message of a script is neither empty nor too long. -/
theorem length_of_mem_script (h : payload ∈ script lengths i) : 0 < payload.length ∧ payload.length ≤ appMaxMessageLen := by
  have hpattern (kind : AppKind) (table : List Nat) (htable : ∀ len ∈ table, len ∈ lengths.requests ++ lengths.data)
      (first : Nat) (h : payload ∈ patterns kind table first) :
      0 < payload.length ∧ payload.length ≤ appMaxMessageLen := by
    obtain ⟨len, hlen, sequence, rfl⟩ := exists_of_mem_patterns h
    obtain ⟨hmin, hmax⟩ := lengths.fits len (htable len hlen)
    rw [length_patternPayload kind sequence hmin]
    exact ⟨Nat.lt_of_lt_of_le (by decide) hmin, hmax⟩
  cases i with
  | publisher => exact hpattern .request lengths.requests (fun _ h => List.mem_append_left _ h) 1 h
  | subscriber =>
      obtain h | h := List.mem_append.mp h
      · exact hpattern .data lengths.data (fun _ h => List.mem_append_right _ h) 1 h
      · obtain ⟨n, -, rfl⟩ := List.mem_map.mp h
        rw [length_ack]
        decide

/-- A receive of such a message is no failure, and finds something. -/
theorem found_of_length (hpos : 0 < payload.length) (hmax : payload.length ≤ appMaxMessageLen) :
    ¬ Int32.ofNat payload.length < 0 ∧ Int32.ofNat payload.length ≠ 0 := by
  have hmax : payload.length ≤ 7484 := hmax
  have hint : (Int32.ofNat payload.length).toInt = payload.length := Int32.toInt_ofNat_of_lt (by omega)
  constructor
  · rw [Int32.lt_iff_toInt_lt, hint]
    exact Int.not_lt.mpr (Int.natCast_nonneg _)
  · intro hzero
    rw [hzero] at hint
    have hnonzero : (0 : Int) ≠ payload.length := by omega
    exact hnonzero hint

end Messages

/-! ## the loops -/

section Loops

variable {lengths : AppLengths} {i : DemoSide} {n taken : Nat} {s t : Duplex}

theorem Finds.stable {found : Option (List UInt8)} (h : Finds lengths i n taken found s) (hr : Leaves i s t) :
    Finds lengths i n taken found t :=
  ⟨hr.1.trans h.1, fun payload hfound => ⟨(h.2 payload hfound).1, (h.2 payload hfound).2.stable hr⟩⟩

theorem safe_poll {onEmpty : Prog appIface (Option (List UInt8))} (hs : Stands lengths i n taken s)
    (hempty : ∀ t, Stands lengths i n taken t → (side lengths i).Safe (Finds lengths i n taken) onEmpty t) :
    (side lengths i).Safe (Finds lengths i n taken) (poll i onEmpty) s := by
  intro t ht hi
  have ht' := hs.stable ht
  have hfailed (u : Duplex) (hu : u.started i = true) :
      (side lengths i).Safe (Finds lengths i n taken) (complain (.readFailed i) none) u :=
    safe_complain rfl fun v hv => finds_none (hv.1.trans hu)
  refine ⟨trivial, fun r u hu => ?_⟩
  obtain ⟨m, payload⟩ := r
  obtain ⟨rfl, hnone⟩ | ⟨found, hnext, rfl, hfound⟩ := hu
  · refine ⟨hi, fun _ _ => ⟨rfl, rfl, rfl⟩, ?_⟩
    change (side lengths i).Safe _ (if m < 0 then _ else if m = 0 then _ else _) u
    split
    · exact hfailed u ht'.started
    · next hnonneg =>
      rw [if_pos (hnone.resolve_left hnonneg)]
      exact hempty u ht'
  · refine ⟨hi.take hnext, fun _ hj => leaves_take hj, ?_⟩
    change (side lengths i).Safe _ (if m < 0 then _ else if m = 0 then _ else _) _
    split
    · exact hfailed _ ht'.started
    · next hnonneg =>
      obtain ⟨rfl, rfl⟩ := Prod.mk.inj (hfound.resolve_left hnonneg)
      have hscript := hi.next ht' hnext
      obtain ⟨hpos, hmax⟩ := length_of_mem_script (List.mem_of_getElem? hscript)
      rw [if_neg (found_of_length hpos hmax).2]
      have hfinds : Finds lengths i n taken (some payload) (t.take i) := by
        refine ⟨ht'.started, ?_⟩
        rintro _ ⟨⟩
        exact ⟨hscript, ht'.take⟩
      exact fun v hv _ => hfinds.stable hv

/-- A search for a message finds the next one of the other's script. -/
theorem safe_nextPayload (left : Nat) (hs : Stands lengths i n taken s) :
    (side lengths i).Safe (Finds lengths i n taken) (nextPayload i left) s := by
  induction left generalizing s with
  | zero =>
      refine safe_poll hs fun t ht => safe_complain rfl fun u hu => ?_
      exact finds_none (hu.1.trans ht.started)
  | succ left ih =>
      refine safe_poll hs fun t ht => ?_
      exact safe_plain rfl fun _ u hu => ih (ht.stable hu)

/-- A part of the script is sent. -/
theorem safe_sendPatterns {kind : AppKind} {table : List Nat}
    (hfits : ∀ len ∈ table, appHeaderLen ≤ len ∧ len ≤ appMaxMessageLen) {index : Nat} {rest : List (List UInt8)}
    (hscript : (script lengths i).drop n = patterns kind table (index + 1) ++ rest)
    (hanswers : ∀ m, m ≤ n + table.length → Answers lengths i m taken) (hs : Stands lengths i n taken s) :
    (side lengths i).Safe (fun ok t => t.started i = true ∧ (ok = true → Stands lengths i (n + table.length) taken t))
      (sendPatterns kind table index) s := by
  induction table generalizing index n s with
  | nil => exact fun t ht _ => ⟨(hs.stable ht).started, fun _ => hs.stable ht⟩
  | cons len table ih =>
      obtain ⟨hlen, hmax⟩ := hfits len (List.mem_cons_self ..)
      have hnext : (script lengths i)[n]? = some (patternPayload kind (.ofNat (index + 1)) len) := by
        rw [← List.head?_drop, hscript]
        rfl
      simp only [sendPatterns, appEncodePattern_replicate hlen hmax]
      refine safe_send hs hnext (hanswers _ (by simp)) fun r t hstarted hsent => ?_
      rw [length_patternPayload kind _ hlen] at hsent
      split
      · exact safe_complain rfl fun u hu => ⟨hu.1.trans hstarted, by simp⟩
      · next hwhole =>
        have hdrop : (script lengths i).drop (n + 1) = patterns kind table (index + 1 + 1) ++ rest := by
          rw [← List.drop_drop, hscript]
          rfl
        have hrest := ih (fun len h => hfits len (List.mem_cons_of_mem _ h)) hdrop
          (fun m hm => hanswers m (by simp; omega)) (hsent (not_not.mp hwhole))
        rw [Nat.add_assoc, Nat.add_comm 1] at hrest
        exact hrest

theorem safe_sendAck {sequence : UInt64} (hnext : (script lengths i)[n]? = some (payloadOf .ack sequence linuxAck))
    (hanswers : Answers lengths i (n + 1) taken) (hs : Stands lengths i n taken s) :
    (side lengths i).Safe (fun ok t => t.started i = true ∧ (ok = true → Stands lengths i (n + 1) taken t))
      (sendAck sequence) s := by
  simp only [sendAck, appEncodeText_linuxAck]
  refine safe_send hs (by rw [take_ack]; exact hnext) hanswers fun r t hstarted hsent => ?_
  rw [take_ack, length_ack] at hsent
  split
  · exact safe_complain rfl fun u hu => ⟨hu.1.trans hstarted, by simp⟩
  · next hwhole =>
    have hstands := hsent (not_not.mp hwhole)
    exact fun u hu _ => ⟨hu.1.trans hstarted, fun _ => hstands.stable hu⟩

/-- The requests are those of the publisher's script, the acks those of the
subscriber's. -/
theorem safe_receiveRequests {table : List Nat}
    (hfits : ∀ len ∈ table, appHeaderLen ≤ len ∧ len ≤ appMaxMessageLen) {received : Nat}
    (hrequests : (script lengths .publisher).drop received = patterns .request table (received + 1))
    (hacks : (script lengths .subscriber).drop (lengths.data.length + received) = ackPayloads (received + 1) table.length)
    (hs : Stands lengths .subscriber (lengths.data.length + received) received s) :
    (side lengths .subscriber).Safe (fun ok t => t.started .subscriber = true ∧ (ok = true →
        Stands lengths .subscriber (lengths.data.length + received + table.length) (received + table.length) t))
      (receiveRequests table received) s := by
  induction table generalizing received s with
  | nil => exact fun t ht _ => ⟨(hs.stable ht).started, fun _ => hs.stable ht⟩
  | cons len table ih =>
      obtain ⟨hlen, hmax⟩ := hfits len (List.mem_cons_self ..)
      refine View.Safe.bind ((safe_nextPayload maxEmptyPolls hs).mono fun found t _ ht => ?_)
      cases found with
      | none => exact fun u hu _ => ⟨hu.1.trans ht.1, by simp⟩
      | some payload =>
          obtain ⟨hpayload, hstands⟩ := ht.2 payload rfl
          have hexpected : payload = patternPayload .request (.ofNat (received + 1)) len := by
            have hhead : (script lengths .publisher)[received]? = some payload := hpayload
            rw [← List.head?_drop, hrequests] at hhead
            exact (Option.some.inj hhead).symm
          have hnext : (script lengths .subscriber)[lengths.data.length + received]? =
              some (payloadOf .ack (.ofNat (received + 1)) linuxAck) := by
            rw [← List.head?_drop, hacks]
            rfl
          have hdecode := appDecode_patternPayload .request (.ofNat (received + 1)) hmax
          have hvalid := (eq_patternPayload_iff .request (.ofNat (received + 1)) hlen hmax hdecode).mp rfl
          rw [← hexpected] at hdecode
          simp only [hdecode, hvalid, Bool.not_true, Bool.false_eq_true, if_false]
          refine View.Safe.bind ((safe_sendAck hnext (Nat.le_refl _) hstands).mono fun acked u _ hu => ?_)
          cases acked with
          | false => exact fun v hv _ => ⟨hv.1.trans hu.1, by simp⟩
          | true =>
              have hrequests' : (script lengths .publisher).drop (received + 1) = patterns .request table (received + 1 + 1) := by
                rw [← List.drop_drop, hrequests]
                rfl
              have hacks' : (script lengths .subscriber).drop (lengths.data.length + (received + 1)) =
                  ackPayloads (received + 1 + 1) table.length := by
                rw [← Nat.add_assoc, ← List.drop_drop, hacks, List.length_cons, ackPayloads_succ]
                rfl
              have hrest := ih (fun len h => hfits len (List.mem_cons_of_mem _ h)) hrequests' hacks' (hu.2 rfl)
              rw [List.length_cons, Nat.add_comm table.length 1, ← Nat.add_assoc, ← Nat.add_assoc]
              exact hrest

/-- The replies are those of the subscriber's script, of which all data comes
first. -/
theorem safe_receiveReplies {acks expectedAck expectedData : Nat} {data : List Nat}
    (hfits : ∀ len ∈ data, appHeaderLen ≤ len ∧ len ≤ appMaxMessageLen) (hlast : acks = 0 → data = [])
    (hreplies : (script lengths .subscriber).drop taken = patterns .data data expectedData ++ ackPayloads expectedAck acks)
    (hs : Stands lengths .publisher n taken s) :
    (side lengths .publisher).Safe (fun ok t => t.started .publisher = true ∧
        (ok = true → Stands lengths .publisher n (taken + (data.length + acks)) t))
      (receiveReplies acks expectedAck data expectedData) s := by
  induction hleft : data.length + acks generalizing acks expectedAck data expectedData taken s with
  | zero =>
      obtain rfl : acks = 0 := by omega
      rw [receiveReplies.eq_def]
      exact fun t ht _ => ⟨(hs.stable ht).started, fun _ => hs.stable ht⟩
  | succ left ih =>
      obtain ⟨acks, rfl⟩ : ∃ m, acks = m + 1 := by
        refine Nat.exists_eq_succ_of_ne_zero fun hzero => ?_
        rw [hzero, hlast hzero] at hleft
        cases hleft
      rw [receiveReplies.eq_def]
      refine View.Safe.bind ((safe_nextPayload maxEmptyPolls hs).mono fun found t _ ht => ?_)
      cases found with
      | none => exact fun u hu _ => ⟨hu.1.trans ht.1, by simp⟩
      | some payload =>
          obtain ⟨hpayload, hstands⟩ := ht.2 payload rfl
          have hhead : (script lengths .subscriber)[taken]? = some payload := hpayload
          rw [← List.head?_drop, hreplies] at hhead
          rw [Nat.add_comm left 1, ← Nat.add_assoc]
          cases data with
          | nil =>
              rw [ackPayloads_succ] at hhead hreplies
              obtain rfl : payloadOf .ack (.ofNat expectedAck) linuxAck = payload := Option.some.inj hhead
              have hdecode : appDecode (payloadOf .ack (.ofNat expectedAck) linuxAck) =
                some ⟨.ack, .ofNat expectedAck, linuxAck⟩ := appDecode_append .ack (.ofNat expectedAck) (by decide)
              have hvalid : appAckBodyIsValid linuxAck = true := appAckBodyIsValid_iff.mpr (.inr rfl)
              simp only [hdecode, hvalid, ne_eq, not_true_eq_false, Bool.not_true, Bool.false_eq_true, or_self, and_false,
                if_false]
              refine ih hfits (fun _ => rfl) ?_ hstands (by simp at hleft ⊢; omega)
              rw [← List.drop_drop, hreplies]
              rfl
          | cons len data =>
              obtain ⟨hlen, hmax⟩ := hfits len (List.mem_cons_self ..)
              obtain rfl : patternPayload .data (.ofNat expectedData) len = payload := Option.some.inj hhead
              have hdecode := appDecode_patternPayload .data (.ofNat expectedData) hmax
              have hvalid := (eq_patternPayload_iff .data (.ofNat expectedData) hlen hmax hdecode).mp rfl
              simp only [hdecode, hvalid, Bool.not_true, Bool.false_eq_true, if_false]
              refine ih (fun len h => hfits len (List.mem_cons_of_mem _ h)) (by simp) ?_ hstands (by simp at hleft ⊢; omega)
              rw [← List.drop_drop, hreplies]
              rfl

end Loops

/-! ## the programs -/

section Programs

variable {lengths : AppLengths} {i : DemoSide} {n taken ret : Nat} {s t : Duplex}

theorem Passed.stable (h : Passed lengths i ret s) (hr : Leaves i s t) : Passed lengths i ret t := by
  rw [Passed, hr.1, hr.2.1, hr.2.2]
  exact h

/-- A program that does not pass. -/
theorem passed_of_ne (hret : ret ≠ 0) (h : s.started i = true) : Passed lengths i ret s :=
  ⟨h, fun hzero => absurd hzero hret⟩

theorem safe_closeManager (h : Passed lengths i ret s) : (side lengths i).Safe (Passed lengths i) (closeManager ret) s := by
  refine safe_plain rfl fun status t ht => ?_
  have ht := h.stable ht
  split
  · exact safe_complain rfl fun u hu => passed_of_ne (by decide) (hu.1.trans ht.1)
  · exact fun u hu _ => ht.stable hu

/-- Either `main`, when the exchange leads to the end of the scripts. -/
theorem safe_demoMain {create exchange : Prog appIface Bool} (hs : Stands lengths i 0 0 s)
    (hcreate : ∀ t, Stands lengths i 0 0 t → (side lengths i).Safe (fun _ u => Stands lengths i 0 0 u) create t)
    (hexchange : ∀ t, Stands lengths i 0 0 t → (side lengths i).Safe (fun ok u => u.started i = true ∧
      (ok = true → Stands lengths i (script lengths i).length (script lengths i.other).length u)) exchange t) :
    (side lengths i).Safe (Passed lengths i) (demoMain i create exchange) s := by
  refine safe_plain rfl fun manager t ht => ?_
  have ht := hs.stable ht
  split
  · exact safe_complain rfl fun u hu => passed_of_ne (by decide) (hu.1.trans ht.started)
  · refine View.Safe.bind ((hcreate t ht).mono fun endpoint u _ hu => ?_)
    split
    · refine View.Safe.bind (safe_complain rfl fun v hv => ?_)
      exact safe_closeManager (passed_of_ne (by decide) (hv.1.trans hu.started))
    · have huse : (side lengths i).Safe (Passed lengths i) (useEndpoint i exchange) u := by
        refine View.Safe.bind ((hexchange u hu).mono fun passed v _ hv => ?_)
        refine safe_plain rfl fun status w hw => ?_
        split
        · exact safe_complain rfl fun x hx => passed_of_ne (by decide) (hx.1.trans (hw.1.trans hv.1))
        · have hpassed : Passed lengths i (if passed then 0 else 3) w := by
            cases passed with
            | false => exact passed_of_ne (by decide) (hw.1.trans hv.1)
            | true =>
                have hend := (hv.2 rfl).stable hw
                refine ⟨hend.started, fun _ => ⟨?_, hend.taken_eq⟩⟩
                rw [hend.sent_eq, List.take_length]
          exact fun x hx _ => hpassed.stable hx
      exact View.Safe.bind (huse.mono fun ret v _ hv => safe_closeManager hv)

theorem length_patterns (kind : AppKind) (table : List Nat) (first : Nat) :
    (patterns kind table first).length = table.length := by
  induction table generalizing first with
  | nil => rfl
  | cons len table ih => exact congrArg (· + 1) (ih (first + 1))

theorem length_ackPayloads (first count : Nat) : (ackPayloads first count).length = count := by simp [ackPayloads]

theorem safe_publishMain (hrequests : lengths.requests ≠ []) (channelKey channelSize : UInt64)
    (hs : Stands lengths .publisher 0 0 s) :
    (side lengths .publisher).Safe (Passed lengths .publisher) (publishMain lengths channelKey channelSize) s := by
  refine safe_demoMain hs (fun t ht => ?_) fun t ht => ?_
  · exact safe_plain rfl fun _ u hu v hv _ => (ht.stable hu).stable hv
  · have hscript : (script lengths .publisher).drop 0 = patterns .request lengths.requests (0 + 1) ++ [] := by
      simp [script]
    have hreplies : (script lengths .subscriber).drop 0 =
      patterns .data lengths.data 1 ++ ackPayloads 1 lengths.requests.length := rfl
    have hlengths : (script lengths .publisher).length = 0 + lengths.requests.length ∧
        (script lengths .subscriber).length = 0 + (lengths.data.length + lengths.requests.length) := by
      simp [script, length_patterns, length_ackPayloads]
    refine View.Safe.bind ((safe_sendPatterns (fun len h => lengths.fits len (List.mem_append_left _ h)) hscript
      (fun _ _ => trivial) ht).mono fun ok u _ hu => ?_)
    cases ok with
    | false => exact fun v hv _ => ⟨hv.1.trans hu.1, by simp⟩
    | true =>
        rw [DemoSide.other, hlengths.1, hlengths.2]
        exact safe_receiveReplies (fun len h => lengths.fits len (List.mem_append_right _ h))
          (fun hnone => absurd (List.length_eq_zero_iff.mp hnone) hrequests) hreplies (hu.2 rfl)

theorem safe_subscribeMain (publisherId channelKey : UInt64) (targetCount : Nat)
    (hs : Stands lengths .subscriber 0 0 s) : (side lengths .subscriber).Safe (Passed lengths .subscriber)
      (subscribeMain lengths publisherId channelKey targetCount) s := by
  rw [subscribeMain]
  split
  · exact safe_complain rfl fun u hu => passed_of_ne (by decide) (hu.1.trans hs.started)
  · refine safe_demoMain hs (fun t ht => ?_) fun t ht => ?_
    · exact safe_plain rfl fun _ u hu v hv _ => (ht.stable hu).stable hv
    · have hscript : (script lengths .subscriber).drop 0 =
        patterns .data lengths.data (0 + 1) ++ ackPayloads 1 lengths.requests.length := rfl
      have hrequests : (script lengths .publisher).drop 0 = patterns .request lengths.requests (0 + 1) := rfl
      have hacks : (script lengths .subscriber).drop (lengths.data.length + 0) = ackPayloads (0 + 1) lengths.requests.length :=
        List.drop_left' (length_patterns ..)
      have hlengths : (script lengths .subscriber).length = lengths.data.length + 0 + lengths.requests.length ∧
          (script lengths .publisher).length = 0 + lengths.requests.length := by
        simp [script, length_patterns, length_ackPayloads]
      refine View.Safe.bind ((safe_sendPatterns (fun len h => lengths.fits len (List.mem_append_right _ h)) hscript
        (fun m hm => ?_) ht).mono fun ok u _ hu => ?_)
      · exact Nat.le_trans hm (by omega)
      · cases ok with
        | false => exact fun v hv _ => ⟨hv.1.trans hu.1, by simp⟩
        | true =>
            have hstands := hu.2 rfl
            rw [Nat.zero_add] at hstands
            rw [DemoSide.other, hlengths.1, hlengths.2]
            exact safe_receiveRequests (fun len h => lengths.fits len (List.mem_append_left _ h)) hrequests hacks hstands

variable {channelKey channelSize publisherId : UInt64} {targetCount : Nat}

theorem exchange_starts (hrequests : lengths.requests ≠ []) :
    (exchangeOutline lengths channelKey channelSize publisherId targetCount).Starts := by
  rintro i - s t hinv hidle ⟨hnot, rfl⟩
  have hleaves (j : DemoSide) (hj : j ≠ i) : Leaves j s { s with started := Function.update s.started i true } :=
    ⟨Function.update_of_ne hj .., rfl, rfl⟩
  have hstands : Stands lengths i 0 0 { s with started := Function.update s.started i true } := by
    obtain ⟨hsent, htaken⟩ := hidle hnot
    exact ⟨Function.update_self .., hsent, htaken⟩
  refine ⟨⟨hinv.sent, hinv.taken, hinv.answers⟩, hleaves, ?_⟩
  cases i with
  | publisher => exact safe_publishMain hrequests channelKey channelSize hstands
  | subscriber => exact safe_subscribeMain publisherId channelKey targetCount hstands

/-- **The demo programs agree**, in every interleaving of the two and whichever
calls fail: neither ever finds fault with a message, all that is sent is a part
of the two scripts, a program that passes has sent its script, received the
other's and been sent all of it, and when the publisher passes the subscriber
has received every request. -/
theorem exchange_agrees (hrequests : lengths.requests ≠ []) {c : Config DemoSide appIface Duplex Nat}
    (h : (exchangeMachine lengths channelKey channelSize publisherId targetCount).Reachable .init c) :
    (∀ i complaint k, c.thread i = some (.act (.complain complaint) k) → complaint.isBlame = false) ∧
    (∀ i, c.shared.sent i <+: script lengths i) ∧
    (∀ i, c.thread i = some (.ret 0) →
      c.shared.taken i = (script lengths i.other).length ∧ ∀ j, c.shared.sent j = script lengths j) ∧
    (c.thread .publisher = some (.ret 0) → c.shared.taken .subscriber = lengths.requests.length) := by
  have hgood := (exchangeOutline lengths channelKey channelSize publisherId targetCount).good (exchange_starts hrequests)
    ⟨fun _ => List.nil_prefix, fun _ => Nat.le_refl 0, fun i => by cases i <;> simp [Answers, Duplex.init]⟩
    (fun _ _ => ⟨rfl, rfl⟩) h
  have hfollows : Follows lengths c.shared := hgood.1
  -- who has received all has been sent all
  have hall (i : DemoSide) (hi : c.thread i = some (.ret 0)) :
      c.shared.taken i = (script lengths i.other).length ∧ ∀ j, c.shared.sent j = script lengths j := by
    obtain ⟨-, hpassed⟩ := hgood.post hi
    obtain ⟨hsent, htaken⟩ := hpassed rfl
    refine ⟨htaken, fun j => ?_⟩
    have hother : c.shared.sent i.other = script lengths i.other := by
      refine (hfollows.sent i.other).eq_of_length_le ?_
      rw [← htaken]
      exact hfollows.taken i
    cases i <;> cases j
    · exact hsent
    · exact hother
    · exact hother
    · exact hsent
  refine ⟨fun i complaint k hi => hgood.pre hi, hfollows.sent, hall, fun hi => ?_⟩
  obtain ⟨-, hsent⟩ := hall .publisher hi
  have hanswers := hfollows.answers .subscriber
  have htaken := hfollows.taken .subscriber
  rw [DemoSide.other, hsent] at htaken
  rw [hsent] at hanswers
  simp only [Answers, script, List.length_append, length_patterns, length_ackPayloads] at hanswers htaken
  omega

end Programs

/-- Calls that do their work. -/
def perform (i : DemoSide) : (o : AppOp) → Duplex → appIface.Res o × Duplex
  | .send payload, s => (.ofNat payload.length, s.push i payload)
  | .recv _, s =>
      match s.next i with
      | some payload => ((.ofNat payload.length, payload), s.take i)
      | none => ((0, []), s)
  | .openManager, s => (true, s)
  | .publish _ _, s => (true, s)
  | .subscribe _ _, s => (true, s)
  | .usleep _, s => ((), s)
  | .tearDown, s => (0, s)
  | .closeManager, s => (0, s)
  | .complain _, s => ((), s)

theorem performs_perform (i : DemoSide) (o : AppOp) (s : Duplex) : Performs i o s (perform i o s).1 (perform i o s).2 := by
  cases o with
  | send payload => exact .inr rfl
  | recv count =>
      simp only [Performs, perform]
      cases s.next i with
      | none => exact .inl ⟨rfl, .inr rfl⟩
      | some payload => exact .inr ⟨payload, rfl, rfl, .inr rfl⟩
  | _ => rfl

/-- The queues when a program has come to its end. -/
def Duplex.after (s : Duplex) (i : DemoSide) (p : Prog appIface Nat) : Duplex :=
  ((p.run (perform i) s).map Prod.snd).getD s

theorem run_eq_after {s : Duplex} {i : DemoSide} {p : Prog appIface Nat} {ret : Nat}
    (h : (p.run (perform i) s).map Prod.fst = some ret) : p.run (perform i) s = some (ret, s.after i p) := by
  obtain ⟨⟨ret', t⟩, hrun, rfl⟩ := Option.map_eq_some_iff.mp h
  simp [Duplex.after, hrun]

/-- The publisher has sent its request. -/
def requested : Prog appIface Nat × Duplex :=
  (publishMain briefLengths 1 4096).advance (perform .publisher) 3
    { Duplex.init with started := Function.update (fun _ => false) .publisher true }

/-- The subscriber begins. -/
def joined : Duplex := { requested.2 with started := Function.update requested.2.started .subscriber true }

/-- One request is sent, answered with a data message and an ack, and both
programs pass. -/
theorem exchange_agrees_brief : ∃ c : Config DemoSide appIface Duplex Nat,
    (exchangeMachine briefLengths 1 4096 2 1).Reachable .init c ∧ c.thread .publisher = some (.ret 0) ∧
      c.thread .subscriber = some (.ret 0) ∧ c.shared.taken .subscriber = 1 ∧
      c.shared.sent .subscriber = patterns .data [11] 1 ++ ackPayloads 1 1 := by
  have hsubscribe : ((subscribeMain briefLengths 2 1 1).run (perform .subscriber) joined).map Prod.fst = some 0 := by
    decide +kernel
  have hpublish : (requested.1.run (perform .publisher) (joined.after .subscriber (subscribeMain briefLengths 2 1 1))).map
      Prod.fst = some 0 := by
    decide +kernel
  have hnotYet : requested.2.started .subscriber = false := by decide +kernel
  have hbegun : (exchangeMachine briefLengths 1 4096 2 1).Reachable .init _ :=
    (Machine.Reachable.start .refl .publisher () rfl ⟨rfl, rfl⟩)
  have hrequested := hbegun.advance (performs_perform .publisher) 3
  have hjoined := hrequested.start .subscriber () rfl ⟨hnotYet, rfl⟩
  have hanswered := hjoined.run (performs_perform .subscriber) (run_eq_after hsubscribe)
  rw [Function.update_comm (by decide)] at hanswered
  have hpassed := hanswered.run (performs_perform .publisher) (run_eq_after hpublish)
  obtain ⟨-, -, hall, hlast⟩ := exchange_agrees (by decide) hpassed
  exact ⟨_, hpassed, rfl, rfl, hlast rfl, (hall .publisher rfl).2 .subscriber⟩

end Exchange

end Axivc
