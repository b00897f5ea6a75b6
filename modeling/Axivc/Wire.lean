import Axivc.Grammar

/-!
# Axivc.Wire

Where the messages of a stream of slots begin and end.

A stream that a receiver gets through falls into messages in one way only:
a message begins where the receiver is between messages, and there is no such
place inside it.  So two parties that each know a stretch of the stream to be
a message, or the start of one, know the same stretch as soon as one of them
has seen the end of the other's (`Stretch.eq_of_covers`).  This is what ties
the calls that wrote a stream to the calls that read it.
-/

namespace Axivc

/-- A message or an aborted message. -/
def Whole (frames : List Frame) : Prop := IsMessage frames ∨ IsAborted frames

/-- A message or an aborted message, or the start of one. -/
def Piece (frames : List Frame) : Prop := Whole frames ∨ ∃ msg, Opening msg frames

/-- The slots are whole messages and aborted messages. -/
def Between (slots : List Slot) : Prop :=
  ∃ rx, slots.foldlM Receiver.accept messageReceiverInit = .ok rx ∧ rx.state = .idle

/-- A receiver gets through the slots, and none of them is of an empty message. -/
structure Wire (slots : List Slot) : Prop where
  accepted : ∃ rx, slots.foldlM Receiver.accept messageReceiverInit = .ok rx
  nonempty : ∀ slot ∈ slots, ∀ frame, decodeFrame slot = .ok frame → frame.messageLen ≠ 0

/-! ## the start of a message -/

theorem Decodes.mem {slots : List Slot} {frames : List Frame} (h : Decodes slots frames) {slot : Slot} {frame : Frame}
    (hslot : slot ∈ slots) (hframe : decodeFrame slot = .ok frame) : frame ∈ frames := by
  have hmem : Except.ok frame ∈ frames.map (Except.ok (ε := Errno)) := by
    rw [← show slots.map decodeFrame = _ from h, ← hframe]
    exact List.mem_map_of_mem hslot
  obtain ⟨f, hf, heq⟩ := List.mem_map.mp hmem
  cases heq
  exact hf

section Starts

variable {msg : MessageMeta} {xs ys : List Frame}

theorem Belongs.of_append (h : Belongs msg (xs ++ ys)) (hxs : xs ≠ []) : Belongs msg xs := by
  obtain ⟨f, rest, heq, hfirst, hrest⟩ := h.starts
  cases xs with
  | nil => exact absurd rfl hxs
  | cons x xs =>
      obtain ⟨rfl, rfl⟩ := List.cons.inj heq
      exact ⟨⟨x, xs, rfl, hfirst, fun f hf => hrest f (List.mem_append_left _ hf)⟩,
        fun f hf => h.same f (List.mem_append_left _ hf)⟩

theorem Opening.of_append (h : Opening msg (xs ++ ys)) (hxs : xs ≠ []) : Opening msg xs := by
  have hle := h.total_le
  rw [payload_append, List.length_append] at hle
  exact ⟨h.belongs.of_append hxs, fun f hf => h.not_last f (List.mem_append_left _ hf), by omega⟩

/-- What comes before the last frame. -/
theorem prefix_of_snoc {init : List Frame} {last : Frame} (h : xs ++ ys = init ++ [last]) (hys : ys ≠ []) :
    ∃ more, init = xs ++ more := by
  obtain ⟨more, y, rfl⟩ : ∃ more y, ys = more ++ [y] := by
    rcases List.eq_nil_or_concat ys with hnil | ⟨more, y, hy⟩
    · exact absurd hnil hys
    · exact ⟨more, y, by rw [hy, List.concat_eq_append]⟩
  rw [← List.append_assoc] at h
  exact ⟨more, (List.append_inj' h rfl).1.symm⟩

/-- A message that has not come to its end is an opening. -/
theorem Whole.start (h : Whole (xs ++ ys)) (hxs : xs ≠ []) (hys : ys ≠ []) : ∃ msg, Opening msg xs := by
  rcases h with ⟨msg, init, last, heq, hbelongs, hnl, -, htotal⟩ | ⟨msg, init, last, heq, hopening, -⟩
  · obtain ⟨more, rfl⟩ := prefix_of_snoc heq hys
    rw [payload_append, List.length_append] at htotal
    exact ⟨msg, hbelongs.of_append hxs, fun f hf => hnl f (List.mem_append_left _ hf), by omega⟩
  · obtain ⟨more, rfl⟩ := prefix_of_snoc heq hys
    exact ⟨msg, hopening.of_append hxs⟩

theorem Piece.start (h : Piece (xs ++ ys)) (hxs : xs ≠ []) (hys : ys ≠ []) : ∃ msg, Opening msg xs := by
  rcases h with h | ⟨msg, h⟩
  · exact h.start hxs hys
  · exact ⟨msg, h.of_append hxs⟩

/-- The start of a message is no whole one. -/
theorem Opening.not_message (h : Opening msg xs) : ¬ IsMessage xs := by
  rintro ⟨-, init, last, rfl, -, -, hl, -⟩
  rw [h.not_last last (by simp)] at hl
  cases hl

theorem IsAborted.not_message (h : IsAborted xs) : ¬ IsMessage xs := by
  obtain ⟨-, init, last, rfl, -, habort, -⟩ := h
  rintro ⟨-, init', last', heq, -, -, hl, -⟩
  obtain ⟨-, hsingle⟩ := List.append_inj' heq rfl
  cases hsingle
  rw [(Frame.abort_shape habort).2.1] at hl
  cases hl

theorem not_message_nil {frames : List Frame} (h : Decodes [] frames) : ¬ IsMessage frames := by
  rintro ⟨msg, init, last, rfl, -⟩
  have hlen := h.length_eq
  simp at hlen

theorem IsAborted.ne_nil {frames : List Frame} {slots : List Slot} (hdec : Decodes slots frames)
    (h : IsAborted frames) : slots ≠ [] := by
  rintro rfl
  obtain ⟨-, init, last, rfl, -⟩ := h
  have hlen := hdec.length_eq
  simp at hlen

end Starts

/-! ## places between messages -/

section Places

variable {before slots : List Slot} {frames : List Frame} {msg : MessageMeta}

theorem between_nil : Between [] := ⟨messageReceiverInit, rfl, rfl⟩

/-- Frames accepted after a stream that ends between messages. -/
theorem Between.accept {P : Receiver → Prop} (hb : Between before) (hdec : Decodes slots frames)
    (h : ∀ rx, rx.state = .idle → ∃ rx', frames.foldlM Receiver.acceptFrame rx = .ok rx' ∧ P rx') :
    ∃ rx, (before ++ slots).foldlM Receiver.accept messageReceiverInit = .ok rx ∧ P rx := by
  obtain ⟨rx, hfold, hidle⟩ := hb
  obtain ⟨rx', hframes, hP⟩ := h rx hidle
  refine ⟨rx', ?_, hP⟩
  rw [List.foldlM_append, hfold]
  exact foldlM_accept_iff.mpr ⟨frames, hdec, hframes⟩

/-- After a whole message the stream is between messages again. -/
theorem Between.whole (hb : Between before) (hdec : Decodes slots frames) (h : Whole frames) :
    Between (before ++ slots) := by
  refine hb.accept hdec fun rx hidle => ?_
  rcases h with h | h
  · exact accept_message hidle h
  · exact accept_aborted hidle h

theorem Between.opening (hb : Between before) (hdec : Decodes slots frames) (h : Opening msg frames) :
    ∃ rx, (before ++ slots).foldlM Receiver.accept messageReceiverInit = .ok rx ∧ rx.state = .receiving := by
  refine hb.accept hdec fun rx hidle => ?_
  obtain ⟨rx', hfold, ⟨-, hnil⟩ | ⟨hrecv, -⟩⟩ := accept_opening hidle h
  · obtain ⟨f, rest, heq, -⟩ := h.belongs.starts
    rw [hnil] at heq
    cases heq
  · exact ⟨rx', hfold, hrecv⟩

/-- In the middle of a message it is not. -/
theorem Between.not_opening (hb : Between before) (hdec : Decodes slots frames) (h : Opening msg frames) :
    ¬ Between (before ++ slots) := by
  rintro ⟨rx, hfold, hidle⟩
  obtain ⟨rx', hfold', hrecv⟩ := hb.opening hdec h
  rw [hfold] at hfold'
  cases hfold'
  rw [hidle] at hrecv
  cases hrecv

/-- A receiver gets through a piece. -/
theorem Between.piece (hb : Between before) (hdec : Decodes slots frames) (h : Piece frames) :
    ∃ rx, (before ++ slots).foldlM Receiver.accept messageReceiverInit = .ok rx := by
  rcases h with h | ⟨msg, h⟩
  · obtain ⟨rx, hfold, -⟩ := hb.whole hdec h
    exact ⟨rx, hfold⟩
  · obtain ⟨rx, hfold, -⟩ := hb.opening hdec h
    exact ⟨rx, hfold⟩

theorem Wire.of_start {stream : List Slot} (h : Wire stream) (hpre : slots <+: stream) : Wire slots := by
  obtain ⟨more, rfl⟩ := hpre
  refine ⟨?_, fun slot hslot => h.nonempty slot (List.mem_append_left _ hslot)⟩
  obtain ⟨rx, hfold⟩ := h.accepted
  rw [List.foldlM_append] at hfold
  cases hmid : slots.foldlM Receiver.accept messageReceiverInit with
  | ok rx' => exact ⟨rx', rfl⟩
  | error e =>
      rw [hmid] at hfold
      cases hfold

end Places

/-! ## stretches of a stream -/

/-- The slots `slots` are found in the stream from `p` on, where it is between
messages. -/
structure Stretch (stream : List Slot) (p : Nat) (slots : List Slot) : Prop where
  place : p ≤ stream.length
  found : slots <+: stream.drop p
  between : Between (stream.take p)

namespace Stretch

variable {stream slots slots' : List Slot} {p p' : Nat} {frames frames' : List Frame}

theorem take_eq (h : Stretch stream p slots) {j : Nat} (hj : j ≤ slots.length) :
    stream.take (p + j) = stream.take p ++ slots.take j := by
  obtain ⟨more, hmore⟩ := h.found
  rw [List.take_add, ← hmore, List.take_append_of_le_length hj]

theorem length_le (h : Stretch stream p slots) : p + slots.length ≤ stream.length := by
  have hle := h.found.length_le
  have hplace := h.place
  rw [List.length_drop] at hle
  omega

/-- What comes after a place between messages. -/
theorem of_append {before : List Slot} (h : Between before) : Stretch (before ++ slots) before.length slots := by
  refine ⟨by rw [List.length_append]; omega, ⟨[], by rw [List.append_nil, List.drop_left]⟩, ?_⟩
  rw [List.take_left]
  exact h

/-- A longer stream has the same stretches. -/
theorem mono {stream' : List Slot} (h : Stretch stream p slots) (hpre : stream <+: stream') :
    Stretch stream' p slots := by
  obtain ⟨more, rfl⟩ := hpre
  refine ⟨by rw [List.length_append]; exact Nat.le_add_right_of_le h.place, ?_, ?_⟩
  · rw [List.drop_append_of_le_length h.place]
    exact h.found.trans (List.prefix_append _ _)
  · rw [List.take_append_of_le_length h.place]
    exact h.between

/-- There is no end of a message inside a piece. -/
theorem inside (h : Stretch stream p slots) (hdec : Decodes slots frames) (hpiece : Piece frames) {j : Nat}
    (hpos : 0 < j) (hlt : j < slots.length) : ¬ Between (stream.take (p + j)) := by
  have hlen := hdec.length_eq
  rw [← List.take_append_drop j frames] at hpiece
  obtain ⟨msg, hopening⟩ := hpiece.start (List.ne_nil_of_length_pos (by rw [List.length_take]; omega))
    (List.ne_nil_of_length_pos (by rw [List.length_drop]; omega))
  rw [h.take_eq (by omega)]
  exact h.between.not_opening (hdec.take j) hopening

/-- A whole message ends between messages. -/
theorem upto (h : Stretch stream p slots) (hdec : Decodes slots frames) (hwhole : Whole frames) :
    Between (stream.take (p + slots.length)) := by
  rw [h.take_eq (Nat.le_refl _), List.take_length]
  exact h.between.whole hdec hwhole

/-- **Two stretches of one stream**: a whole message whose last slot lies in a
piece is that piece. -/
theorem eq_of_covers (h : Stretch stream p slots) (hdec : Decodes slots frames) (hpiece : Piece frames)
    (h' : Stretch stream p' slots') (hdec' : Decodes slots' frames') (hwhole : Whole frames')
    (hne : slots' ≠ []) (hle : p ≤ p' + slots'.length - 1) (hlt : p' + slots'.length - 1 < p + slots.length) :
    p = p' ∧ slots = slots' := by
  have hpos := List.length_pos_of_ne_nil hne
  -- Neither begins inside the other.
  obtain rfl : p = p' := by
    rcases Nat.lt_trichotomy p p' with hbefore | heq | hafter
    · have hin := h.inside hdec hpiece (j := p' - p) (by omega) (by omega)
      rw [Nat.add_sub_of_le (by omega)] at hin
      exact absurd h'.between hin
    · exact heq
    · have hin := h'.inside hdec' (.inl hwhole) (j := p - p') (by omega) (by omega)
      rw [Nat.add_sub_of_le (by omega)] at hin
      exact absurd h.between hin
  have hlen : slots.length = slots'.length := by
    by_contra hlen
    exact h.inside hdec hpiece hpos (by omega) (h'.upto hdec' hwhole)
  exact ⟨rfl, (List.prefix_of_prefix_length_le h.found h'.found (by omega)).eq_of_length hlen⟩

end Stretch

end Axivc
