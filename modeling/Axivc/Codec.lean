import Axivc.Frame

/-!
# Axivc.Codec

The frame codec in both directions.

`Axivc.Frame` reads back what the encoder has written.  Here is the other
half: a slot the decoder accepts *is* the encoding of the decoded frame, up to
the bytes after the fragment, and those the decoder does not look at.

* `decodeFrame_eq_ok` — the accepted slots are header, fragment and any
  padding;
* `decodeFrame_header_error` — a rejection depends on the 24 header bytes
  alone;
* `frame_codec_exact` — encoder and decoder accept the same frames and are
  inverse to each other.
-/

namespace Axivc

open LittleEndian

/-! ## writing back what was read -/

theorem writeLe16_readLe16 (p : List UInt8) : writeLe16 (readLe16 p) = [p.getD 0 0, p.getD 1 0] := by
  rw [writeLe16_eq, toNat_readLe16]
  exact leBytes_leValue [p.getD 0 0, p.getD 1 0]

theorem writeLe32_readLe32 (p : List UInt8) :
    writeLe32 (readLe32 p) = [p.getD 0 0, p.getD 1 0, p.getD 2 0, p.getD 3 0] := by
  rw [writeLe32_eq, toNat_readLe32]
  exact leBytes_leValue [p.getD 0 0, p.getD 1 0, p.getD 2 0, p.getD 3 0]

theorem writeLe64_readLe64 (p : List UInt8) :
    writeLe64 (readLe64 p) = writeLe32 (readLe32 p) ++ writeLe32 (readLe32 (p.drop 4)) := by
  have hlow := (readLe32 p).toNat_lt
  have hhigh := (readLe32 (p.drop 4)).toNat_lt
  have hmod : UInt32.ofNat (readLe64 p).toNat = readLe32 p := by
    apply UInt32.toNat_inj.mp
    rw [UInt32.toNat_ofNat', toNat_readLe64]
    omega
  have hdiv : UInt32.ofNat ((readLe64 p).toNat / 2 ^ 32) = readLe32 (p.drop 4) := by
    apply UInt32.toNat_inj.mp
    rw [UInt32.toNat_ofNat', toNat_readLe64]
    omega
  rw [writeLe64_eq, hmod, hdiv]

/-- Known flag bits are all there is to a flags byte. -/
theorem frameFlags_of_known {flags : UInt8} (h : flags &&& ~~~knownFlags = 0) :
    frameFlags (flags &&& frameFlagFirst ≠ 0) (flags &&& frameFlagLast ≠ 0) (flags &&& frameFlagAbort ≠ 0) =
      flags := by
  have hall : ∀ n : Fin 256, UInt8.ofNat n &&& ~~~knownFlags = 0 →
      frameFlags (UInt8.ofNat n &&& frameFlagFirst ≠ 0) (UInt8.ofNat n &&& frameFlagLast ≠ 0)
        (UInt8.ofNat n &&& frameFlagAbort ≠ 0) = UInt8.ofNat n := by
    decide +kernel
  have hflags : UInt8.ofNat flags.toNat = flags := UInt8.ofNat_toNat
  have hmain := hall ⟨flags.toNat, flags.toNat_lt⟩
  simp only [hflags] at hmain
  exact hmain h

theorem getD_drop (bs : List UInt8) (n k : Nat) : (bs.drop n).getD k 0 = bs.getD (n + k) 0 := by
  rw [List.getD_eq_getElem?_getD, List.getD_eq_getElem?_getD, List.getElem?_drop]

/-- The first bytes of a buffer, one by one. -/
theorem take_eq_map_getD {bs : List UInt8} {n : Nat} (h : n ≤ bs.length) :
    bs.take n = (List.range n).map fun k => bs.getD k 0 := by
  apply List.ext_getElem
  · simp [h]
  · intro k hk hk'
    rw [List.length_take] at hk
    rw [List.getElem_take, List.getElem_map, List.getElem_range, List.getD_eq_getElem?_getD,
      List.getElem?_eq_getElem (by omega), Option.getD_some]

/-! ## what the decoder accepts -/

/-- The header bytes the decoder has checked are those the encoder writes. -/
theorem headerBytes_of_fields {slot : Slot} {fragmentLen : Nat}
    (hver : slot.bytes.getD versionOffset 0 = messageVersionV1)
    (hflags : slot.bytes.getD flagsOffset 0 &&& ~~~knownFlags = 0)
    (hheader : readLe16 (slot.bytes.drop headerLenOffset) = .ofNat v1HeaderLen)
    (hlen : readLe32 (slot.bytes.drop fragmentLenOffset) = .ofNat fragmentLen) :
    headerBytes (readLe64 (slot.bytes.drop messageIdOffset)) (readLe64 (slot.bytes.drop messageLenOffset))
      (slot.bytes.getD flagsOffset 0 &&& frameFlagFirst ≠ 0) (slot.bytes.getD flagsOffset 0 &&& frameFlagLast ≠ 0)
      (slot.bytes.getD flagsOffset 0 &&& frameFlagAbort ≠ 0) fragmentLen = slot.bytes.take v1HeaderLen := by
  have hsize := slot.size_eq
  rw [headerBytes, ← hheader, ← hlen, ← hver, frameFlags_of_known hflags, writeLe16_readLe16, writeLe32_readLe32,
    writeLe64_readLe64, writeLe64_readLe64, writeLe32_readLe32, writeLe32_readLe32, writeLe32_readLe32,
    writeLe32_readLe32, take_eq_map_getD (by rw [hsize]; decide)]
  simp only [getD_drop, List.drop_drop]
  rfl

/-- **Accepted slots**: header, fragment and any padding. -/
theorem decodeFrame_eq_ok {slot : Slot} {f : Frame} : decodeFrame slot = .ok f ↔
    ∃ pad, slot.bytes = headerBytes f.messageId f.messageLen f.first f.last f.abort f.fragment.length ++
      (f.fragment ++ pad) := by
  constructor
  · intro h
    unfold decodeFrame at h
    dsimp only at h
    split at h
    · cases h
    · next hver =>
        split at h
        · cases h
        · next hflags =>
            split at h
            · cases h
            · next hheader =>
                split at h
                · cases h
                · next hlen =>
                    split at h
                    · cases h
                    · split at h
                      · cases h
                      · obtain ⟨hfrag, -⟩ := length_fragment slot hheader hlen
                        have hheader' := Decidable.of_not_not hheader
                        have hh : (readLe16 (slot.bytes.drop headerLenOffset)).toNat = v1HeaderLen := by
                          rw [hheader']
                          rfl
                        cases h
                        dsimp only
                        rw [hfrag, headerBytes_of_fields (Decidable.of_not_not hver) (Decidable.of_not_not hflags)
                          hheader' UInt32.ofNat_toNat.symm, hh]
                        refine ⟨(slot.bytes.drop v1HeaderLen).drop
                          (readLe32 (slot.bytes.drop fragmentLenOffset)).toNat, ?_⟩
                        rw [List.take_append_drop, List.take_append_drop]
  · rintro ⟨pad, hbytes⟩
    obtain ⟨f', hdec, hid, hlen, hfirst, hlast, habort, hfrag⟩ :=
      decodeFrame_padded f.id_ne_zero f.fragment_le f.shape hbytes
    have heq : f' = f := by
      cases f
      cases f'
      simp_all
    rw [hdec, heq]

/-- A buffer begins with a header and a fragment when its first bytes are
these. -/
theorem begins_iff {bs : List UInt8} {messageId messageLen : UInt64} {first last abort : Bool}
    {fragment : List UInt8} :
    bs.take (24 + fragment.length) = headerBytes messageId messageLen first last abort fragment.length ++ fragment ↔
      ∃ pad, bs = headerBytes messageId messageLen first last abort fragment.length ++ (fragment ++ pad) := by
  have hheader := length_headerBytes messageId messageLen first last abort fragment.length
  have hlen : (headerBytes messageId messageLen first last abort fragment.length ++ fragment).length =
      24 + fragment.length := by
    rw [List.length_append, hheader]
    rfl
  constructor
  · intro h
    refine ⟨bs.drop (24 + fragment.length), ?_⟩
    rw [← List.append_assoc, ← h, List.take_append_drop]
  · rintro ⟨pad, rfl⟩
    rw [← List.append_assoc, List.take_left' hlen]

/-- An accepted slot begins with the bytes of the decoded frame, and any slot
that does is accepted. -/
theorem decodeFrame_eq_ok_iff_take {slot : Slot} {f : Frame} : decodeFrame slot = .ok f ↔
    slot.bytes.take (24 + f.fragment.length) =
      headerBytes f.messageId f.messageLen f.first f.last f.abort f.fragment.length ++ f.fragment := by
  rw [decodeFrame_eq_ok, begins_iff]

/-- What the encoder produces begins with the bytes of the encoded frame. -/
theorem take_of_encodeFrame {messageId messageLen : UInt64} {first last abort : Bool} {fragment : List UInt8}
    {slot : Slot} (h : encodeFrame messageId messageLen first last abort fragment = .ok slot) :
    slot.bytes.take (24 + fragment.length) =
      headerBytes messageId messageLen first last abort fragment.length ++ fragment :=
  begins_iff.mpr ⟨_, (encodeFrame_eq_ok.mp h).2.2.2⟩

/-- A decoded frame can be encoded again. -/
theorem encodeFrame_of_frame (f : Frame) :
    ∃ slot, encodeFrame f.messageId f.messageLen f.first f.last f.abort f.fragment = .ok slot := by
  unfold encodeFrame
  rw [dif_neg (not_or.mpr ⟨f.id_ne_zero, Nat.not_lt.mpr f.fragment_le⟩), f.shape]
  exact ⟨_, rfl⟩

/-- A rejection depends on the header alone. -/
theorem decodeFrame_header_error {slot slot' : Slot} {e : Errno}
    (heq : slot'.bytes.take v1HeaderLen = slot.bytes.take v1HeaderLen) (h : decodeFrame slot = .error e) :
    decodeFrame slot' = .error e := by
  have hbyte (k : Nat) (hk : k < v1HeaderLen) : slot'.bytes.getD k 0 = slot.bytes.getD k 0 := by
    have hget := congrArg (fun bs => bs.getD k 0) heq
    simpa [List.getD_eq_getElem?_getD, List.getElem?_take, hk] using hget
  have hver := hbyte versionOffset (by decide)
  have hflags := hbyte flagsOffset (by decide)
  have h32 (n : Nat) (hn : n + 3 < v1HeaderLen) :
      readLe32 (slot'.bytes.drop n) = readLe32 (slot.bytes.drop n) := by
    simp only [readLe32, getD_drop]
    rw [hbyte (n + 0) (by omega), hbyte (n + 1) (by omega), hbyte (n + 2) (by omega), hbyte (n + 3) hn]
  have h64 (n : Nat) (hn : n + 7 < v1HeaderLen) :
      readLe64 (slot'.bytes.drop n) = readLe64 (slot.bytes.drop n) := by
    simp only [readLe64, List.drop_drop]
    rw [h32 n (by omega), h32 (n + 4) hn]
  have hheader : readLe16 (slot'.bytes.drop headerLenOffset) = readLe16 (slot.bytes.drop headerLenOffset) := by
    simp only [readLe16, getD_drop]
    rw [hbyte (headerLenOffset + 0) (by decide), hbyte (headerLenOffset + 1) (by decide)]
  have hlen := h32 fragmentLenOffset (by decide)
  have hid := h64 messageIdOffset (by decide)
  have hmlen := h64 messageLenOffset (by decide)
  unfold decodeFrame at h ⊢
  dsimp only at h ⊢
  split at h
  · next hbad =>
      rw [if_pos (by rw [hver]; exact hbad)]
      exact h
  · next hok =>
      rw [if_neg (by rw [hver]; exact hok)]
      split at h
      · next hbad =>
          rw [if_pos (by rw [hflags]; exact hbad)]
          exact h
      · next hok =>
          rw [if_neg (by rw [hflags]; exact hok)]
          split at h
          · next hbad =>
              rw [dif_pos (by rw [hheader]; exact hbad)]
              exact h
          · next hok =>
              rw [dif_neg (by rw [hheader]; exact hok)]
              split at h
              · next hbad =>
                  rw [dif_pos (by rw [hheader, hlen]; exact hbad)]
                  exact h
              · next hok =>
                  rw [dif_neg (by rw [hheader, hlen]; exact hok)]
                  split at h
                  · next hbad =>
                      rw [dif_pos (by rw [hid]; exact hbad)]
                      exact h
                  · next hok =>
                      rw [dif_neg (by rw [hid]; exact hok)]
                      split at h
                      · next e' hshape =>
                          split
                          · next e'' hshape' =>
                              rw [hmlen, hlen, hflags, hshape] at hshape'
                              cases hshape'
                              exact h
                          · next hshape' =>
                              rw [hmlen, hlen, hflags, hshape] at hshape'
                              cases hshape'
                      · cases h

/-! ## both directions -/

/-- The legal shapes: ABORT stands alone and is empty, an empty message is one
FIRST|LAST frame without payload, every other frame has payload. -/
def LegalShape (messageLen : UInt64) (fragmentLen : Nat) (first last abort : Bool) : Prop :=
  if abort then first = false ∧ last = false ∧ fragmentLen = 0
  else if messageLen = 0 then first = true ∧ last = true ∧ fragmentLen = 0
  else 0 < fragmentLen

theorem validateFrameShape_eq_ok {messageLen : UInt64} {n : Nat} {first last abort : Bool} :
    validateFrameShape messageLen n first last abort = .ok () ↔ LegalShape messageLen n first last abort := by
  unfold validateFrameShape LegalShape
  cases abort <;> cases first <;> cases last <;> by_cases hlen : messageLen = 0 <;> by_cases hn : n = 0 <;>
    simp [hlen, hn, Nat.pos_iff_ne_zero]

/-- **Frame codec**: the encoder succeeds on exactly the legal frames, and the
decoder gives them back; the decoder accepts exactly what the encoder
produces, up to the bytes after the fragment, which it does not read. -/
theorem frame_codec_exact :
    (∀ messageId messageLen first last abort fragment,
      ((∃ slot, encodeFrame messageId messageLen first last abort fragment = .ok slot) ↔
        messageId ≠ 0 ∧ fragment.length ≤ 232 ∧ LegalShape messageLen fragment.length first last abort) ∧
      ∀ slot, encodeFrame messageId messageLen first last abort fragment = .ok slot →
        ∃ f, decodeFrame slot = .ok f ∧ f.messageId = messageId ∧ f.messageLen = messageLen ∧
          f.first = first ∧ f.last = last ∧ f.abort = abort ∧ f.fragment = fragment) ∧
    (∀ slot f, decodeFrame slot = .ok f →
      (∃ slot', encodeFrame f.messageId f.messageLen f.first f.last f.abort f.fragment = .ok slot' ∧
        slot'.bytes.take (24 + f.fragment.length) = slot.bytes.take (24 + f.fragment.length)) ∧
      ∀ slot' : Slot, slot'.bytes.take (24 + f.fragment.length) = slot.bytes.take (24 + f.fragment.length) →
        decodeFrame slot' = .ok f) ∧
    (∀ slot slot' : Slot, slot'.bytes.take 24 = slot.bytes.take 24 → ∀ e, decodeFrame slot = .error e →
      decodeFrame slot' = .error e) ∧
    ∀ slot, (∃ f, decodeFrame slot = .ok f) ↔
      ∃ messageId messageLen first last abort fragment slot',
        encodeFrame messageId messageLen first last abort fragment = .ok slot' ∧
        slot'.bytes.take (24 + fragment.length) = slot.bytes.take (24 + fragment.length) := by
  refine ⟨fun messageId messageLen first last abort fragment => ⟨?_, fun slot h => decodeFrame_encodeFrame h⟩,
    fun slot f h => ⟨?_, ?_⟩, fun slot slot' heq e h => decodeFrame_header_error heq h, fun slot => ?_⟩
  · constructor
    · rintro ⟨slot, h⟩
      obtain ⟨hid, hlen, hshape, -⟩ := encodeFrame_eq_ok.mp h
      exact ⟨hid, hlen, validateFrameShape_eq_ok.mp hshape⟩
    · rintro ⟨hid, hlen, hshape⟩
      exact encodeFrame_of_frame ⟨messageId, messageLen, first, last, abort, fragment, hid, hlen,
        validateFrameShape_eq_ok.mpr hshape⟩
  · obtain ⟨slot', henc⟩ := encodeFrame_of_frame f
    exact ⟨slot', henc, by rw [take_of_encodeFrame henc, decodeFrame_eq_ok_iff_take.mp h]⟩
  · intro slot' heq
    rw [decodeFrame_eq_ok_iff_take, heq, decodeFrame_eq_ok_iff_take.mp h]
  · constructor
    · rintro ⟨f, h⟩
      obtain ⟨slot', henc⟩ := encodeFrame_of_frame f
      exact ⟨_, _, _, _, _, _, slot', henc, by rw [take_of_encodeFrame henc, decodeFrame_eq_ok_iff_take.mp h]⟩
    · rintro ⟨messageId, messageLen, first, last, abort, fragment, slot', henc, heq⟩
      obtain ⟨hid, hlen, hshape, -⟩ := encodeFrame_eq_ok.mp henc
      refine ⟨⟨messageId, messageLen, first, last, abort, fragment, hid, hlen, hshape⟩, ?_⟩
      rw [decodeFrame_eq_ok_iff_take, ← heq, take_of_encodeFrame henc]

end Axivc
