import Axivc.Lib.LittleEndian
import Axivc.Slot

/-!
# Axivc.Frame

The frame codec of AxVisor IV Message V1 (`message.c`, lower half).

Every slot carries a 24-byte little-endian header followed by up to 232
payload bytes:

```
offset  size  field
0x00    1     version       (1)
0x01    1     flags         (FIRST | LAST | ABORT)
0x02    2     header_len    (24)
0x04    4     fragment_len
0x08    8     message_id    (nonzero, per direction, starts at 1)
0x10    8     message_len   (total logical message payload length)
0x18    ..    fragment bytes
```

A decoded `Frame` carries what the decoder has checked, so the state
machines above never see a frame with a zero id, an oversized fragment or an
illegal flag/payload shape.
-/

namespace Axivc

open LittleEndian

/-! ## constants -/

/-- `AXIVC_MESSAGE_VERSION_V1` -/
def messageVersionV1 : UInt8 := 1

/-- `AXIVC_V1_HEADER_LEN` -/
def v1HeaderLen : Nat := 24

/-- `AXIVC_FRAGMENT_CAPACITY` -/
def fragmentCapacity : Nat := slotSize - v1HeaderLen

def frameFlagFirst : UInt8 := 1
def frameFlagLast : UInt8 := 2
def frameFlagAbort : UInt8 := 4
def knownFlags : UInt8 := frameFlagFirst ||| frameFlagLast ||| frameFlagAbort

def versionOffset : Nat := 0
def flagsOffset : Nat := 1
def headerLenOffset : Nat := 2
def fragmentLenOffset : Nat := 4
def messageIdOffset : Nat := 8
def messageLenOffset : Nat := 16

/-! ## little-endian fields -/

/- A pointer into a slot is the list of the bytes from there on, and `p[k]`
is its `k`-th element; the default is never reached, every field lying inside
the slot. -/

/-- `axivc_read_le16` -/
def readLe16 (p : List UInt8) : UInt16 := (p.getD 0 0).toUInt16 ||| (p.getD 1 0).toUInt16 <<< 8

/-- `axivc_read_le32` -/
def readLe32 (p : List UInt8) : UInt32 :=
  (p.getD 0 0).toUInt32 ||| (p.getD 1 0).toUInt32 <<< 8 ||| (p.getD 2 0).toUInt32 <<< 16 |||
    (p.getD 3 0).toUInt32 <<< 24

/-- `axivc_read_le64` -/
def readLe64 (p : List UInt8) : UInt64 := (readLe32 p).toUInt64 ||| (readLe32 (p.drop 4)).toUInt64 <<< 32

/-- `axivc_write_le16`: the bytes it stores. -/
def writeLe16 (value : UInt16) : List UInt8 := [(value &&& 0xff).toUInt8, (value >>> 8 &&& 0xff).toUInt8]

/-- `axivc_write_le32`: the bytes it stores. -/
def writeLe32 (value : UInt32) : List UInt8 :=
  [(value &&& 0xff).toUInt8, (value >>> 8 &&& 0xff).toUInt8, (value >>> 16 &&& 0xff).toUInt8,
    (value >>> 24 &&& 0xff).toUInt8]

/-- `axivc_write_le64`: the bytes it stores. -/
def writeLe64 (value : UInt64) : List UInt8 :=
  writeLe32 (value &&& 0xffffffff).toUInt32 ++ writeLe32 (value >>> 32).toUInt32

theorem toNat_readLe16 (p : List UInt8) :
    (readLe16 p).toNat = leValue [p.getD 0 0, p.getD 1 0] := by
  have h0 := (p.getD 0 0).toNat_lt
  have h1 := (p.getD 1 0).toNat_lt
  simp only [readLe16, UInt16.toNat_or, UInt16.toNat_shiftLeft, UInt8.toNat_toUInt16, leValue]
  generalize (p.getD 0 0).toNat = a at *
  generalize (p.getD 1 0).toNat = b at *
  have hb : b <<< ((8 : UInt16).toNat % 16) % 2 ^ 16 = b <<< 8 := by
    rw [show (8 : UInt16).toNat % 16 = 8 from rfl, Nat.shiftLeft_eq]
    omega
  rw [hb, or_shiftLeft (by omega)]
  omega

theorem toNat_readLe32 (p : List UInt8) :
    (readLe32 p).toNat = leValue [p.getD 0 0, p.getD 1 0, p.getD 2 0, p.getD 3 0] := by
  have h0 := (p.getD 0 0).toNat_lt
  have h1 := (p.getD 1 0).toNat_lt
  have h2 := (p.getD 2 0).toNat_lt
  have h3 := (p.getD 3 0).toNat_lt
  simp only [readLe32, UInt32.toNat_or, UInt32.toNat_shiftLeft, UInt8.toNat_toUInt32, leValue]
  generalize (p.getD 0 0).toNat = a at *
  generalize (p.getD 1 0).toNat = b at *
  generalize (p.getD 2 0).toNat = c at *
  generalize (p.getD 3 0).toNat = d at *
  have hb : b <<< ((8 : UInt32).toNat % 32) % 2 ^ 32 = b <<< 8 := by
    rw [show (8 : UInt32).toNat % 32 = 8 from rfl, Nat.shiftLeft_eq]
    omega
  have hc : c <<< ((16 : UInt32).toNat % 32) % 2 ^ 32 = c <<< 16 := by
    rw [show (16 : UInt32).toNat % 32 = 16 from rfl, Nat.shiftLeft_eq]
    omega
  have hd : d <<< ((24 : UInt32).toNat % 32) % 2 ^ 32 = d <<< 24 := by
    rw [show (24 : UInt32).toNat % 32 = 24 from rfl, Nat.shiftLeft_eq]
    omega
  rw [hb, or_shiftLeft (show a < 2 ^ 8 by omega), hc,
    or_shiftLeft (show a + b * 2 ^ 8 < 2 ^ 16 by omega), hd,
    or_shiftLeft (show a + b * 2 ^ 8 + c * 2 ^ 16 < 2 ^ 24 by omega)]
  omega

theorem toNat_readLe64 (p : List UInt8) :
    (readLe64 p).toNat = (readLe32 p).toNat + (readLe32 (p.drop 4)).toNat * 2 ^ 32 := by
  have h0 := (readLe32 p).toNat_lt
  have h1 := (readLe32 (p.drop 4)).toNat_lt
  simp only [readLe64, UInt64.toNat_or, UInt64.toNat_shiftLeft, UInt32.toNat_toUInt64]
  generalize (readLe32 p).toNat = a at *
  generalize (readLe32 (p.drop 4)).toNat = b at *
  have hb : b <<< ((32 : UInt64).toNat % 64) % 2 ^ 64 = b <<< 32 := by
    rw [show (32 : UInt64).toNat % 64 = 32 from rfl, Nat.shiftLeft_eq]
    omega
  rw [hb, or_shiftLeft (by omega)]

theorem writeLe16_eq (v : UInt16) : writeLe16 v = leBytes 2 v.toNat := by
  simp only [writeLe16, leBytes, List.cons.injEq, and_true]
  refine ⟨?_, ?_⟩ <;> apply UInt8.toNat_inj.mp <;>
    simp [UInt16.toNat_shiftRight, Nat.shiftRight_eq_div_pow]

theorem writeLe32_eq (v : UInt32) : writeLe32 v = leBytes 4 v.toNat := by
  simp only [writeLe32, leBytes, List.cons.injEq, and_true]
  refine ⟨?_, ?_, ?_, ?_⟩ <;> apply UInt8.toNat_inj.mp <;>
    simp [UInt32.toNat_shiftRight, Nat.shiftRight_eq_div_pow, Nat.div_div_eq_div_mul]

theorem writeLe64_eq (v : UInt64) :
    writeLe64 v = writeLe32 (.ofNat v.toNat) ++ writeLe32 (.ofNat (v.toNat / 2 ^ 32)) := by
  have hlow : (v &&& 0xffffffff).toUInt32 = UInt32.ofNat v.toNat := by
    apply UInt32.toNat_inj.mp
    have hmask := Nat.and_two_pow_sub_one_eq_mod v.toNat 32
    simp only [UInt64.toNat_toUInt32, UInt64.toNat_and, UInt32.toNat_ofNat']
    rw [show (0xffffffff : UInt64).toNat = 2 ^ 32 - 1 from rfl, hmask]
    omega
  have hhigh : (v >>> 32).toUInt32 = UInt32.ofNat (v.toNat / 2 ^ 32) := by
    apply UInt32.toNat_inj.mp
    simp [UInt64.toNat_shiftRight, Nat.shiftRight_eq_div_pow]
  rw [writeLe64, hlow, hhigh]

/-- A 16-bit field reads back from the front of a larger buffer. -/
theorem readLe16_append (v : UInt16) (rest : List UInt8) : readLe16 (writeLe16 v ++ rest) = v := by
  apply UInt16.toNat_inj.mp
  have hv := v.toNat_lt
  rw [toNat_readLe16]
  change leValue (writeLe16 v) = v.toNat
  rw [writeLe16_eq, leValue_leBytes]
  omega

/-- A 32-bit field reads back from the front of a larger buffer. -/
theorem readLe32_append (v : UInt32) (rest : List UInt8) : readLe32 (writeLe32 v ++ rest) = v := by
  apply UInt32.toNat_inj.mp
  have hv := v.toNat_lt
  rw [toNat_readLe32]
  change leValue (writeLe32 v) = v.toNat
  rw [writeLe32_eq, leValue_leBytes]
  omega

/-- A 64-bit field reads back from the front of a larger buffer. -/
theorem readLe64_append (v : UInt64) (rest : List UInt8) : readLe64 (writeLe64 v ++ rest) = v := by
  apply UInt64.toNat_inj.mp
  have hv := v.toNat_lt
  have hdrop (a b : UInt32) : (writeLe32 a ++ (writeLe32 b ++ rest)).drop 4 = writeLe32 b ++ rest := rfl
  rw [toNat_readLe64, writeLe64_eq, List.append_assoc, readLe32_append, hdrop, readLe32_append,
    UInt32.toNat_ofNat', UInt32.toNat_ofNat']
  omega

/-! ## the codec -/

/-- `axivc_validate_frame_shape`: ABORT carries no payload and no FIRST/LAST;
an empty logical message is exactly one FIRST|LAST frame without payload;
every other frame carries at least one payload byte. -/
def validateFrameShape (messageLen : UInt64) (fragmentLen : Nat) (first last abort : Bool) :
    Except Errno Unit :=
  if abort then
    if first || last || fragmentLen ≠ 0 then .error .EPROTO else .ok ()
  else if messageLen = 0 then
    if !first || !last || fragmentLen ≠ 0 then .error .EPROTO else .ok ()
  else if fragmentLen = 0 then
    .error .EPROTO
  else
    .ok ()

/-- `struct axivc_decoded_frame`, with what the decoder has established. -/
structure Frame where
  messageId : UInt64
  messageLen : UInt64
  first : Bool
  last : Bool
  abort : Bool
  fragment : List UInt8
  id_ne_zero : messageId ≠ 0
  fragment_le : fragment.length ≤ fragmentCapacity
  shape : validateFrameShape messageLen fragment.length first last abort = .ok ()
  deriving DecidableEq

/-- `struct axivc_message_meta` -/
structure MessageMeta where
  id : UInt64
  len : UInt64
  deriving DecidableEq

/-- `memcpy(slot + offset, bs, ..)` -/
def writeAt (slot : List UInt8) (offset : Nat) (bs : List UInt8) : List UInt8 :=
  slot.take offset ++ bs ++ slot.drop (offset + bs.length)

/-- The flags byte of a frame. -/
def frameFlags (first last abort : Bool) : UInt8 :=
  (if first then frameFlagFirst else 0) ||| (if last then frameFlagLast else 0) |||
    (if abort then frameFlagAbort else 0)

/-- The bytes `axivc_encode_frame` leaves in the slot, store by store. -/
def frameBytes (messageId messageLen : UInt64) (first last abort : Bool) (fragment : List UInt8) :
    List UInt8 :=
  let slot := List.replicate slotSize 0
  let slot := writeAt slot versionOffset [messageVersionV1]
  let slot := writeAt slot flagsOffset [frameFlags first last abort]
  let slot := writeAt slot headerLenOffset (writeLe16 (.ofNat v1HeaderLen))
  let slot := writeAt slot fragmentLenOffset (writeLe32 (.ofNat fragment.length))
  let slot := writeAt slot messageIdOffset (writeLe64 messageId)
  let slot := writeAt slot messageLenOffset (writeLe64 messageLen)
  writeAt slot v1HeaderLen fragment

/-- The 24 header bytes, in the order of their offsets. -/
def headerBytes (messageId messageLen : UInt64) (first last abort : Bool) (fragmentLen : Nat) :
    List UInt8 :=
  [messageVersionV1, frameFlags first last abort] ++ (writeLe16 (.ofNat v1HeaderLen) ++
    (writeLe32 (.ofNat fragmentLen) ++ (writeLe64 messageId ++ writeLe64 messageLen)))

theorem length_headerBytes (messageId messageLen : UInt64) (first last abort : Bool) (n : Nat) :
    (headerBytes messageId messageLen first last abort n).length = v1HeaderLen := rfl

/-- A store inside the front of a buffer leaves the rest alone. -/
theorem writeAt_append (xs ys bs : List UInt8) (offset : Nat) (h : offset + bs.length ≤ xs.length) :
    writeAt (xs ++ ys) offset bs = writeAt xs offset bs ++ ys := by
  rw [writeAt, writeAt, List.take_append_of_le_length (by omega), List.drop_append_of_le_length h,
    List.append_assoc, List.append_assoc, List.append_assoc]

/-- A store right after the front of a buffer keeps the front. -/
theorem writeAt_length (xs ys bs : List UInt8) (n : Nat) (h : xs.length = n) :
    writeAt (xs ++ ys) n bs = xs ++ (bs ++ ys.drop bs.length) := by
  subst h
  rw [writeAt, List.take_left, List.drop_append, List.append_assoc, List.drop_eq_nil_of_le (by omega),
    List.nil_append, Nat.add_sub_cancel_left]

/-- The stores leave the header, the fragment and zero padding. -/
theorem frameBytes_eq (messageId messageLen : UInt64) (first last abort : Bool)
    (fragment : List UInt8) :
    frameBytes messageId messageLen first last abort fragment =
      headerBytes messageId messageLen first last abort fragment.length ++
        (fragment ++ List.replicate (fragmentCapacity - fragment.length) 0) := by
  have hsplit : List.replicate slotSize (0 : UInt8) =
      List.replicate v1HeaderLen 0 ++ List.replicate fragmentCapacity 0 := by
    rw [List.replicate_append_replicate]
    rfl
  have hheader : writeAt (writeAt (writeAt (writeAt (writeAt (writeAt (List.replicate v1HeaderLen 0)
      versionOffset [messageVersionV1]) flagsOffset [frameFlags first last abort])
      headerLenOffset (writeLe16 (.ofNat v1HeaderLen)))
      fragmentLenOffset (writeLe32 (.ofNat fragment.length)))
      messageIdOffset (writeLe64 messageId)) messageLenOffset (writeLe64 messageLen) =
      headerBytes messageId messageLen first last abort fragment.length := rfl
  simp only [frameBytes]
  rw [hsplit]
  repeat rw [writeAt_append _ _ _ _ (Nat.le_of_ble_eq_true rfl)]
  rw [hheader, writeAt_length _ _ _ _ (length_headerBytes ..), List.drop_replicate]

theorem length_frameBytes (messageId messageLen : UInt64) (first last abort : Bool)
    {fragment : List UInt8} (h : fragment.length ≤ fragmentCapacity) :
    (frameBytes messageId messageLen first last abort fragment).length = slotSize := by
  rw [frameBytes_eq, List.length_append, length_headerBytes, List.length_append, List.length_replicate]
  have hcap : v1HeaderLen + fragmentCapacity = slotSize := rfl
  omega

/-- `axivc_encode_frame` -/
def encodeFrame (messageId messageLen : UInt64) (first last abort : Bool) (fragment : List UInt8) :
    Except Errno Slot :=
  if h : messageId = 0 ∨ fragment.length > fragmentCapacity then
    .error .EPROTO
  else
    match validateFrameShape messageLen fragment.length first last abort with
    | .error e => .error e
    | .ok () =>
        .ok ⟨frameBytes messageId messageLen first last abort fragment,
          length_frameBytes _ _ _ _ _ (by omega)⟩

/-- The fragment an accepted length delimits lies inside the slot. -/
theorem length_fragment (slot : Slot) {headerLen : UInt16} {fragmentLen : UInt32}
    (hheader : ¬ headerLen ≠ .ofNat v1HeaderLen)
    (hlen : ¬ fragmentLen.toNat > slotSize - headerLen.toNat) :
    ((slot.bytes.drop headerLen.toNat).take fragmentLen.toNat).length = fragmentLen.toNat ∧
      fragmentLen.toNat ≤ fragmentCapacity := by
  have hh : headerLen.toNat = v1HeaderLen := by rw [Decidable.of_not_not hheader]; rfl
  rw [hh] at hlen ⊢
  have hcap : fragmentCapacity = slotSize - v1HeaderLen := rfl
  rw [List.length_take, List.length_drop, slot.size_eq]
  omega

/-- `axivc_decode_frame` -/
def decodeFrame (slot : Slot) : Except Errno Frame :=
  let version := slot.bytes.getD versionOffset 0
  let flags := slot.bytes.getD flagsOffset 0
  if version ≠ messageVersionV1 then
    .error .EPROTONOSUPPORT
  else if flags &&& ~~~knownFlags ≠ 0 then
    .error .EPROTO
  else
    let headerLen := readLe16 (slot.bytes.drop headerLenOffset)
    if hheader : headerLen ≠ .ofNat v1HeaderLen then
      .error .EPROTO
    else
      let fragmentLen := readLe32 (slot.bytes.drop fragmentLenOffset)
      if hlen : fragmentLen.toNat > slotSize - headerLen.toNat then
        .error .EPROTO
      else
        let messageId := readLe64 (slot.bytes.drop messageIdOffset)
        if hid : messageId = 0 then
          .error .EPROTO
        else
          let messageLen := readLe64 (slot.bytes.drop messageLenOffset)
          let first := flags &&& frameFlagFirst ≠ 0
          let last := flags &&& frameFlagLast ≠ 0
          let abort := flags &&& frameFlagAbort ≠ 0
          let fragment := (slot.bytes.drop headerLen.toNat).take fragmentLen.toNat
          match hshape : validateFrameShape messageLen fragmentLen.toNat first last abort with
          | .error e => .error e
          | .ok () =>
              .ok {
                messageId, messageLen, first, last, abort, fragment
                id_ne_zero := hid
                fragment_le := by
                  rw [(length_fragment slot hheader hlen).1]
                  exact (length_fragment slot hheader hlen).2
                shape := by
                  rw [(length_fragment slot hheader hlen).1]
                  exact hshape }

/-! ## what a decoded frame is like -/

namespace Frame

variable {f : Frame}

/-- An ABORT frame carries neither FIRST nor LAST nor payload. -/
theorem abort_shape (h : f.abort = true) : f.first = false ∧ f.last = false ∧ f.fragment = [] := by
  have hshape := f.shape
  simp only [validateFrameShape, h, if_true] at hshape
  split at hshape
  · cases hshape
  · next hno => simpa [and_assoc] using hno

/-- A data frame of an empty message is the whole message. -/
theorem empty_shape (h : f.abort = false) (hlen : f.messageLen = 0) :
    f.first = true ∧ f.last = true ∧ f.fragment = [] := by
  have hshape := f.shape
  simp only [validateFrameShape, h, hlen, Bool.false_eq_true, if_false, if_true] at hshape
  split at hshape
  · cases hshape
  · next hno => simpa [and_assoc] using hno

/-- Every other data frame carries at least one payload byte. -/
theorem payload_pos (h : f.abort = false) (hlen : f.messageLen ≠ 0) : 0 < f.fragment.length := by
  have hshape := f.shape
  simp only [validateFrameShape, h, hlen, Bool.false_eq_true, if_false] at hshape
  split at hshape
  · cases hshape
  · omega

/-- Payload lengths fit in a `u64`. -/
theorem toNat_fragment_length (f : Frame) : (UInt64.ofNat f.fragment.length).toNat = f.fragment.length := by
  have hle := f.fragment_le
  have hcap : fragmentCapacity = 232 := rfl
  rw [UInt64.toNat_ofNat']
  omega

/-- A running total within a `u64` length does not wrap. -/
theorem toNat_add_fragment (f : Frame) {total len : UInt64}
    (h : total.toNat + f.fragment.length ≤ len.toNat) :
    (total + .ofNat f.fragment.length).toNat = total.toNat + f.fragment.length := by
  have hlt := len.toNat_lt
  rw [UInt64.toNat_add, f.toNat_fragment_length]
  omega

end Frame

theorem validateFrameShape_error {messageLen : UInt64} {n : Nat} {first last abort : Bool} {e : Errno}
    (h : validateFrameShape messageLen n first last abort = .error e) : e = .EPROTO := by
  unfold validateFrameShape at h
  split at h
  · split at h <;> cases h
    rfl
  · split at h
    · split at h <;> cases h
      rfl
    · split at h <;> cases h
      rfl

/-- Only a wrong version is reported as unsupported. -/
theorem decodeFrame_error {slot : Slot} {e : Errno} (h : decodeFrame slot = .error e) :
    e = .EPROTO ∨ e = .EPROTONOSUPPORT := by
  unfold decodeFrame at h
  dsimp only at h
  split at h
  · cases h
    exact .inr rfl
  · left
    split at h
    · cases h; rfl
    · split at h
      · cases h; rfl
      · split at h
        · cases h; rfl
        · split at h
          · cases h; rfl
          · split at h
            · next e' hshape =>
                cases h
                exact validateFrameShape_error hshape
            · cases h

/-! ## reading back -/

theorem frameFlags_known (first last abort : Bool) : frameFlags first last abort &&& ~~~knownFlags = 0 := by
  revert first last abort
  decide

theorem frameFlags_first (first last abort : Bool) :
    decide (frameFlags first last abort &&& frameFlagFirst ≠ 0) = first := by
  revert first last abort
  decide

theorem frameFlags_last (first last abort : Bool) :
    decide (frameFlags first last abort &&& frameFlagLast ≠ 0) = last := by
  revert first last abort
  decide

theorem frameFlags_abort (first last abort : Bool) :
    decide (frameFlags first last abort &&& frameFlagAbort ≠ 0) = abort := by
  revert first last abort
  decide

/-- What the encoder needs, and what it leaves in the slot. -/
theorem encodeFrame_eq_ok {messageId messageLen : UInt64} {first last abort : Bool}
    {fragment : List UInt8} {slot : Slot} :
    encodeFrame messageId messageLen first last abort fragment = .ok slot ↔
      messageId ≠ 0 ∧ fragment.length ≤ fragmentCapacity ∧
      validateFrameShape messageLen fragment.length first last abort = .ok () ∧
      slot.bytes = headerBytes messageId messageLen first last abort fragment.length ++
        (fragment ++ List.replicate (fragmentCapacity - fragment.length) 0) := by
  obtain ⟨bytes, hbytes⟩ := slot
  unfold encodeFrame
  by_cases h : messageId = 0 ∨ fragment.length > fragmentCapacity
  · rw [dif_pos h]
    simp only [reduceCtorEq, false_iff]
    rintro ⟨hid, hlen, -⟩
    exact h.elim hid fun hlt => by omega
  · rw [dif_neg h, ← frameBytes_eq]
    rw [not_or] at h
    cases hshape : validateFrameShape messageLen fragment.length first last abort with
    | error e => simp
    | ok u =>
        simp only [Except.ok.injEq, Slot.mk.injEq, true_and]
        constructor
        · rintro rfl
          exact ⟨h.1, by omega, rfl⟩
        · exact fun hs => hs.2.2.symm

/-- A slot with the header of a legal frame, then its fragment, decodes to
that frame, whatever comes after. -/
theorem decodeFrame_padded {messageId messageLen : UInt64} {first last abort : Bool}
    {fragment pad : List UInt8} {slot : Slot} (hid : messageId ≠ 0) (hlen : fragment.length ≤ fragmentCapacity)
    (hshape : validateFrameShape messageLen fragment.length first last abort = .ok ())
    (hbytes : slot.bytes = headerBytes messageId messageLen first last abort fragment.length ++ (fragment ++ pad)) :
    ∃ f : Frame, decodeFrame slot = .ok f ∧ f.messageId = messageId ∧ f.messageLen = messageLen ∧
      f.first = first ∧ f.last = last ∧ f.abort = abort ∧ f.fragment = fragment := by
  have hheader : readLe16 (slot.bytes.drop headerLenOffset) = .ofNat v1HeaderLen := by
    rw [hbytes]
    exact readLe16_append _ _
  have hfraglen : readLe32 (slot.bytes.drop fragmentLenOffset) = .ofNat fragment.length := by
    rw [hbytes]
    exact readLe32_append _ _
  have hmsgid : readLe64 (slot.bytes.drop messageIdOffset) = messageId := by
    rw [hbytes]
    exact readLe64_append _ _
  have hmsglen : readLe64 (slot.bytes.drop messageLenOffset) = messageLen := by
    rw [hbytes]
    exact readLe64_append _ _
  have hver : slot.bytes.getD versionOffset 0 = messageVersionV1 := by rw [hbytes]; rfl
  have hflags : slot.bytes.getD flagsOffset 0 = frameFlags first last abort := by rw [hbytes]; rfl
  have hfrag : (UInt32.ofNat fragment.length).toNat = fragment.length := by
    have hcap : fragmentCapacity = 232 := rfl
    rw [UInt32.toNat_ofNat']
    omega
  have hpayload : (slot.bytes.drop v1HeaderLen).take fragment.length = fragment := by
    rw [hbytes, List.drop_left' (length_headerBytes ..), List.take_left]
  have hn : ((UInt16.ofNat v1HeaderLen).toNat : Nat) = v1HeaderLen := rfl
  have hroom : ¬ fragment.length > slotSize - v1HeaderLen := by
    have hcap : fragmentCapacity = slotSize - v1HeaderLen := rfl
    omega
  have hfirst : decide (slot.bytes.getD flagsOffset 0 &&& frameFlagFirst ≠ 0) = first := by
    rw [hflags, frameFlags_first]
  have hlast : decide (slot.bytes.getD flagsOffset 0 &&& frameFlagLast ≠ 0) = last := by
    rw [hflags, frameFlags_last]
  have habort : decide (slot.bytes.getD flagsOffset 0 &&& frameFlagAbort ≠ 0) = abort := by
    rw [hflags, frameFlags_abort]
  unfold decodeFrame
  rw [if_neg (by rw [hver]; simp), if_neg (by rw [hflags, frameFlags_known]; simp),
    dif_neg (by rw [hheader]; simp), dif_neg (by rw [hheader, hfraglen, hfrag, hn]; exact hroom),
    dif_neg (by rw [hmsgid]; exact hid)]
  dsimp only
  split
  · next e he =>
      rw [hmsglen, hfraglen, hfrag, hfirst, hlast, habort, hshape] at he
      cases he
  · refine ⟨_, rfl, hmsgid, hmsglen, hfirst, hlast, habort, ?_⟩
    dsimp only
    rw [hheader, hfraglen, hfrag, hn]
    exact hpayload

/-- **Frame roundtrip**: a slot the encoder produces decodes to the encoded
fields. -/
theorem decodeFrame_encodeFrame {messageId messageLen : UInt64} {first last abort : Bool}
    {fragment : List UInt8} {slot : Slot}
    (h : encodeFrame messageId messageLen first last abort fragment = .ok slot) :
    ∃ f : Frame, decodeFrame slot = .ok f ∧ f.messageId = messageId ∧ f.messageLen = messageLen ∧
      f.first = first ∧ f.last = last ∧ f.abort = abort ∧ f.fragment = fragment := by
  obtain ⟨hid, hlen, hshape, hbytes⟩ := encodeFrame_eq_ok.mp h
  exact decodeFrame_padded hid hlen hshape hbytes

end Axivc
