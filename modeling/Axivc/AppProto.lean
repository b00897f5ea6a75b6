import Axivc.Demo
import Axivc.Frame

/-!
# Axivc.AppProto

The payload codec of the demo programs, `app_proto.c`.

An application message is an 11-byte header — kind, sequence, length of the
body — and the body.  `appHeader` is the header as bytes; each function of the
source has a lemma that says what it does in terms of it, and `appDecode` turns
out to accept exactly a header and a body of the announced length
(`appDecode_eq_some_iff`).

A buffer is a byte list of the length that the source passes along with the
pointer.
-/

namespace Axivc

namespace AppProto

open Demo LittleEndian

/-! ## the functions -/

/-- `CHAR_BIT` -/
def charBit : Nat := 8

/-- `UINT16_MAX` -/
def uint16Max : Nat := 65535

/-- `SIZE_MAX` -/
def sizeMax : Nat := 2 ^ 64 - 1

/-- The values of `enum ivc_app_message_kind`. -/
def kindCode : AppKind → UInt8
  | .request => 1
  | .ack => 2
  | .data => 3

/-- The cast of a byte to the enumeration, with `ivc_app_kind_is_valid`. -/
def kindOf (byte : UInt8) : Option AppKind :=
  if byte = 1 then some .request
  else if byte = 2 then some .ack
  else if byte = 3 then some .data
  else none

/-- `ivc_app_write_le16` -/
def appWriteLe16 (value : UInt16) : List UInt8 := [value.toUInt8, (value >>> 8).toUInt8]

/-- `ivc_app_write_le64` -/
def appWriteLe64 (value : UInt64) : List UInt8 :=
  (List.range 8).map fun index => (value >>> UInt64.ofNat (index * charBit)).toUInt8

/-- `ivc_app_read_le16` -/
def appReadLe16 (input : List UInt8) : UInt16 := (input.getD 0 0).toUInt16 ||| (input.getD 1 0).toUInt16 <<< 8

/-- `ivc_app_read_le64` -/
def appReadLe64 (input : List UInt8) : UInt64 :=
  (List.range 8).foldl
    (fun value index => value ||| (input.getD index 0).toUInt64 <<< UInt64.ofNat (index * charBit)) 0

/-- `ivc_app_encode_header` -/
def appEncodeHeader (payload : List UInt8) (kind : AppKind) (sequence : UInt64) (bodyLen : UInt16) : List UInt8 :=
  let payload := payload.set 0 (kindCode kind)
  let payload := writeAt payload 1 (appWriteLe64 sequence)
  writeAt payload 9 (appWriteLe16 bodyLen)

/-- `ivc_app_pattern_byte` -/
def appPatternByte (kind : AppKind) (sequence : UInt64) (index : Nat) : UInt8 :=
  let patternIndex : UInt8 := UInt8.ofNat index + sequence.toUInt8 + kindCode kind * 7
  -- 'a'
  97 + patternIndex % 26

/-- `ivc_app_encode_pattern`: the buffer afterwards. -/
def appEncodePattern (payload : List UInt8) (kind : AppKind) (sequence : UInt64) : Option (List UInt8) :=
  if payload.length < appHeaderLen then none
  else
    let bodyLen := payload.length - appHeaderLen
    if bodyLen > uint16Max then none
    else
      let payload := appEncodeHeader payload kind sequence (.ofNat bodyLen)
      some ((List.range bodyLen).foldl
        (fun payload index => payload.set (appHeaderLen + index) (appPatternByte kind sequence index)) payload)

/-- `ivc_app_encode_text`: the buffer afterwards, and `message_len`. -/
def appEncodeText (payload : List UInt8) (kind : AppKind) (sequence : UInt64) (body : List UInt8) :
    Option (List UInt8 × Nat) :=
  if body.length > uint16Max then none
  else if body.length > sizeMax - appHeaderLen then none
  else
    let required := appHeaderLen + body.length
    if required > payload.length then none
    else
      let payload := appEncodeHeader payload kind sequence (.ofNat body.length)
      some (if 0 < body.length then writeAt payload appHeaderLen body else payload, required)

/-- `struct ivc_app_message`; `body_len` is the length of `body`. -/
structure Message where
  kind : AppKind
  sequence : UInt64
  body : List UInt8
  deriving DecidableEq

/-- `ivc_app_decode` -/
def appDecode (payload : List UInt8) : Option Message :=
  if payload.length < appHeaderLen then none
  else
    match kindOf (payload.getD 0 0) with
    | none => none
    | some kind =>
        let bodyLen := (appReadLe16 (payload.drop 9)).toNat
        if bodyLen ≠ payload.length - appHeaderLen then none
        else some ⟨kind, appReadLe64 (payload.drop 1), (payload.drop appHeaderLen).take bodyLen⟩

/-- `ivc_app_validate_pattern` -/
def appValidatePattern (message : Message) (expectedKind : AppKind) (expectedSequence : UInt64) (expectedLen : Nat) : Bool :=
  if message.kind ≠ expectedKind ∨ message.sequence ≠ expectedSequence ∨ expectedLen < appHeaderLen ∨
      message.body.length ≠ expectedLen - appHeaderLen then false
  else
    (List.range message.body.length).all fun index =>
      message.body.getD index 0 = appPatternByte expectedKind expectedSequence index

/-! ## words -/

@[simp] theorem kindOf_kindCode (kind : AppKind) : kindOf (kindCode kind) = some kind := by
  cases kind <;> decide

theorem kindCode_of_kindOf {byte : UInt8} {kind : AppKind} (h : kindOf byte = some kind) : kindCode kind = byte := by
  unfold kindOf at h
  split at h
  · next hbyte =>
    cases h
    exact hbyte.symm
  · split at h
    · next hbyte =>
      cases h
      exact hbyte.symm
    · split at h
      · next hbyte =>
        cases h
        exact hbyte.symm
      · cases h

theorem appWriteLe16_eq (value : UInt16) : appWriteLe16 value = leBytes 2 value.toNat := by
  have hlow : value.toUInt8 = UInt8.ofNat value.toNat := by
    apply UInt8.toNat_inj.mp
    simp
  have hhigh : (value >>> 8).toUInt8 = UInt8.ofNat (value.toNat / 256) := by
    apply UInt8.toNat_inj.mp
    simp [Nat.shiftRight_eq_div_pow]
  rw [appWriteLe16, hlow, hhigh]
  rfl

theorem appWriteLe64_eq (value : UInt64) : appWriteLe64 value = leBytes 8 value.toNat := by
  rw [appWriteLe64, leBytes_eq_map]
  apply List.map_congr_left
  intro index hindex
  have hindex := List.mem_range.mp hindex
  apply UInt8.toNat_inj.mp
  have hpow : 2 ^ (index * 8) = 256 ^ index := by rw [Nat.mul_comm, Nat.pow_mul]
  have hamount : (UInt64.ofNat (index * charBit)).toNat % 64 = index * 8 := by
    rw [UInt64.toNat_ofNat', charBit]
    omega
  rw [UInt64.toNat_toUInt8, UInt64.toNat_shiftRight, hamount, Nat.shiftRight_eq_div_pow, hpow, UInt8.toNat_ofNat']

theorem toNat_appReadLe16 {input : List UInt8} (h : 2 ≤ input.length) :
    (appReadLe16 input).toNat = leValue (input.take 2) := by
  have hshift (b : UInt8) : (b.toUInt16 <<< 8).toNat = b.toNat <<< 8 := by
    have hb := b.toNat_lt
    simp [Nat.shiftLeft_eq]
    omega
  have hlow := (input.getD 0 0).toNat_lt
  rw [leValue_take_succ (by omega), leValue_take_succ (by omega), appReadLe16, UInt16.toNat_or, hshift,
    UInt8.toNat_toUInt16, or_shiftLeft (by omega)]
  simp [leValue]

/-- The loop of `ivc_app_read_le64` after `n` rounds. -/
theorem toNat_readLoop {input : List UInt8} {n : Nat} (h : n ≤ input.length) (hn : n ≤ 8) :
    ((List.range n).foldl
      (fun value index => value ||| (input.getD index 0).toUInt64 <<< UInt64.ofNat (index * charBit)) 0).toNat =
      leValue (input.take n) := by
  induction n with
  | zero => rfl
  | succ n ih =>
      have hvalue := leValue_lt (input.take n)
      rw [List.length_take_of_le (by omega), show 256 ^ n = 2 ^ (n * 8) by rw [Nat.mul_comm, Nat.pow_mul]] at hvalue
      have hamount : (UInt64.ofNat (n * charBit)).toNat % 64 = n * 8 := by
        rw [UInt64.toNat_ofNat', charBit]
        omega
      have hshift (b : UInt8) : (b.toUInt64 <<< UInt64.ofNat (n * charBit)).toNat = b.toNat <<< (n * 8) := by
        have hb : b.toNat * 2 ^ (n * 8) < 2 ^ 8 * 2 ^ (n * 8) := Nat.mul_lt_mul_of_pos_right b.toNat_lt (Nat.two_pow_pos _)
        have hfits : 2 ^ 8 * 2 ^ (n * 8) ≤ 2 ^ 64 := by
          rw [← Nat.pow_add]
          exact Nat.pow_le_pow_right (by omega) (by omega)
        rw [UInt64.toNat_shiftLeft, hamount, UInt8.toNat_toUInt64, Nat.shiftLeft_eq]
        exact Nat.mod_eq_of_lt (by omega)
      rw [List.range_succ, List.foldl_append, List.foldl_cons, List.foldl_nil, UInt64.toNat_or, ih (by omega) (by omega),
        hshift, or_shiftLeft hvalue, leValue_take_succ (by omega), Nat.mul_comm n 8, Nat.pow_mul]

theorem toNat_appReadLe64 {input : List UInt8} (h : 8 ≤ input.length) :
    (appReadLe64 input).toNat = leValue (input.take 8) := toNat_readLoop h le_rfl

@[simp] theorem length_appWriteLe16 (value : UInt16) : (appWriteLe16 value).length = 2 := rfl

@[simp] theorem length_appWriteLe64 (value : UInt64) : (appWriteLe64 value).length = 8 := by simp [appWriteLe64]

/-- What is written is read back. -/
theorem appReadLe16_append (value : UInt16) (rest : List UInt8) : appReadLe16 (appWriteLe16 value ++ rest) = value := by
  apply UInt16.toNat_inj.mp
  rw [toNat_appReadLe16 (by simp), List.take_left' (by simp), appWriteLe16_eq, leValue_leBytes]
  exact Nat.mod_eq_of_lt value.toNat_lt

theorem appReadLe64_append (value : UInt64) (rest : List UInt8) : appReadLe64 (appWriteLe64 value ++ rest) = value := by
  apply UInt64.toNat_inj.mp
  rw [toNat_appReadLe64 (by simp), List.take_left' (by simp), appWriteLe64_eq, leValue_leBytes]
  exact Nat.mod_eq_of_lt value.toNat_lt

/-- What is read is written back. -/
theorem appWriteLe16_appReadLe16 {input : List UInt8} (h : 2 ≤ input.length) :
    appWriteLe16 (appReadLe16 input) = input.take 2 := by
  have hlen : (input.take 2).length = 2 := List.length_take_of_le h
  rw [appWriteLe16_eq, toNat_appReadLe16 h]
  nth_rewrite 1 [← hlen]
  exact leBytes_leValue _

theorem appWriteLe64_appReadLe64 {input : List UInt8} (h : 8 ≤ input.length) :
    appWriteLe64 (appReadLe64 input) = input.take 8 := by
  have hlen : (input.take 8).length = 8 := List.length_take_of_le h
  rw [appWriteLe64_eq, toNat_appReadLe64 h]
  nth_rewrite 1 [← hlen]
  exact leBytes_leValue _

/-! ## the header -/

/-- The header of a message. -/
def appHeader (kind : AppKind) (sequence : UInt64) (bodyLen : UInt16) : List UInt8 :=
  kindCode kind :: (appWriteLe64 sequence ++ appWriteLe16 bodyLen)

@[simp] theorem length_appHeader (kind : AppKind) (sequence : UInt64) (bodyLen : UInt16) :
    (appHeader kind sequence bodyLen).length = appHeaderLen := by
  simp [appHeader, appHeaderLen]

/-- The header is stored in front of what the buffer holds. -/
theorem appEncodeHeader_eq {payload : List UInt8} (h : appHeaderLen ≤ payload.length) (kind : AppKind)
    (sequence : UInt64) (bodyLen : UInt16) :
    appEncodeHeader payload kind sequence bodyLen = appHeader kind sequence bodyLen ++ payload.drop appHeaderLen := by
  have hkind : payload.set 0 (kindCode kind) = [kindCode kind] ++ payload.drop 1 := by
    cases payload with
    | nil => simp [appHeaderLen] at h
    | cons b rest => simp
  have hsequence : [kindCode kind] ++ (appWriteLe64 sequence ++ (payload.drop 1).drop (appWriteLe64 sequence).length) =
      (kindCode kind :: appWriteLe64 sequence) ++ payload.drop 9 := by
    simp
  rw [appEncodeHeader, hkind, writeAt_length _ _ _ 1 rfl, hsequence, writeAt_length _ _ _ 9 (by simp)]
  simp [appHeader, appHeaderLen]

theorem getD_appHeader (kind : AppKind) (sequence : UInt64) (bodyLen : UInt16) (body : List UInt8) :
    (appHeader kind sequence bodyLen ++ body).getD 0 0 = kindCode kind := rfl

theorem readSequence_appHeader (kind : AppKind) (sequence : UInt64) (bodyLen : UInt16) (body : List UInt8) :
    appReadLe64 ((appHeader kind sequence bodyLen ++ body).drop 1) = sequence := by
  rw [appHeader, List.cons_append, List.append_assoc, List.drop_one, List.tail_cons]
  exact appReadLe64_append sequence _

theorem readBodyLen_appHeader (kind : AppKind) (sequence : UInt64) (bodyLen : UInt16) (body : List UInt8) :
    appReadLe16 ((appHeader kind sequence bodyLen ++ body).drop 9) = bodyLen := by
  have hdrop : (appHeader kind sequence bodyLen ++ body).drop 9 = appWriteLe16 bodyLen ++ body := by
    rw [appHeader, List.cons_append, List.append_assoc, List.drop_succ_cons]
    exact List.drop_left' (length_appWriteLe64 sequence)
  rw [hdrop, appReadLe16_append]

/-- A header and a body are decoded. -/
theorem appDecode_append (kind : AppKind) (sequence : UInt64) {body : List UInt8} (h : body.length ≤ uint16Max) :
    appDecode (appHeader kind sequence (.ofNat body.length) ++ body) = some ⟨kind, sequence, body⟩ := by
  have hlen : (UInt16.ofNat body.length).toNat = body.length := by
    rw [UInt16.toNat_ofNat']
    exact Nat.mod_eq_of_lt (Nat.lt_succ_of_le h)
  have htotal : (appHeader kind sequence (.ofNat body.length) ++ body).length = appHeaderLen + body.length := by simp
  have hbody : (appHeader kind sequence (.ofNat body.length) ++ body).drop appHeaderLen = body :=
    List.drop_left' (length_appHeader ..)
  rw [appDecode, if_neg (by omega), getD_appHeader, kindOf_kindCode]
  simp only [readBodyLen_appHeader, readSequence_appHeader, hbody, hlen, htotal]
  simp

/-- What is decoded is a header and a body. -/
theorem appDecode_sound {payload : List UInt8} {message : Message} (h : appDecode payload = some message) :
    message.body.length ≤ uint16Max ∧
      payload = appHeader message.kind message.sequence (.ofNat message.body.length) ++ message.body := by
  unfold appDecode at h
  split at h
  · cases h
  · next hlen =>
    split at h
    · cases h
    · next kind hkind =>
      simp only at h
      split at h
      · cases h
      · next hbody =>
        rw [not_not] at hbody
        cases h
        have hlen : 11 ≤ payload.length := not_lt.mp hlen
        have hbound := (appReadLe16 (payload.drop 9)).toNat_lt
        have htake : (payload.drop appHeaderLen).take (appReadLe16 (payload.drop 9)).toNat = payload.drop appHeaderLen := by
          rw [hbody, ← List.length_drop, List.take_length]
        have hword : UInt16.ofNat (payload.drop appHeaderLen).length = appReadLe16 (payload.drop 9) := by
          rw [List.length_drop, ← hbody, UInt16.ofNat_toNat]
        simp only [htake, hword]
        constructor
        · rw [List.length_drop, ← hbody, uint16Max]
          omega
        · obtain ⟨b, rest, rfl⟩ := List.exists_cons_of_length_pos (show 0 < payload.length by omega)
          rw [appHeader, kindCode_of_kindOf hkind, appWriteLe64_appReadLe64 (by simp at hlen ⊢; omega),
            appWriteLe16_appReadLe16 (by simp at hlen ⊢; omega)]
          have hrest : rest.take 8 ++ ((rest.drop 8).take 2 ++ (rest.drop 8).drop 2) = rest := by
            rw [List.take_append_drop, List.take_append_drop]
          simpa [appHeaderLen] using hrest.symm

/-- **`ivc_app_decode` accepts exactly a header and a body of the length it
announces.** -/
theorem appDecode_eq_some_iff {payload : List UInt8} {message : Message} :
    appDecode payload = some message ↔ message.body.length ≤ uint16Max ∧
      payload = appHeader message.kind message.sequence (.ofNat message.body.length) ++ message.body := by
  refine ⟨appDecode_sound, fun h => ?_⟩
  rw [h.2]
  exact appDecode_append message.kind message.sequence h.1

/-! ## the encoders -/

/-- `ivc_app_encode_text` stores a header and the body. -/
theorem appEncodeText_eq {payload : List UInt8} (kind : AppKind) (sequence : UInt64) {body : List UInt8}
    (hbody : body.length ≤ uint16Max) (hfits : appHeaderLen + body.length ≤ payload.length) :
    appEncodeText payload kind sequence body =
      some (appHeader kind sequence (.ofNat body.length) ++ body ++ payload.drop (appHeaderLen + body.length),
        appHeaderLen + body.length) := by
  have hsize : ¬ body.length > sizeMax - appHeaderLen := by
    simp only [uint16Max, sizeMax, appHeaderLen] at hbody ⊢
    omega
  have hheader := appEncodeHeader_eq (show appHeaderLen ≤ payload.length by omega) kind sequence (.ofNat body.length)
  simp only [appEncodeText, hheader]
  rw [if_neg (by omega), if_neg hsize, if_neg (by omega)]
  split
  · rw [writeAt_length _ _ _ _ (length_appHeader ..), List.drop_drop]
    simp
  · next hempty =>
    have hnil : body = [] := List.length_eq_zero_iff.mp (by omega)
    simp [hnil]

/-- `ivc_app_encode_text` succeeds exactly when the body and the buffer allow
it. -/
theorem appEncodeText_eq_some_iff {payload : List UInt8} {kind : AppKind} {sequence : UInt64} {body : List UInt8}
    {result : List UInt8 × Nat} : appEncodeText payload kind sequence body = some result ↔
      body.length ≤ uint16Max ∧ appHeaderLen + body.length ≤ payload.length ∧
        result = (appHeader kind sequence (.ofNat body.length) ++ body ++ payload.drop (appHeaderLen + body.length),
          appHeaderLen + body.length) := by
  by_cases hbody : body.length ≤ uint16Max
  · by_cases hfits : appHeaderLen + body.length ≤ payload.length
    · rw [appEncodeText_eq kind sequence hbody hfits, Option.some.injEq]
      simp [hbody, hfits, eq_comm]
    · simp [appEncodeText, hfits, not_le.mp hfits]
  · simp [appEncodeText, hbody, not_le.mp hbody]

/-- The pattern body of a message. -/
def appPattern (kind : AppKind) (sequence : UInt64) (bodyLen : Nat) : List UInt8 :=
  (List.range bodyLen).map (appPatternByte kind sequence)

@[simp] theorem length_appPattern (kind : AppKind) (sequence : UInt64) (bodyLen : Nat) :
    (appPattern kind sequence bodyLen).length = bodyLen := by simp [appPattern]

/-- The loop of `ivc_app_encode_pattern` after `n` rounds. -/
theorem patternLoop_eq (kind : AppKind) (sequence : UInt64) (header rest : List UInt8) {n : Nat} (h : n ≤ rest.length) :
    (List.range n).foldl (fun payload index => payload.set (header.length + index) (appPatternByte kind sequence index))
      (header ++ rest) = header ++ (appPattern kind sequence n ++ rest.drop n) := by
  induction n with
  | zero => simp [appPattern]
  | succ n ih =>
      rw [List.range_succ, List.foldl_append, ih (by omega), List.foldl_cons, List.foldl_nil,
        List.set_append_right _ _ (by omega), Nat.add_sub_cancel_left, List.set_append_right _ _ (by simp)]
      rw [length_appPattern, Nat.sub_self, List.drop_eq_getElem_cons (by omega), List.set_cons_zero]
      simp [appPattern, List.range_succ]

/-- `ivc_app_encode_pattern` succeeds exactly when the header fits and the
length of the body does, and leaves the header and the pattern. -/
theorem appEncodePattern_eq_some_iff {payload result : List UInt8} {kind : AppKind} {sequence : UInt64} :
    appEncodePattern payload kind sequence = some result ↔
      appHeaderLen ≤ payload.length ∧ payload.length - appHeaderLen ≤ uint16Max ∧
        result = appHeader kind sequence (.ofNat (payload.length - appHeaderLen)) ++
          appPattern kind sequence (payload.length - appHeaderLen) := by
  by_cases hlen : appHeaderLen ≤ payload.length
  · by_cases hbody : payload.length - appHeaderLen ≤ uint16Max
    · have hheader := appEncodeHeader_eq hlen kind sequence (.ofNat (payload.length - appHeaderLen))
      have hloop := patternLoop_eq kind sequence (appHeader kind sequence (.ofNat (payload.length - appHeaderLen)))
        (payload.drop appHeaderLen) (n := payload.length - appHeaderLen) (by simp)
      rw [length_appHeader] at hloop
      rw [appEncodePattern, if_neg (by omega)]
      simp only [hheader, hloop]
      rw [if_neg (by omega), Option.some.injEq]
      simp [hlen, hbody, eq_comm]
    · simp [appEncodePattern, hbody, not_le.mp hbody]
  · simp [appEncodePattern, hlen, not_le.mp hlen]

/-- The test that the demo programs make before they send a pattern message. -/
theorem encodesPattern_eq_isSome (payload : List UInt8) (kind : AppKind) (sequence : UInt64) :
    encodesPattern payload.length = (appEncodePattern payload kind sequence).isSome := by
  rw [Bool.eq_iff_iff, Option.isSome_iff_exists]
  simp [appEncodePattern_eq_some_iff, encodesPattern, uint16Max]

/-- The loop of `ivc_app_validate_pattern`. -/
theorem eq_appPattern_iff {kind : AppKind} {sequence : UInt64} {body : List UInt8} :
    body = appPattern kind sequence body.length ↔
      ∀ index < body.length, body.getD index 0 = appPatternByte kind sequence index := by
  constructor
  · intro h index hindex
    rw [h]
    simp [appPattern, hindex]
  · intro h
    apply List.ext_getElem (by simp)
    intro index hindex _
    have hbyte := h index hindex
    simpa [appPattern, hindex] using hbyte

/-- `ivc_app_validate_pattern` accepts exactly the pattern body. -/
theorem appValidatePattern_iff {message : Message} {kind : AppKind} {sequence : UInt64} {len : Nat} :
    appValidatePattern message kind sequence len = true ↔
      appHeaderLen ≤ len ∧ message = ⟨kind, sequence, appPattern kind sequence (len - appHeaderLen)⟩ := by
  obtain ⟨kind', sequence', body⟩ := message
  constructor
  · intro h
    unfold appValidatePattern at h
    split at h
    · cases h
    · next hfields =>
      simp only [not_or, not_not, not_lt] at hfields
      obtain ⟨rfl, rfl, hlen, hbody⟩ := hfields
      have hpattern : body = appPattern kind' sequence' body.length := by
        rw [eq_appPattern_iff]
        simpa using h
      rw [← hbody, ← hpattern]
      exact ⟨hlen, rfl⟩
  · rintro ⟨hlen, h⟩
    cases h
    have hall := eq_appPattern_iff.mp
      (congrArg (appPattern kind sequence) (length_appPattern kind sequence (len - appHeaderLen)).symm)
    rw [appValidatePattern, if_neg (by simp [hlen])]
    simpa using hall

/-- **Decoding and encoding are inverse, and the pattern check accepts exactly
what the pattern encoder writes.** -/
theorem app_codec_exact :
    (∀ payload kind sequence body, body.length ≤ uint16Max → appHeaderLen + body.length ≤ payload.length →
      ∃ written, appEncodeText payload kind sequence body = some (written, appHeaderLen + body.length) ∧
        appDecode (written.take (appHeaderLen + body.length)) = some ⟨kind, sequence, body⟩) ∧
    (∀ p message, appDecode p = some message → ∀ payload : List UInt8, p.length ≤ payload.length →
      ∃ written, appEncodeText payload message.kind message.sequence message.body = some (written, p.length) ∧
        written.take p.length = p) ∧
    (∀ p payload kind sequence,
      (∃ message, appDecode p = some message ∧ appValidatePattern message kind sequence payload.length = true) ↔
        appEncodePattern payload kind sequence = some p) := by
  have htake (kind : AppKind) (sequence : UInt64) (body rest : List UInt8) :
      (appHeader kind sequence (.ofNat body.length) ++ body ++ rest).take (appHeaderLen + body.length) =
        appHeader kind sequence (.ofNat body.length) ++ body :=
    List.take_left' (by simp)
  refine ⟨fun payload kind sequence body hbody hfits => ?_, fun p message hp payload hfits => ?_,
    fun p payload kind sequence => ?_⟩
  · refine ⟨_, appEncodeText_eq kind sequence hbody hfits, ?_⟩
    rw [htake]
    exact appDecode_append kind sequence hbody
  · obtain ⟨hbody, hbytes⟩ := appDecode_sound hp
    have hlen : p.length = appHeaderLen + message.body.length := by
      rw [hbytes]
      simp
    rw [hlen] at hfits ⊢
    refine ⟨_, appEncodeText_eq message.kind message.sequence hbody hfits, ?_⟩
    rw [htake]
    exact hbytes.symm
  · rw [appEncodePattern_eq_some_iff]
    constructor
    · rintro ⟨message, hp, hvalid⟩
      obtain ⟨hlen, rfl⟩ := appValidatePattern_iff.mp hvalid
      obtain ⟨hbody, hbytes⟩ := appDecode_sound hp
      rw [length_appPattern] at hbody hbytes
      exact ⟨hlen, hbody, hbytes⟩
    · rintro ⟨hlen, hbody, rfl⟩
      refine ⟨_, ?_, appValidatePattern_iff.mpr ⟨hlen, rfl⟩⟩
      have hdecode := appDecode_append kind sequence ((length_appPattern kind sequence _).trans_le hbody)
      rw [length_appPattern] at hdecode
      exact hdecode

/-- The acknowledgement `hi` with sequence `1`, in a buffer of 16 bytes. -/
theorem app_codec_exact_ack : ∃ written,
    appEncodeText (List.replicate 16 0) .ack 1 [104, 105] = some (written, 13) ∧
      appDecode (written.take 13) = some ⟨.ack, 1, [104, 105]⟩ :=
  app_codec_exact.1 (List.replicate 16 0) .ack 1 [104, 105] (by decide) (by decide)

end AppProto

end Axivc
