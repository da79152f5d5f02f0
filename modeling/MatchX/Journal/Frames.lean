import MatchX.Journal.Codec

/-!
# What the decoder accepts

A record is accepted exactly when the data begins with a frame whose payload decodes: the
checks of length and checksum leave nothing else. The payload of an accepted record begins
with the encoding of its command, but nothing makes it end there. The length that an opcode
and its tags call for tells the records of the encoder from the longer ones.
-/

namespace MatchX.Journal

open Support

/-! ### Payloads -/

/-- Reading a byte is canonical. -/
theorem readU8_canonical : Canonical readU8 fun byte => [byte] := takeByte_canonical _

/-- Reading a 32-bit word is canonical. -/
theorem readU32_canonical : Canonical readU32 bytes32 := by
  intro data value rest read
  obtain ⟨bytes, taken, rfl⟩ := map_ok read
  rw [bytes32_word32 (takeBytes_length taken)]
  exact takeBytes_canonical _ _ _ _ _ taken

/-- Reading a 64-bit word is canonical. -/
theorem readU64_canonical : Canonical readU64 bytes64 := by
  intro data value rest read
  obtain ⟨bytes, taken, rfl⟩ := map_ok read
  rw [bytes64_word64 (takeBytes_length taken)]
  exact takeBytes_canonical _ _ _ _ _ taken

/-- Reading an optional word is canonical when reading the word is. -/
theorem readOption_canonical {α : Type} {read : Reader JournalError α} {bytes : α → List UInt8}
    (canonical : Canonical read bytes) : Canonical (readOption read) (pushOption bytes) := by
  intro data value rest found
  refine readU8_canonical.bind found fun tag middle found => ?_
  split at found
  · cases found
    rfl
  · obtain ⟨word, word_read, rfl⟩ := map_ok found
    rw [canonical _ _ _ word_read]
    rfl
  · cases found

/-- A decoded side has its byte. -/
theorem sideByte_of_decodeSide {byte : UInt8} {side : Side} (decoded : decodeSide byte = .ok side) :
    sideByte side = byte := by
  unfold decodeSide at decoded
  split at decoded <;> cases decoded <;> rfl

/-- A decoded order type has its byte. -/
theorem orderTypeByte_of_decodeOrderType {byte : UInt8} {orderType : OrderType}
    (decoded : decodeOrderType byte = .ok orderType) : orderTypeByte orderType = byte := by
  unfold decodeOrderType at decoded
  split at decoded <;> cases decoded <;> rfl

/-- A decoded time in force has its byte. -/
theorem timeInForceByte_of_decodeTif {byte : UInt8} {timeInForce : TimeInForce}
    (decoded : decodeTif byte = .ok timeInForce) : timeInForceByte timeInForce = byte := by
  unfold decodeTif at decoded
  split at decoded <;> cases decoded <;> rfl

/-- A command that is read stood at the front of the payload as its encoding. -/
theorem readCommand_canonical : Canonical readCommand encode := by
  intro data cmd rest read
  refine readU8_canonical.bind read fun opcode data read => ?_
  split at read
  · refine readU64_canonical.bind read fun id data read => ?_
    refine readU32_canonical.bind read fun instrumentId data read => ?_
    refine readU8_canonical.bind read fun sideTag data read => ?_
    obtain ⟨side, sideRead, read⟩ := lift_bind_ok read
    refine readU64_canonical.bind read fun price data read => ?_
    refine readU64_canonical.bind read fun qty data read => ?_
    refine readU8_canonical.bind read fun typeTag data read => ?_
    obtain ⟨orderType, typeRead, read⟩ := lift_bind_ok read
    refine readU8_canonical.bind read fun tifTag data read => ?_
    obtain ⟨timeInForce, tifRead, read⟩ := lift_bind_ok read
    refine (readOption_canonical readU64_canonical).bind read fun visibleQty data read => ?_
    refine (readOption_canonical readU64_canonical).bind read fun stopPrice data read => ?_
    refine (readOption_canonical readU32_canonical).bind read fun stpGroup data read => ?_
    cases read
    simp only [encode, pushOptionU64, pushOptionU32, sideByte_of_decodeSide sideRead,
      orderTypeByte_of_decodeOrderType typeRead, timeInForceByte_of_decodeTif tifRead,
      List.append_assoc, List.append_nil]
  · refine readU64_canonical.bind read fun id data read => ?_
    cases read
    simp only [encode, List.append_assoc, List.append_nil]
  · refine readU64_canonical.bind read fun id data read => ?_
    refine readU64_canonical.bind read fun newPrice data read => ?_
    refine readU64_canonical.bind read fun newQty data read => ?_
    cases read
    simp only [encode, List.append_assoc, List.append_nil]
  · cases read

/-- A payload that decodes is the encoding of its command and bytes that are not looked at. -/
theorem decode_ok {payload : List UInt8} {cmd : Command} (decoded : decode payload = .ok cmd) :
    ∃ surplus, payload = encode cmd ++ surplus := by
  rw [decode] at decoded
  cases read : readCommand payload with
  | error failed => rw [read] at decoded; cases decoded
  | ok found =>
    rw [read] at decoded
    cases decoded
    exact ⟨found.2, readCommand_canonical _ _ _ read⟩

/-- Reading a byte fails at the end of the bytes. -/
theorem readU8_failsWith : FailsWith .invalidData readU8 := takeByte_failsWith _

/-- Reading a 32-bit word fails at the end of the bytes. -/
theorem readU32_failsWith : FailsWith .invalidData readU32 := (takeBytes_failsWith _ 4).map word32

/-- Reading a 64-bit word fails at the end of the bytes. -/
theorem readU64_failsWith : FailsWith .invalidData readU64 := (takeBytes_failsWith _ 8).map word64

/-- Reading an optional word fails at a wrong tag and where reading the word does. -/
theorem readOption_failsWith {α : Type} {read : Reader JournalError α}
    (fails : FailsWith .invalidData read) : FailsWith .invalidData (readOption read) := by
  refine readU8_failsWith.bind fun tag => ?_
  split
  · exact .pure none
  · exact fails.map some
  · exact .throw _

/-- A side is refused as invalid data. -/
theorem decodeSide_failsWith (byte : UInt8) :
    FailsWith .invalidData (liftM (decodeSide byte) : Reader JournalError Side) := by
  refine .lift fun error failed => ?_
  unfold decodeSide at failed
  split at failed <;> cases failed
  rfl

/-- An order type is refused as invalid data. -/
theorem decodeOrderType_failsWith (byte : UInt8) :
    FailsWith .invalidData (liftM (decodeOrderType byte) : Reader JournalError OrderType) := by
  refine .lift fun error failed => ?_
  unfold decodeOrderType at failed
  split at failed <;> cases failed
  rfl

/-- A time in force is refused as invalid data. -/
theorem decodeTif_failsWith (byte : UInt8) :
    FailsWith .invalidData (liftM (decodeTif byte) : Reader JournalError TimeInForce) := by
  refine .lift fun error failed => ?_
  unfold decodeTif at failed
  split at failed <;> cases failed
  rfl

/-- A payload is refused as invalid data. -/
theorem readCommand_failsWith : FailsWith .invalidData readCommand := by
  refine readU8_failsWith.bind fun opcode => ?_
  split
  · refine readU64_failsWith.bind fun id => ?_
    refine readU32_failsWith.bind fun instrumentId => ?_
    refine readU8_failsWith.bind fun sideTag => ?_
    refine (decodeSide_failsWith sideTag).bind fun side => ?_
    refine readU64_failsWith.bind fun price => ?_
    refine readU64_failsWith.bind fun qty => ?_
    refine readU8_failsWith.bind fun typeTag => ?_
    refine (decodeOrderType_failsWith typeTag).bind fun orderType => ?_
    refine readU8_failsWith.bind fun tifTag => ?_
    refine (decodeTif_failsWith tifTag).bind fun timeInForce => ?_
    refine (readOption_failsWith readU64_failsWith).bind fun visibleQty => ?_
    refine (readOption_failsWith readU64_failsWith).bind fun stopPrice => ?_
    refine (readOption_failsWith readU32_failsWith).bind fun stpGroup => ?_
    exact .pure _
  · exact readU64_failsWith.bind fun id => .pure _
  · refine readU64_failsWith.bind fun id => ?_
    refine readU64_failsWith.bind fun newPrice => ?_
    exact readU64_failsWith.bind fun newQty => .pure _
  · exact .throw _

/-- Bytes of an optional word of this width whose tag is at this place. -/
def optionLength (payload : List UInt8) (place width : Nat) : Nat :=
  if payload[place]? = some 1 then 1 + width else 1

/-- The length that the opcode of a payload and its tags call for. -/
def commandLength (payload : List UInt8) : Nat :=
  if payload[0]? = some 0 then
    let visibleEnd := 32 + optionLength payload 32 8
    let stopEnd := visibleEnd + optionLength payload visibleEnd 8
    stopEnd + optionLength payload stopEnd 4
  else if payload[0]? = some 1 then 9
  else 25

/-- The tag of an optional word tells the length of its bytes. -/
theorem optionLength_pushOption {α : Type} {bytes : α → List UInt8} {width : Nat}
    (wide : ∀ value, (bytes value).length = width) (before after : List UInt8)
    (value : Option α) :
    optionLength (before ++ (pushOption bytes value ++ after)) before.length width =
      (pushOption bytes value).length := by
  rw [optionLength, List.getElem?_append_right (Nat.le_refl _), Nat.sub_self]
  cases value with
  | none => simp [pushOption]
  | some word => simp [pushOption, wide, Nat.add_comm]

/-- The length that an encoded command calls for is its own, whatever follows it. -/
theorem commandLength_encode (cmd : Command) (surplus : List UInt8) :
    commandLength (encode cmd ++ surplus) = (encode cmd).length := by
  cases cmd with
  | newOrder instrumentId order =>
    let header := [0] ++ (bytes64 order.id ++ (bytes32 instrumentId ++ ([sideByte order.side] ++
      (bytes64 order.price ++ (bytes64 order.qty ++ ([orderTypeByte order.orderType] ++
      [timeInForceByte order.timeInForce]))))))
    let visible := pushOptionU64 order.visibleQty
    let stop := pushOptionU64 order.stopPrice
    let group := pushOptionU32 order.stpGroup
    have header_length : header.length = 32 := by simp [header]
    have pieces : encode (.newOrder instrumentId order) ++ surplus =
        header ++ (visible ++ (stop ++ (group ++ surplus))) := by
      simp [encode, header, visible, stop, group]
    have length : (encode (.newOrder instrumentId order)).length =
        32 + visible.length + stop.length + group.length := by
      simp [encode, visible, stop, group]
      omega
    have first := optionLength_pushOption bytes64_length header (stop ++ (group ++ surplus))
      order.visibleQty
    have second := optionLength_pushOption bytes64_length (header ++ visible) (group ++ surplus)
      order.stopPrice
    have third := optionLength_pushOption bytes32_length (header ++ (visible ++ stop)) surplus
      order.stpGroup
    simp only [List.append_assoc, List.length_append, header_length] at first second third
    have opcode : (encode (.newOrder instrumentId order) ++ surplus)[0]? = some 0 := rfl
    rw [commandLength, if_pos opcode, length, pieces]
    simp only [visible, stop, group, pushOptionU64, pushOptionU32] at first second third ⊢
    rw [first, second, Nat.add_assoc 32, third]
  | cancelOrder id => simp [encode, commandLength]
  | modifyOrder id newPrice newQty => simp [encode, commandLength]

/-- A payload that decodes encodes its command exactly when it has the length that it calls
for. -/
theorem decode_exact_iff {payload : List UInt8} {cmd : Command}
    (decoded : decode payload = .ok cmd) :
    encode cmd = payload ↔ payload.length = commandLength payload := by
  obtain ⟨surplus, rfl⟩ := decode_ok decoded
  rw [commandLength_encode, List.length_append, List.self_eq_append_right, Nat.add_eq_left,
    List.length_eq_zero_iff]

/-! ### Records -/

variable {crc32 : List UInt8 → UInt32}

/-- The bytes that the length field of a record takes for its payload. -/
def payloadField (data : List UInt8) : List UInt8 :=
  slice data 12 (word32 (slice data 0 4)).toNat

/-- Two neighbouring pieces of some data. -/
theorem slice_split (data : List UInt8) (start count : Nat) :
    data.drop start = slice data start count ++ data.drop (start + count) := by
  rw [slice, ← List.drop_drop, List.take_append_drop]

/-- A slice that lies inside the data has all its bytes. -/
theorem slice_length {data : List UInt8} {start count : Nat}
    (inside : start + count ≤ data.length) : (slice data start count).length = count := by
  rw [slice, List.length_take, List.length_drop]
  omega

/-- Accepted data begins with a frame, whose payload decodes and fits a mebibyte. -/
theorem decodeRecord_ok {data : List UInt8} {sequence : UInt64} {cmd : Command} {used : Nat}
    (decoded : decodeRecord crc32 data = .ok (sequence, cmd, used)) :
    (payloadField data).length ≤ 2 ^ 20 ∧ decode (payloadField data) = .ok cmd ∧
      used = (frame crc32 sequence (payloadField data)).length ∧
      data = frame crc32 sequence (payloadField data) ++ data.drop used := by
  unfold decodeRecord at decoded
  extract_lets payloadLen required sequenceField payload storedCrc computedCrc at decoded
  split at decoded
  · cases decoded
  split at decoded
  · cases decoded
  split at decoded
  · cases decoded
  split at decoded
  · cases decoded
  rename_i four small whole same
  cases read : decode payload with
  | error failed => rw [read] at decoded; cases decoded
  | ok found =>
    rw [read] at decoded
    simp only [Except.map, Except.ok.injEq, Prod.mk.injEq] at decoded
    obtain ⟨same_sequence, same_cmd, same_used⟩ := decoded
    rw [← same_sequence, ← same_cmd, ← same_used]
    have payload_length : payload.length = payloadLen := slice_length (by omega)
    have size : bytes32 (UInt32.ofNat payload.length) = slice data 0 4 := by
      rw [payload_length, UInt32.ofNat_toNat]
      exact bytes32_word32 (slice_length (by omega))
    have sequence_bytes : bytes64 sequenceField = slice data 4 8 :=
      bytes64_word64 (slice_length (by omega))
    have crc : bytes32 (crc32 (crcInput sequenceField payload)) =
        slice data (12 + payloadLen) 4 := by
      have stored : computedCrc = storedCrc := by simpa using same
      change bytes32 computedCrc = _
      rw [stored]
      exact bytes32_word32 (slice_length (by omega))
    refine ⟨?_, read, ?_, ?_⟩
    · change payload.length ≤ _
      omega
    · change required = (frame crc32 sequenceField payload).length
      rw [frame_length, payload_length]
    · change data = frame crc32 sequenceField payload ++ data.drop required
      rw [frame, size, sequence_bytes, crc, List.append_assoc, List.append_assoc,
        List.append_assoc]
      have last := slice_split data (12 + payloadLen) 4
      rw [show 12 + payloadLen + 4 = required by omega] at last
      rw [← last, ← slice_split data 12 payloadLen, ← slice_split data 4 8,
        ← slice_split data 0 4]
      rfl

/-- Data is refused as no record or for its checksum, never for another reason. -/
theorem decodeRecord_error {data : List UInt8} {error : JournalError}
    (refused : decodeRecord crc32 data = .error error) :
    error = .invalidData ∨ error = .crcMismatch := by
  unfold decodeRecord at refused
  extract_lets payloadLen required sequence payload storedCrc computedCrc at refused
  split at refused
  · cases refused; exact .inl rfl
  split at refused
  · cases refused; exact .inl rfl
  split at refused
  · cases refused; exact .inl rfl
  split at refused
  · cases refused; exact .inr rfl
  cases read : decode payload with
  | error failed =>
    rw [read] at refused
    cases refused
    cases command : readCommand payload with
    | error reason =>
      rw [decode, command] at read
      cases read
      exact .inl (readCommand_failsWith payload error command)
    | ok found => rw [decode, command] at read; cases read
  | ok found => rw [read] at refused; cases refused

/-- The bytes that accepted data has used are its frame. -/
theorem decodeRecord_take {data : List UInt8} {sequence : UInt64} {cmd : Command} {used : Nat}
    (decoded : decodeRecord crc32 data = .ok (sequence, cmd, used)) :
    data.take used = frame crc32 sequence (payloadField data) := by
  obtain ⟨_, _, used_eq, pieces⟩ := decodeRecord_ok decoded
  have taken := congrArg (List.take used) pieces
  rwa [used_eq, List.take_left, ← used_eq] at taken

/-- Accepted data holds all the bytes that it has used. -/
theorem decodeRecord_used_le {data : List UInt8} {sequence : UInt64} {cmd : Command} {used : Nat}
    (decoded : decodeRecord crc32 data = .ok (sequence, cmd, used)) : used ≤ data.length := by
  obtain ⟨_, _, used_eq, pieces⟩ := decodeRecord_ok decoded
  have total := congrArg List.length pieces
  rw [List.length_append, ← used_eq] at total
  omega

/-- An accepted record is the one that the encoder writes for its command, and one that the
encoder writes at all, exactly when its payload has the length that its opcode and its tags call
for. -/
theorem decodeRecord_canonical_iff {data : List UInt8} {sequence : UInt64} {cmd : Command}
    {used : Nat} (decoded : decodeRecord crc32 data = .ok (sequence, cmd, used)) :
    used ≤ data.length ∧
      (encodeRecord crc32 sequence cmd = data.take used ↔
        (payloadField data).length = commandLength (payloadField data)) ∧
      ((∃ other otherCmd, encodeRecord crc32 other otherCmd = data.take used) ↔
        (payloadField data).length = commandLength (payloadField data)) := by
  obtain ⟨_, read, _, _⟩ := decodeRecord_ok decoded
  have taken := decodeRecord_take decoded
  have exact_iff : encodeRecord crc32 sequence cmd = data.take used ↔
      (payloadField data).length = commandLength (payloadField data) := by
    rw [← decode_exact_iff read, taken]
    constructor
    · intro same
      have length := congrArg List.length same
      rw [encodeRecord_length, frame_length] at length
      obtain ⟨surplus, payload_eq⟩ := decode_ok read
      rw [payload_eq, List.length_append] at length
      have none_left : surplus = [] := List.eq_nil_of_length_eq_zero (by omega)
      rw [payload_eq, none_left, List.append_nil]
    · intro same
      rw [← same]
      rfl
  refine ⟨decodeRecord_used_le decoded, exact_iff, ?_, ?_⟩
  · rintro ⟨other, otherCmd, same⟩
    -- What the encoder wrote is decoded as what it was written for.
    have again := decodeRecord_encodeRecord crc32 other otherCmd (data.drop used)
    rw [same, List.take_append_drop, decoded] at again
    simp only [Except.ok.injEq, Prod.mk.injEq] at again
    obtain ⟨rfl, rfl, -⟩ := again
    exact exact_iff.mp same
  · intro same
    exact ⟨sequence, cmd, exact_iff.mpr same⟩

/-- The record of a cancellation with a byte behind it is accepted, and is what the encoder
writes. -/
theorem decodeRecord_canonical_cancel :
    25 ≤ (encodeRecord crc32Hash 1 (.cancelOrder 7) ++ [9]).length ∧
      encodeRecord crc32Hash 1 (.cancelOrder 7) =
        (encodeRecord crc32Hash 1 (.cancelOrder 7) ++ [9]).take 25 := by
  have decoded := decodeRecord_encodeRecord crc32Hash 1 (.cancelOrder 7) [9]
  rw [encodeRecord_length] at decoded
  have lengths : (payloadField (encodeRecord crc32Hash 1 (.cancelOrder 7) ++ [9])).length =
      commandLength (payloadField (encodeRecord crc32Hash 1 (.cancelOrder 7) ++ [9])) := by
    decide +kernel
  obtain ⟨within, same, -⟩ := decodeRecord_canonical_iff decoded
  exact ⟨within, same.mpr lengths⟩

/-- A frame whose payload has one byte behind the cancellation of order 7 is accepted as that
cancellation, with all its 26 bytes used, although the encoder writes 25 bytes for it. -/
theorem decodeRecord_surplus_accepted :
    decodeRecord crc32Hash (frame crc32Hash 1 [1, 7, 0, 0, 0, 0, 0, 0, 0, 255]) =
        .ok (1, .cancelOrder 7, 26) ∧
      encodeRecord crc32Hash 1 (.cancelOrder 7) ≠
        (frame crc32Hash 1 [1, 7, 0, 0, 0, 0, 0, 0, 0, 255]).take 26 := by
  decide +kernel

end MatchX.Journal
