import MatchX.Types
import MatchX.Support.Bytes

/-!
# Journal records

A journal record frames one command: the length of its payload, its sequence number, the
payload and a checksum of the sequence number and the payload. The checksum function comes
from a library and is a parameter. A record is read back from the front of any bytes that
follow it, and no shorter piece of it is read at all; recovery after a torn write rests on
these two facts.
-/

namespace MatchX.Journal

open Support

/-- Errors of the journal. -/
inductive JournalError where
  /-- The file system failed. -/
  | io
  /-- A record does not match its checksum. -/
  | crcMismatch
  /-- The bytes are not a record. -/
  | invalidData
  /-- The queue of the journal has no free slot. -/
  | queueFull
  /-- The worker has stopped. -/
  | writerStopped
  /-- The worker met an error of the file system. -/
  | writerDegraded
  deriving DecidableEq, Repr

/-- `side as u8`. -/
def sideByte : Side → UInt8
  | .bid => 0
  | .ask => 1

/-- `order_type as u8`. -/
def orderTypeByte : OrderType → UInt8
  | .limit => 0
  | .market => 1
  | .postOnly => 2
  | .stopLimit => 3
  | .iceberg => 4

/-- `time_in_force as u8`. -/
def timeInForceByte : TimeInForce → UInt8
  | .gtc => 0
  | .ioc => 1
  | .fok => 2

/-- An optional word: a tag, and the word when there is one. -/
def pushOption {α : Type} (bytes : α → List UInt8) : Option α → List UInt8
  | none => [0]
  | some value => 1 :: bytes value

/-- `push_option_u64`. -/
def pushOptionU64 : Option UInt64 → List UInt8 := pushOption bytes64

/-- `push_option_u32`. -/
def pushOptionU32 : Option UInt32 → List UInt8 := pushOption bytes32

/-- The payload of a command. -/
def encode : Command → List UInt8
  | .newOrder instrumentId order =>
    [0] ++ (bytes64 order.id ++ (bytes32 instrumentId ++ ([sideByte order.side] ++
      (bytes64 order.price ++ (bytes64 order.qty ++ ([orderTypeByte order.orderType] ++
      ([timeInForceByte order.timeInForce] ++ (pushOptionU64 order.visibleQty ++
      (pushOptionU64 order.stopPrice ++ (pushOptionU32 order.stpGroup ++ []))))))))))
  | .cancelOrder id => [1] ++ (bytes64 id ++ [])
  | .modifyOrder id newPrice newQty =>
    [2] ++ (bytes64 id ++ (bytes64 newPrice ++ (bytes64 newQty ++ [])))

/-- `decode_side`. -/
def decodeSide (byte : UInt8) : Except JournalError Side :=
  match byte with
  | 0 => .ok .bid
  | 1 => .ok .ask
  | _ => .error .invalidData

/-- `decode_order_type`. -/
def decodeOrderType (byte : UInt8) : Except JournalError OrderType :=
  match byte with
  | 0 => .ok .limit
  | 1 => .ok .market
  | 2 => .ok .postOnly
  | 3 => .ok .stopLimit
  | 4 => .ok .iceberg
  | _ => .error .invalidData

/-- `decode_tif`. -/
def decodeTif (byte : UInt8) : Except JournalError TimeInForce :=
  match byte with
  | 0 => .ok .gtc
  | 1 => .ok .ioc
  | 2 => .ok .fok
  | _ => .error .invalidData

/-- `read_u8!`. -/
def readU8 : Reader JournalError UInt8 := takeByte .invalidData

/-- `read_u32!`. -/
def readU32 : Reader JournalError UInt32 := word32 <$> takeBytes .invalidData 4

/-- `read_u64!`. -/
def readU64 : Reader JournalError UInt64 := word64 <$> takeBytes .invalidData 8

/-- An optional word: the tag tells whether one follows. -/
def readOption {α : Type} (read : Reader JournalError α) : Reader JournalError (Option α) := do
  match ← readU8 with
  | 0 => pure none
  | 1 => some <$> read
  | _ => throw .invalidData

/-- Read a command from the front of a payload. -/
def readCommand : Reader JournalError Command := do
  match ← readU8 with
  | 0 =>
    let id ← readU64
    let instrumentId ← readU32
    let side ← decodeSide (← readU8)
    let price ← readU64
    let qty ← readU64
    let orderType ← decodeOrderType (← readU8)
    let timeInForce ← decodeTif (← readU8)
    let visibleQty ← readOption readU64
    let stopPrice ← readOption readU64
    let stpGroup ← readOption readU32
    pure (.newOrder instrumentId
      { id, side, price, qty, orderType, timeInForce, visibleQty, stopPrice, stpGroup })
  | 1 =>
    let id ← readU64
    pure (.cancelOrder id)
  | 2 =>
    let id ← readU64
    let newPrice ← readU64
    let newQty ← readU64
    pure (.modifyOrder id newPrice newQty)
  | _ => throw .invalidData

/-- The command of a payload; bytes after it are not looked at. -/
def decode (bytes : List UInt8) : Except JournalError Command :=
  (readCommand bytes).map Prod.fst

/-- The checksum of a record covers its sequence number and its payload. -/
def crcInput (sequence : UInt64) (payload : List UInt8) : List UInt8 :=
  bytes64 sequence ++ payload

/-- One framed record: payload length, sequence number, payload, checksum. -/
def encodeRecord (crc32 : List UInt8 → UInt32) (sequence : UInt64) (cmd : Command) :
    List UInt8 :=
  let payload := encode cmd
  let payloadLen := UInt32.ofNat payload.length
  let crc := crc32 (crcInput sequence payload)
  bytes32 payloadLen ++ (bytes64 sequence ++ (payload ++ bytes32 crc))

/-- `data[start..start + count]`. -/
def slice (data : List UInt8) (start count : Nat) : List UInt8 := (data.drop start).take count

/-- Decode one framed record from the beginning of the data: its sequence number, its command
and the bytes consumed. -/
def decodeRecord (crc32 : List UInt8 → UInt32) (data : List UInt8) :
    Except JournalError (UInt64 × Command × Nat) :=
  if data.length < 4 then .error .invalidData
  else
    let payloadLen := (word32 (slice data 0 4)).toNat
    if 2 ^ 20 < payloadLen then .error .invalidData
    else
      let required := 4 + 8 + payloadLen + 4
      if data.length < required then .error .invalidData
      else
        let sequence := word64 (slice data 4 8)
        let payload := slice data 12 payloadLen
        let storedCrc := word32 (slice data (12 + payloadLen) 4)
        let computedCrc := crc32 (crcInput sequence payload)
        if computedCrc != storedCrc then .error .crcMismatch
        else (decode payload).map fun cmd => (sequence, cmd, required)

/-- One bit of the CRC-32 division, with the reflected polynomial. -/
def crc32Bit (crc : UInt32) : UInt32 :=
  if crc &&& 1 = 1 then (crc >>> 1) ^^^ 0xedb88320 else crc >>> 1

/-- CRC-32, which the checksum library computes. -/
def crc32Hash (bytes : List UInt8) : UInt32 :=
  (bytes.foldl (fun crc byte => Nat.repeat crc32Bit 8 (crc ^^^ byte.toUInt32)) 0xffffffff) ^^^
    0xffffffff

/-- The check value of CRC-32: the checksum of the digits 1 to 9. -/
example : crc32Hash [0x31, 0x32, 0x33, 0x34, 0x35, 0x36, 0x37, 0x38, 0x39] = 0xcbf43926 := by
  decide +kernel

/-- A decoded record takes sixteen bytes and its payload, of the length in its first bytes. -/
theorem decodeRecord_used_eq {crc32 : List UInt8 → UInt32} {data : List UInt8}
    {found : UInt64 × Command × Nat} (decoded : decodeRecord crc32 data = .ok found) :
    found.2.2 = 4 + (8 + (word32 (data.take 4)).toNat + 4) := by
  unfold decodeRecord at decoded
  extract_lets payloadLen required sequence payload storedCrc computedCrc at decoded
  split at decoded
  · cases decoded
  split at decoded
  · cases decoded
  split at decoded
  · cases decoded
  split at decoded
  · cases decoded
  cases read : decode payload with
  | error failed => rw [read] at decoded; cases decoded
  | ok cmd =>
    rw [read] at decoded
    cases decoded
    simp only [required, payloadLen, slice, List.drop_zero]
    omega

/-- A decoded record takes at least sixteen bytes. -/
theorem decodeRecord_used {crc32 : List UInt8 → UInt32} {data : List UInt8}
    {found : UInt64 × Command × Nat} (decoded : decodeRecord crc32 data = .ok found) :
    16 ≤ found.2.2 := by
  rw [decodeRecord_used_eq decoded]
  omega

/-! ### What is written is read back -/

/-- A side is decoded from its byte. -/
@[simp]
theorem decodeSide_sideByte (side : Side) : decodeSide (sideByte side) = .ok side := by
  cases side <;> rfl

/-- An order type is decoded from its byte. -/
@[simp]
theorem decodeOrderType_orderTypeByte (orderType : OrderType) :
    decodeOrderType (orderTypeByte orderType) = .ok orderType := by
  cases orderType <;> rfl

/-- A time in force is decoded from its byte. -/
@[simp]
theorem decodeTif_timeInForceByte (timeInForce : TimeInForce) :
    decodeTif (timeInForceByte timeInForce) = .ok timeInForce := by
  cases timeInForce <;> rfl

/-- A byte is read from itself. -/
theorem readU8_reads (byte : UInt8) : Reads readU8 [byte] byte := takeByte_reads _ byte

/-- A 32-bit word is read from its bytes. -/
theorem readU32_reads (word : UInt32) : Reads readU32 (bytes32 word) word := by
  have taken := (takeBytes_reads JournalError.invalidData (bytes32 word)).map word32
  rwa [bytes32_length, word32_bytes32] at taken

/-- A 64-bit word is read from its bytes. -/
theorem readU64_reads (word : UInt64) : Reads readU64 (bytes64 word) word := by
  have taken := (takeBytes_reads JournalError.invalidData (bytes64 word)).map word64
  rwa [bytes64_length, word64_bytes64] at taken

/-- An optional word is read from its tag and its bytes. -/
theorem readOption_reads {α : Type} {read : Reader JournalError α} {bytes : α → List UInt8}
    (reads : ∀ value, Reads read (bytes value) value) (value : Option α) :
    Reads (readOption read) (pushOption bytes value) value := by
  cases value with
  | none => exact (readU8_reads 0).bind (.pure none)
  | some word => exact (readU8_reads 1).bind ((reads word).map some)

/-- A command is read from its payload. -/
theorem readCommand_reads (cmd : Command) : Reads readCommand (encode cmd) cmd := by
  cases cmd with
  | newOrder instrumentId order =>
    refine (readU8_reads 0).bind ?_
    refine (readU64_reads order.id).bind ?_
    refine (readU32_reads instrumentId).bind ?_
    refine (readU8_reads (sideByte order.side)).bind ?_
    refine .lift_bind (decodeSide_sideByte order.side) ?_
    refine (readU64_reads order.price).bind ?_
    refine (readU64_reads order.qty).bind ?_
    refine (readU8_reads (orderTypeByte order.orderType)).bind ?_
    refine .lift_bind (decodeOrderType_orderTypeByte order.orderType) ?_
    refine (readU8_reads (timeInForceByte order.timeInForce)).bind ?_
    refine .lift_bind (decodeTif_timeInForceByte order.timeInForce) ?_
    refine (readOption_reads readU64_reads order.visibleQty).bind ?_
    refine (readOption_reads readU64_reads order.stopPrice).bind ?_
    refine (readOption_reads readU32_reads order.stpGroup).bind ?_
    exact .pure _
  | cancelOrder id =>
    refine (readU8_reads 1).bind ?_
    refine (readU64_reads id).bind ?_
    exact .pure _
  | modifyOrder id newPrice newQty =>
    refine (readU8_reads 2).bind ?_
    refine (readU64_reads id).bind ?_
    refine (readU64_reads newPrice).bind ?_
    refine (readU64_reads newQty).bind ?_
    exact .pure _

/-- Decoding the payload of a command returns the command. -/
theorem decode_encode (cmd : Command) : decode (encode cmd) = .ok cmd := by
  have read := readCommand_reads cmd []
  rw [List.append_nil] at read
  rw [decode, read]
  rfl

/-- An optional word takes its tag and at most the bytes of the word. -/
theorem pushOption_length_le {α : Type} {bytes : α → List UInt8} {width : Nat}
    (wide : ∀ value, (bytes value).length = width) (value : Option α) :
    (pushOption bytes value).length ≤ width + 1 := by
  cases value <;> simp [pushOption, wide]

/-- A payload has at most 55 bytes. -/
theorem encode_length_le (cmd : Command) : (encode cmd).length ≤ 55 := by
  cases cmd with
  | newOrder instrumentId order =>
    have visible := pushOption_length_le bytes64_length order.visibleQty
    have stop := pushOption_length_le bytes64_length order.stopPrice
    have group := pushOption_length_le bytes32_length order.stpGroup
    simp only [encode, pushOptionU64, pushOptionU32, List.length_append, List.length_cons,
      List.length_nil, bytes64_length, bytes32_length]
    omega
  | cancelOrder id => simp [encode]
  | modifyOrder id newPrice newQty => simp [encode]

variable (crc32 : List UInt8 → UInt32)

/-- A record is sixteen bytes longer than its payload. -/
theorem encodeRecord_length (sequence : UInt64) (cmd : Command) :
    (encodeRecord crc32 sequence cmd).length = 4 + 8 + (encode cmd).length + 4 := by
  simp only [encodeRecord, List.length_append, bytes32_length, bytes64_length]
  omega

/-- The length of a payload fits its field. -/
theorem payloadLen_toNat (cmd : Command) :
    (UInt32.ofNat (encode cmd).length).toNat = (encode cmd).length := by
  have short := encode_length_le cmd
  rw [UInt32.toNat_ofNat']
  exact Nat.mod_eq_of_lt (by omega)

/-- A slice that lies between two pieces is the middle piece. -/
theorem slice_append {before middle : List UInt8} {start count : Nat} (after : List UInt8)
    (starts : before.length = start) (counts : middle.length = count) :
    slice (before ++ (middle ++ after)) start count = middle := by
  subst starts counts
  simp [slice]

/-- A payload of at most a mebibyte, framed: its length, a sequence number, the payload and the
checksum of both. -/
def frame (sequence : UInt64) (payload : List UInt8) : List UInt8 :=
  bytes32 (UInt32.ofNat payload.length) ++ (bytes64 sequence ++ (payload ++
    bytes32 (crc32 (crcInput sequence payload))))

/-- A frame is sixteen bytes longer than its payload. -/
@[simp]
theorem frame_length (sequence : UInt64) (payload : List UInt8) :
    (frame crc32 sequence payload).length = 4 + 8 + payload.length + 4 := by
  simp only [frame, List.length_append, bytes32_length, bytes64_length]
  omega

/-- A frame at the front of the data is decoded, whatever follows, as its payload is. -/
theorem decodeRecord_frame (sequence : UInt64) {payload : List UInt8}
    (small : payload.length ≤ 2 ^ 20) (rest : List UInt8) :
    decodeRecord crc32 (frame crc32 sequence payload ++ rest) =
      (decode payload).map fun cmd => (sequence, cmd, (frame crc32 sequence payload).length) := by
  have long := frame_length crc32 sequence payload
  have total : (frame crc32 sequence payload ++ rest).length =
      4 + 8 + payload.length + 4 + rest.length := by rw [List.length_append, long]
  set data := frame crc32 sequence payload ++ rest with data_def
  let size := bytes32 (UInt32.ofNat payload.length)
  let crc := bytes32 (crc32 (crcInput sequence payload))
  have pieces : data = size ++ (bytes64 sequence ++ (payload ++ (crc ++ rest))) := by
    simp only [data_def, frame, List.append_assoc, size, crc]
  have first : slice data 0 4 = size := by
    rw [pieces]
    exact @slice_append [] _ _ _ _ rfl (bytes32_length _)
  have second : slice data 4 8 = bytes64 sequence := by
    rw [pieces]
    exact slice_append _ (bytes32_length _) (bytes64_length _)
  have third : slice data 12 payload.length = payload := by
    rw [pieces, ← List.append_assoc]
    exact slice_append _ (by simp [size]) rfl
  have fourth : slice data (12 + payload.length) 4 = crc := by
    rw [pieces, ← List.append_assoc, ← List.append_assoc]
    exact slice_append _ (by simp [size]; omega) (bytes32_length _)
  have lengthRead : (word32 size).toNat = payload.length := by
    rw [word32_bytes32, UInt32.toNat_ofNat']
    exact Nat.mod_eq_of_lt (by omega)
  simp only [decodeRecord, first, lengthRead, second, third, fourth, word64_bytes64, crc,
    word32_bytes32, bne_self_eq_false, Bool.false_eq_true, if_false, long]
  rw [if_neg (by omega), if_neg (by omega), if_neg (by omega)]

/-- A record is decoded from the front of whatever follows it. -/
theorem decodeRecord_encodeRecord (sequence : UInt64) (cmd : Command) (rest : List UInt8) :
    decodeRecord crc32 (encodeRecord crc32 sequence cmd ++ rest) =
      .ok (sequence, cmd, (encodeRecord crc32 sequence cmd).length) := by
  have small := encode_length_le cmd
  have decoded := decodeRecord_frame crc32 sequence (Nat.le_trans small (by decide)) rest
  rw [decode_encode] at decoded
  exact decoded

/-- A piece of a record that lacks its end is no record. -/
theorem decodeRecord_cut (sequence : UInt64) (cmd : Command) (count : Nat)
    (short : count < (encodeRecord crc32 sequence cmd).length) :
    decodeRecord crc32 ((encodeRecord crc32 sequence cmd).take count) = .error .invalidData := by
  have kept : ((encodeRecord crc32 sequence cmd).take count).length = count :=
    List.length_take_of_le (Nat.le_of_lt short)
  have long := encodeRecord_length crc32 sequence cmd
  by_cases few : count < 4
  · rw [decodeRecord, kept, if_pos few]
  · -- The length field is whole, and asks for more bytes than there are.
    have first : slice ((encodeRecord crc32 sequence cmd).take count) 0 4 =
        bytes32 (UInt32.ofNat (encode cmd).length) := by
      simp only [slice, List.drop_zero, List.take_take, Nat.min_eq_left (Nat.not_lt.mp few)]
      exact @slice_append [] _ _ _ _ rfl (bytes32_length _)
    have small := encode_length_le cmd
    simp only [decodeRecord, kept, first, word32_bytes32, payloadLen_toNat]
    rw [if_neg few, if_neg (by omega), if_pos (by omega)]

end MatchX.Journal
