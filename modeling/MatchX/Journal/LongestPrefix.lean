import MatchX.Journal.SingleFile
import MatchX.Support.Positions

/-!
# Recovery keeps the longest valid prefix

Whatever bytes a file holds, recovery keeps the longest beginning that splits into records that
the decoder accepts, and the reader then finds exactly these. The decoder and the loop of the
recovery are given here once more as they index their arrays, with an access outside of one as a
fault. They do what the plain ones do, so they meet no fault.
-/

namespace MatchX.Journal

open Support

/-! ### Indexing -/

/-- `read_u8!`, indexing. -/
def readU8At (bytes : List UInt8) : PositionReader JournalError UInt8 :=
  indexByte .invalidData bytes

/-- `read_u32!`, indexing. -/
def readU32At (bytes : List UInt8) : PositionReader JournalError UInt32 :=
  word32 <$> indexBytes .invalidData bytes 4

/-- `read_u64!`, indexing. -/
def readU64At (bytes : List UInt8) : PositionReader JournalError UInt64 :=
  word64 <$> indexBytes .invalidData bytes 8

/-- An optional word, indexing. -/
def readOptionAt {α : Type} (bytes : List UInt8) (read : PositionReader JournalError α) :
    PositionReader JournalError (Option α) := do
  match ← readU8At bytes with
  | 0 => pure none
  | 1 => some <$> read
  | _ => throw .invalidData

/-- A command, indexing. -/
def readCommandAt (bytes : List UInt8) : PositionReader JournalError Command := do
  match ← readU8At bytes with
  | 0 =>
    let id ← readU64At bytes
    let instrumentId ← readU32At bytes
    let side ← decodeSide (← readU8At bytes)
    let price ← readU64At bytes
    let qty ← readU64At bytes
    let orderType ← decodeOrderType (← readU8At bytes)
    let timeInForce ← decodeTif (← readU8At bytes)
    let visibleQty ← readOptionAt bytes (readU64At bytes)
    let stopPrice ← readOptionAt bytes (readU64At bytes)
    let stpGroup ← readOptionAt bytes (readU32At bytes)
    pure (.newOrder instrumentId
      { id, side, price, qty, orderType, timeInForce, visibleQty, stopPrice, stpGroup })
  | 1 =>
    let id ← readU64At bytes
    pure (.cancelOrder id)
  | 2 =>
    let id ← readU64At bytes
    let newPrice ← readU64At bytes
    let newQty ← readU64At bytes
    pure (.modifyOrder id newPrice newQty)
  | _ => throw .invalidData

/-- `decode`, indexing. -/
def decodeAt (bytes : List UInt8) : Option (Except JournalError Command) :=
  Option.map (Except.map Prod.fst) (readCommandAt bytes 0)

/-- `decode_record`, indexing. -/
def decodeRecordAt (crc32 : List UInt8 → UInt32) (data : List UInt8) :
    Option (Except JournalError (UInt64 × Command × Nat)) := do
  if data.length < 4 then return .error .invalidData
  let payloadLen := (word32 (← indexRange data 0 4)).toNat
  if 2 ^ 20 < payloadLen then return .error .invalidData
  let required := 4 + 8 + payloadLen + 4
  if data.length < required then return .error .invalidData
  let sequence := word64 (← indexRange data 4 12)
  let payload ← indexRange data 12 (12 + payloadLen)
  let storedCrc := word32 (← indexRange data (12 + payloadLen) (12 + payloadLen + 4))
  let computedCrc := crc32 (crcInput sequence payload)
  if computedCrc != storedCrc then return .error .crcMismatch
  return (← decodeAt payload).map fun cmd => (sequence, cmd, required)

/-- Indexing the bytes of an optional word follows reading it. -/
theorem readOptionAt_follows {α : Type} {bytes : List UInt8}
    {indexing : PositionReader JournalError α} {read : Reader JournalError α}
    (follows : Follows bytes indexing read) :
    Follows bytes (readOptionAt bytes indexing) (readOption read) := by
  refine (indexByte_follows _ bytes).bind fun tag => ?_
  split
  · exact .pure none
  · exact follows.map some
  · rename_i notZero notOne
    simpa only [notZero, notOne] using Follows.throw _

/-- Indexing the bytes of a command follows reading it. -/
theorem readCommandAt_follows (bytes : List UInt8) :
    Follows bytes (readCommandAt bytes) readCommand := by
  have byte : Follows bytes (readU8At bytes) readU8 := indexByte_follows _ bytes
  have word : Follows bytes (readU32At bytes) readU32 := (indexBytes_follows _ bytes 4).map word32
  have long : Follows bytes (readU64At bytes) readU64 := (indexBytes_follows _ bytes 8).map word64
  refine byte.bind fun opcode => ?_
  split
  · refine long.bind fun id => ?_
    refine word.bind fun instrumentId => ?_
    refine byte.bind fun sideTag => ?_
    refine (Follows.lift (decodeSide sideTag)).bind fun side => ?_
    refine long.bind fun price => ?_
    refine long.bind fun qty => ?_
    refine byte.bind fun typeTag => ?_
    refine (Follows.lift (decodeOrderType typeTag)).bind fun orderType => ?_
    refine byte.bind fun tifTag => ?_
    refine (Follows.lift (decodeTif tifTag)).bind fun timeInForce => ?_
    refine (readOptionAt_follows long).bind fun visibleQty => ?_
    refine (readOptionAt_follows long).bind fun stopPrice => ?_
    refine (readOptionAt_follows word).bind fun stpGroup => ?_
    exact .pure _
  · exact long.bind fun id => .pure _
  · refine long.bind fun id => ?_
    refine long.bind fun newPrice => ?_
    exact long.bind fun newQty => .pure _
  · rename_i notZero notOne notTwo
    simpa only [notZero, notOne, notTwo] using Follows.throw _

/-- Decoding a payload stays within it. -/
theorem decodeAt_eq (bytes : List UInt8) : decodeAt bytes = some (decode bytes) := by
  have followed := readCommandAt_follows bytes 0 (Nat.zero_le _)
  rw [List.drop_zero] at followed
  obtain ⟨error, read, indexed⟩ | ⟨value, next, _, read, indexed⟩ := followed
  · rw [decodeAt, decode, read, indexed]
    rfl
  · rw [decodeAt, decode, read, indexed]
    rfl

/-- A range inside the data is the slice. -/
theorem indexRange_slice {data : List UInt8} {start stop count : Nat} (ends : stop = start + count)
    (inside : stop ≤ data.length) : indexRange data start stop = some (slice data start count) := by
  subst ends
  rw [indexRange_inside (Nat.le_add_right start count) inside, Nat.add_sub_cancel_left, slice]

/-- Decoding a record stays within the data. -/
theorem decodeRecordAt_eq (crc32 : List UInt8 → UInt32) (data : List UInt8) :
    decodeRecordAt crc32 data = some (decodeRecord crc32 data) := by
  unfold decodeRecordAt decodeRecord
  by_cases few : data.length < 4
  · rw [if_pos few, if_pos few]
    rfl
  have first := indexRange_slice (Nat.zero_add 4).symm (Nat.le_of_not_lt few)
  rw [if_neg few, if_neg few, first, Option.bind_eq_bind, Option.bind_some]
  extract_lets payloadLen required sequence payload storedCrc computedCrc
  by_cases large : 2 ^ 20 < payloadLen
  · rw [if_pos large, if_pos large]
    rfl
  rw [if_neg large, if_neg large]
  by_cases short : data.length < required
  · rw [if_pos short, if_pos short]
    rfl
  have whole : required ≤ data.length := Nat.le_of_not_lt short
  have second : indexRange data 4 12 = some (slice data 4 8) := indexRange_slice rfl (by omega)
  have third : indexRange data 12 (12 + payloadLen) = some payload :=
    indexRange_slice rfl (by omega)
  have fourth : indexRange data (12 + payloadLen) (12 + payloadLen + 4) =
      some (slice data (12 + payloadLen) 4) := indexRange_slice rfl (by omega)
  rw [if_neg short, if_neg short, second, third, fourth]
  change (if computedCrc != storedCrc then some (.error .crcMismatch)
    else (decodeAt payload).bind fun read =>
      some (read.map fun cmd => (sequence, cmd, required))) = _
  rw [decodeAt_eq]
  split <;> rfl

/-- The loop of `recover_file`, indexing. -/
def scanFromAt (crc32 : List UInt8 → UInt32) (data : List UInt8) (pos lastValidOffset : Nat)
    (lastValidSequence : UInt64) : Option (Except JournalError (Nat × UInt64)) :=
  if pos < data.length then
    match _decoded : (indexRange data pos data.length).bind (decodeRecordAt crc32) with
    | none => none
    | some (.ok (sequence, _, used)) =>
      scanFromAt crc32 data (pos + used) (pos + used) sequence
    | some (.error .invalidData) | some (.error .crcMismatch) =>
      some (.ok (lastValidOffset, lastValidSequence))
    | some (.error error) => some (.error error)
  else some (.ok (lastValidOffset, lastValidSequence))
termination_by data.length - pos
decreasing_by
  rename_i inside _
  rw [indexRange_inside (Nat.le_of_lt inside) (Nat.le_refl _), Option.bind_some, decodeRecordAt_eq,
    Option.some.injEq] at _decoded
  have := decodeRecord_used _decoded
  simp only at this
  omega

/-- `recover_file`, indexing; the subtraction of the kept bytes may fall below zero too. -/
def recoverFileAt (crc32 : List UInt8 → UInt32) (dir : Directory) (path : String) :
    Option (Except JournalError (Directory × RecoveryReport)) :=
  let data := dir.read path
  match scanFromAt crc32 data 0 0 0 with
  | none => none
  | some (.error error) => some (.error error)
  | some (.ok (lastValidOffset, lastValidSequence)) =>
    if data.length < lastValidOffset then none
    else
      let truncatedBytes := data.length - lastValidOffset
      let dir := if 0 < truncatedBytes then dir.setLen path lastValidOffset else dir
      some (.ok (dir, ⟨lastValidSequence, truncatedBytes⟩))

variable {crc32 : List UInt8 → UInt32}

/-- What is left of the data from a position on is decoded, indexing, as it is. -/
theorem decodeRest_eq {data : List UInt8} {pos : Nat} (inside : pos < data.length) :
    (indexRange data pos data.length).bind (decodeRecordAt crc32) =
      some (decodeRecord crc32 (data.drop pos)) := by
  rw [indexRange_inside (Nat.le_of_lt inside) (Nat.le_refl _), Option.bind_some, decodeRecordAt_eq,
    List.take_of_length_le (by rw [List.length_drop])]

/-- The scan stays within the data. -/
theorem scanFromAt_eq (data : List UInt8) (pos lastValidOffset : Nat)
    (lastValidSequence : UInt64) :
    scanFromAt crc32 data pos lastValidOffset lastValidSequence =
      some (scanFrom crc32 data pos lastValidOffset lastValidSequence) := by
  fun_induction scanFrom crc32 data pos lastValidOffset lastValidSequence with
  | case1 pos offset last inside sequence command used decoded ih =>
    have same := @decodeRest_eq crc32 _ _ inside
    rw [decoded] at same
    rw [scanFromAt, if_pos inside]
    split <;> rename_i found <;> cases same.symm.trans found
    exact ih
  | case2 pos offset last inside decoded =>
    have same := @decodeRest_eq crc32 _ _ inside
    rw [decoded] at same
    rw [scanFromAt, if_pos inside]
    split <;> rename_i found <;> cases same.symm.trans found
    · rfl
    · contradiction
  | case3 pos offset last inside decoded =>
    have same := @decodeRest_eq crc32 _ _ inside
    rw [decoded] at same
    rw [scanFromAt, if_pos inside]
    split <;> rename_i found <;> cases same.symm.trans found
    · rfl
    · contradiction
  | case4 pos offset last inside error invalid mismatch decoded =>
    obtain rfl | rfl := decodeRecord_error decoded
    · exact absurd rfl invalid
    · exact absurd rfl mismatch
  | case5 pos offset last ended => rw [scanFromAt, if_neg ended]

/-! ### The longest prefix -/

/-- Recovery stays within the bytes of the file. -/
theorem recoverFileAt_eq (dir : Directory) (path : String) :
    recoverFileAt crc32 dir path = some (recoverFile crc32 dir path) := by
  obtain ⟨kept, removed, entries, held, splits, stuck⟩ :=
    (@acceptRecord_front crc32).exists_longest (dir.read path)
  have scanned := scanFrom_splits splits [] stuck 0
  rw [List.nil_append, List.nil_append, List.length_nil] at scanned
  have inside : ¬ (kept ++ removed).length < kept.length := by
    rw [List.length_append]
    omega
  simp only [recoverFileAt, recoverFile, held, scanFromAt_eq, scanned, if_neg inside]
  rfl

/-- Recovery of a file, whatever its bytes are, meets no fault and no error. It keeps the longest
beginning of the file that splits into accepted records, and reports the sequence number of the
last of these and the bytes that it removed. The reader then finds exactly these records, and
another recovery changes nothing. -/
theorem recoverFile_longest (crc32 : List UInt8 → UInt32) (dir : Directory) (path : String)
    (present : path ∈ dir.names) :
    recoverFileAt crc32 dir path = some (recoverFile crc32 dir path) ∧
    ∃ kept removed entries,
      dir.read path = kept ++ removed ∧
      Splits (acceptRecord crc32) kept entries ∧
      (∀ start others, start <+: dir.read path → Splits (acceptRecord crc32) start others →
        start <+: kept) ∧
      recoverFile crc32 dir path =
        .ok (dir.put path kept, ⟨lastSequence 0 entries, removed.length⟩) ∧
      (JournalReader.openFile (dir.put path kept) path).bind
        (fun reader => reader.readAll crc32 (dir.put path kept)) = .ok entries ∧
      recoverFile crc32 (dir.put path kept) path =
        .ok (dir.put path kept, ⟨lastSequence 0 entries, 0⟩) := by
  obtain ⟨kept, removed, entries, held, splits, stuck⟩ :=
    (@acceptRecord_front crc32).exists_longest (dir.read path)
  have bytes : (dir.put path kept).contents path = kept := dir.put_self path kept
  refine ⟨recoverFileAt_eq dir path, kept, removed, entries, held, splits, ?_, ?_, ?_, ?_⟩
  · intro start others begins other
    exact (other.longest acceptRecord_front begins splits held stuck).1
  · exact recoverFile_splits held splits stuck
  · have there : path ∈ (dir.put path kept).names := present
    apply readAll_splits there
    rw [Directory.read, bytes]
    exact splits
  · -- Nothing is behind the records now, and putting the same bytes again changes nothing.
    have parted : (dir.put path kept).contents path = kept ++ [] :=
      bytes.trans (List.append_nil kept).symm
    have again := recoverFile_splits parted splits rfl
    rw [again]
    simp only [Directory.put, Function.update_idem, List.length_nil]

/-- A file of one record, a byte of garbage behind it, and one more record. -/
theorem recoverFile_longest_garbage :
    let dir : Directory := ⟨["wal"], fun _ =>
      encodeRecord crc32Hash 1 (.cancelOrder 7) ++ ([255] ++
        encodeRecord crc32Hash 2 (.cancelOrder 8))⟩
    recoverFileAt crc32Hash dir "wal" = some (recoverFile crc32Hash dir "wal") ∧
    ∃ kept removed entries,
      dir.read "wal" = kept ++ removed ∧
      Splits (acceptRecord crc32Hash) kept entries ∧
      (∀ start others, start <+: dir.read "wal" → Splits (acceptRecord crc32Hash) start others →
        start <+: kept) ∧
      recoverFile crc32Hash dir "wal" =
        .ok (dir.put "wal" kept, ⟨lastSequence 0 entries, removed.length⟩) ∧
      (JournalReader.openFile (dir.put "wal" kept) "wal").bind
        (fun reader => reader.readAll crc32Hash (dir.put "wal" kept)) = .ok entries ∧
      recoverFile crc32Hash (dir.put "wal" kept) "wal" =
        .ok (dir.put "wal" kept, ⟨lastSequence 0 entries, 0⟩) :=
  recoverFile_longest crc32Hash _ "wal" (List.mem_singleton_self _)

end MatchX.Journal
