import MatchX.Support.Bytes

/-!
# Readers that index

A position reader goes through a byte array with an index into it. Taking a byte or a range
outside the array is a fault, kept apart from the errors that the reader itself reports. A
position reader follows a prefix reader when it finds the same values and errors and moves to
where the bytes begin that the prefix reader leaves; then it meets no fault.
-/

namespace MatchX.Support

variable {α β ε : Type}

/-- A reader with a position into a byte array; `none` is an access outside the array. -/
abbrev PositionReader (ε : Type) := StateT Nat (ExceptT ε Option)

/-- `bytes[start..stop]`. -/
def indexRange (bytes : List UInt8) (start stop : Nat) : Option (List UInt8) :=
  if start ≤ stop ∧ stop ≤ bytes.length then some ((bytes.drop start).take (stop - start)) else none

/-- A range inside the array is there. -/
theorem indexRange_inside {bytes : List UInt8} {start stop : Nat} (ordered : start ≤ stop)
    (inside : stop ≤ bytes.length) :
    indexRange bytes start stop = some ((bytes.drop start).take (stop - start)) :=
  if_pos ⟨ordered, inside⟩

/-- Check that there is another byte, and index it. -/
def indexByte (short : ε) (bytes : List UInt8) : PositionReader ε UInt8 := fun pos =>
  if bytes.length ≤ pos then some (.error short)
  else bytes[pos]?.map fun byte => .ok (byte, pos + 1)

/-- Check that there are some more bytes, and index their range. -/
def indexBytes (short : ε) (bytes : List UInt8) (count : Nat) :
    PositionReader ε (List UInt8) := fun pos =>
  if bytes.length < pos + count then some (.error short)
  else (indexRange bytes pos (pos + count)).map fun taken => .ok (taken, pos + count)

/-- From every position in the array, the position reader does what the prefix reader does on
the bytes from there. -/
def Follows (bytes : List UInt8) (indexing : PositionReader ε α) (reader : Reader ε α) : Prop :=
  ∀ pos ≤ bytes.length,
    (∃ error, reader (bytes.drop pos) = .error error ∧ indexing pos = some (.error error)) ∨
    ∃ value next, next ≤ bytes.length ∧ reader (bytes.drop pos) = .ok (value, bytes.drop next) ∧
      indexing pos = some (.ok (value, next))

variable {bytes : List UInt8}

/-- Returning a value is followed by returning it. -/
theorem Follows.pure (value : α) :
    Follows bytes (Pure.pure value : PositionReader ε α) (Pure.pure value) :=
  fun pos inside => .inr ⟨value, pos, inside, rfl, rfl⟩

/-- Failing is followed by failing. -/
theorem Follows.throw (error : ε) :
    Follows bytes (throw error : PositionReader ε α) (throw error) :=
  fun _ _ => .inl ⟨error, rfl, rfl⟩

/-- A computation that reads nothing follows itself. -/
theorem Follows.lift (computed : Except ε α) :
    Follows bytes (liftM computed : PositionReader ε α) (liftM computed : Reader ε α) := by
  intro pos inside
  cases computed with
  | error error => exact .inl ⟨error, rfl, rfl⟩
  | ok value => exact .inr ⟨value, pos, inside, rfl, rfl⟩

/-- Two readers one after the other follow two readers one after the other. -/
theorem Follows.bind {indexing : PositionReader ε α} {reader : Reader ε α}
    {further : α → PositionReader ε β} {next : α → Reader ε β}
    (head : Follows bytes indexing reader)
    (tail : ∀ value, Follows bytes (further value) (next value)) :
    Follows bytes (indexing >>= further) (reader >>= next) := by
  intro pos inside
  have first : (reader >>= next) (bytes.drop pos) =
      (reader (bytes.drop pos)).bind fun found => next found.1 found.2 := rfl
  have second : (indexing >>= further) pos =
      Option.bind (indexing pos) (ExceptT.bindCont fun found => further found.1 found.2) := rfl
  rw [first, second]
  obtain ⟨error, read, indexed⟩ | ⟨value, place, within, read, indexed⟩ := head pos inside
  · rw [read, indexed]
    exact .inl ⟨error, rfl, rfl⟩
  · rw [read, indexed]
    exact tail value place within

/-- A function applied to what is read. -/
theorem Follows.map {indexing : PositionReader ε α} {reader : Reader ε α} (change : α → β)
    (head : Follows bytes indexing reader) :
    Follows bytes (change <$> indexing) (change <$> reader) := by
  have changed := head.bind fun value => .pure (change value)
  rwa [bind_pure_comp, bind_pure_comp] at changed

/-- Indexing the next byte follows taking it. -/
theorem indexByte_follows (short : ε) (bytes : List UInt8) :
    Follows bytes (indexByte short bytes) (takeByte short) := by
  intro pos inside
  by_cases ends : bytes.length ≤ pos
  · refine .inl ⟨short, ?_, if_pos ends⟩
    rw [List.drop_eq_nil_of_le ends]
    rfl
  · have more : pos < bytes.length := Nat.lt_of_not_le ends
    refine .inr ⟨bytes[pos], pos + 1, more, ?_, ?_⟩
    · rw [List.drop_eq_getElem_cons more]
      rfl
    · rw [indexByte, if_neg ends, List.getElem?_eq_getElem more]
      rfl

/-- Indexing the next bytes follows taking them. -/
theorem indexBytes_follows (short : ε) (bytes : List UInt8) (count : Nat) :
    Follows bytes (indexBytes short bytes count) (takeBytes short count) := by
  intro pos inside
  by_cases few : bytes.length < pos + count
  · refine .inl ⟨short, if_pos ?_, if_pos few⟩
    rw [List.length_drop]
    omega
  · have enough : pos + count ≤ bytes.length := Nat.le_of_not_lt few
    refine .inr ⟨(bytes.drop pos).take count, pos + count, enough, ?_, ?_⟩
    · rw [takeBytes, if_neg (by rw [List.length_drop]; omega), List.drop_drop]
    · rw [indexBytes, if_neg few, indexRange_inside (Nat.le_add_right pos count) enough,
        Nat.add_sub_cancel_left]
      rfl

end MatchX.Support
