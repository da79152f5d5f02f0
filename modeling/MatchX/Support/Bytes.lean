import Mathlib.Algebra.Order.Ring.Nat
import Mathlib.Data.List.Basic

/-!
# Little-endian words and prefix readers

A word is written with a fixed number of bytes, least significant first. A prefix reader takes
a value off the front of a byte list and leaves the bytes after it; `Reads` says that a reader
turns certain bytes into a value whatever follows them, and composes through the sequence of
readers.
-/

namespace MatchX.Support

/-- The `width` low bytes of a number, least significant first. -/
def littleEndian : Nat → Nat → List UInt8
  | 0, _ => []
  | width + 1, number => UInt8.ofNat number :: littleEndian width (number / 256)

/-- The number that a list of bytes writes, least significant first. -/
def ofLittleEndian : List UInt8 → Nat
  | [] => 0
  | byte :: rest => byte.toNat + 256 * ofLittleEndian rest

/-- A word takes as many bytes as its width. -/
@[simp]
theorem littleEndian_length (width number : Nat) :
    (littleEndian width number).length = width := by
  induction width generalizing number with
  | zero => rfl
  | succ width ih => simp [littleEndian, ih]

/-- A number that fits its width is read back from its bytes. -/
theorem ofLittleEndian_littleEndian {width number : Nat} (fits : number < 256 ^ width) :
    ofLittleEndian (littleEndian width number) = number := by
  induction width generalizing number with
  | zero =>
    simp only [Nat.pow_zero, Nat.lt_one_iff] at fits
    exact fits.symm
  | succ width ih =>
    have smaller : number / 256 < 256 ^ width :=
      Nat.div_lt_of_lt_mul (by rwa [Nat.pow_succ, Nat.mul_comm] at fits)
    simp only [littleEndian, ofLittleEndian, ih smaller, UInt8.toNat_ofNat']
    omega

/-- The bytes of the number that they write are the bytes. -/
theorem littleEndian_ofLittleEndian (bytes : List UInt8) :
    littleEndian bytes.length (ofLittleEndian bytes) = bytes := by
  induction bytes with
  | nil => rfl
  | cons byte rest ih =>
    have small : byte.toNat < 256 := byte.toNat_lt
    have low : UInt8.ofNat (byte.toNat + 256 * ofLittleEndian rest) = byte := by
      apply UInt8.toNat.inj
      rw [UInt8.toNat_ofNat']
      omega
    have high : (byte.toNat + 256 * ofLittleEndian rest) / 256 = ofLittleEndian rest := by omega
    simp only [List.length_cons, ofLittleEndian, littleEndian, low, high, ih]

/-- The number that some bytes write fits their width. -/
theorem ofLittleEndian_lt (bytes : List UInt8) : ofLittleEndian bytes < 256 ^ bytes.length := by
  induction bytes with
  | nil => decide
  | cons byte rest ih =>
    have small : byte.toNat < 256 := byte.toNat_lt
    simp only [ofLittleEndian, List.length_cons, Nat.pow_succ]
    omega

/-- The bytes of a 32-bit word. -/
def bytes32 (word : UInt32) : List UInt8 := littleEndian 4 word.toNat

/-- The bytes of a 64-bit word. -/
def bytes64 (word : UInt64) : List UInt8 := littleEndian 8 word.toNat

/-- The 32-bit word that a list of bytes writes. -/
def word32 (bytes : List UInt8) : UInt32 := UInt32.ofNat (ofLittleEndian bytes)

/-- The 64-bit word that a list of bytes writes. -/
def word64 (bytes : List UInt8) : UInt64 := UInt64.ofNat (ofLittleEndian bytes)

/-- A 32-bit word has four bytes. -/
@[simp]
theorem bytes32_length (word : UInt32) : (bytes32 word).length = 4 := littleEndian_length ..

/-- A 64-bit word has eight bytes. -/
@[simp]
theorem bytes64_length (word : UInt64) : (bytes64 word).length = 8 := littleEndian_length ..

/-- A 32-bit word is read back from its bytes. -/
@[simp]
theorem word32_bytes32 (word : UInt32) : word32 (bytes32 word) = word := by
  rw [word32, bytes32, ofLittleEndian_littleEndian word.toNat_lt]
  exact UInt32.ofNat_toNat

/-- A 64-bit word is read back from its bytes. -/
@[simp]
theorem word64_bytes64 (word : UInt64) : word64 (bytes64 word) = word := by
  rw [word64, bytes64, ofLittleEndian_littleEndian word.toNat_lt]
  exact UInt64.ofNat_toNat

/-- Four bytes are the bytes of the word that they write. -/
theorem bytes32_word32 {bytes : List UInt8} (four : bytes.length = 4) :
    bytes32 (word32 bytes) = bytes := by
  have fits := ofLittleEndian_lt bytes
  have same := littleEndian_ofLittleEndian bytes
  rw [four] at fits same
  rw [bytes32, word32, UInt32.toNat_ofNat_of_lt' fits, same]

/-- Eight bytes are the bytes of the word that they write. -/
theorem bytes64_word64 {bytes : List UInt8} (eight : bytes.length = 8) :
    bytes64 (word64 bytes) = bytes := by
  have fits := ofLittleEndian_lt bytes
  have same := littleEndian_ofLittleEndian bytes
  rw [eight] at fits same
  rw [bytes64, word64, UInt64.toNat_ofNat_of_lt' fits, same]

variable {α β ε : Type}

/-- A reader of a value from the front of a byte list; it leaves the bytes after the value. -/
abbrev Reader (ε : Type) := StateT (List UInt8) (Except ε)

/-- Take bytes off the front, or fail when there are fewer. -/
def takeBytes (short : ε) (count : Nat) : Reader ε (List UInt8) := fun bytes =>
  if bytes.length < count then .error short else .ok (bytes.take count, bytes.drop count)

/-- Take one byte off the front, or fail when there is none. -/
def takeByte (short : ε) : Reader ε UInt8
  | [] => .error short
  | byte :: rest => .ok (byte, rest)

/-- A reader turns these bytes into this value, whatever bytes follow. -/
def Reads (reader : Reader ε α) (bytes : List UInt8) (value : α) : Prop :=
  ∀ rest, reader (bytes ++ rest) = .ok (value, rest)

/-- Returning a value reads nothing. -/
theorem Reads.pure (value : α) : Reads (Pure.pure value : Reader ε α) [] value := fun _ => rfl

/-- Two readers one after the other read the bytes of the first, then those of the second. -/
theorem Reads.bind {reader : Reader ε α} {next : α → Reader ε β} {first second : List UInt8}
    {value : α} {result : β} (head : Reads reader first value)
    (tail : Reads (next value) second result) : Reads (reader >>= next) (first ++ second) result := by
  intro rest
  have run : reader (first ++ (second ++ rest)) = .ok (value, second ++ rest) := head _
  rw [List.append_assoc]
  change (reader (first ++ (second ++ rest)) >>= fun found => next found.1 found.2) = _
  rw [run]
  exact tail rest

/-- A function applied to what is read. -/
theorem Reads.map {reader : Reader ε α} {bytes : List UInt8} {value : α} (change : α → β)
    (head : Reads reader bytes value) : Reads (change <$> reader) bytes (change value) := by
  intro rest
  change (reader (bytes ++ rest) >>= fun found => .ok (change found.1, found.2)) = _
  rw [head rest]
  rfl

/-- A computation that reads nothing and returns, followed by a reader. -/
theorem Reads.lift_bind {computed : Except ε α} {next : α → Reader ε β} {bytes : List UInt8}
    {value : α} {result : β} (returned : computed = .ok value)
    (tail : Reads (next value) bytes result) :
    Reads ((liftM computed : Reader ε α) >>= next) bytes result := by
  subst returned
  exact tail

/-- Taking one byte reads it. -/
theorem takeByte_reads (short : ε) (byte : UInt8) : Reads (takeByte short) [byte] byte :=
  fun _ => rfl

/-- Taking as many bytes as there are reads them. -/
theorem takeBytes_reads (short : ε) (bytes : List UInt8) :
    Reads (takeBytes short bytes.length) bytes bytes := by
  intro rest
  simp [takeBytes]

/-- Every value that the reader reads stood in its input as exactly these bytes, so no value is
read from two encodings. -/
def Canonical (reader : Reader ε α) (bytes : α → List UInt8) : Prop :=
  ∀ data value rest, reader data = .ok (value, rest) → data = bytes value ++ rest

/-- To show something of what two readers one after the other have read, put the bytes of the
first value at its front. -/
@[elab_as_elim]
theorem Canonical.bind {reader : Reader ε α} {next : α → Reader ε β} {bytes : α → List UInt8}
    {data rest : List UInt8} {result : β} {motive : List UInt8 → Prop}
    (canonical : Canonical reader bytes)
    (read : (reader >>= next) data = .ok (result, rest))
    (tail : ∀ value middle, next value middle = .ok (result, rest) →
      motive (bytes value ++ middle)) : motive data := by
  change (reader data >>= fun found => next found.1 found.2) = _ at read
  cases first : reader data with
  | error failed => rw [first] at read; cases read
  | ok found =>
    rw [first] at read
    rw [canonical data found.1 found.2 first]
    exact tail found.1 found.2 read

/-- What a function changed after it was read was read as it is. -/
theorem map_ok {reader : Reader ε α} {change : α → β} {data rest : List UInt8} {result : β}
    (read : (change <$> reader) data = .ok (result, rest)) :
    ∃ value, reader data = .ok (value, rest) ∧ result = change value := by
  change (reader data >>= fun found => .ok (change found.1, found.2)) = _ at read
  cases first : reader data with
  | error failed => rw [first] at read; cases read
  | ok found =>
    rw [first] at read
    cases read
    exact ⟨found.1, rfl, rfl⟩

/-- A computation that reads nothing has returned before the reader after it reads. -/
theorem lift_bind_ok {computed : Except ε α} {next : α → Reader ε β} {data rest : List UInt8}
    {result : β} (read : ((liftM computed : Reader ε α) >>= next) data = .ok (result, rest)) :
    ∃ value, computed = .ok value ∧ next value data = .ok (result, rest) := by
  cases computed with
  | error failed => cases read
  | ok value => exact ⟨value, rfl, read⟩

/-- Taking one byte is canonical. -/
theorem takeByte_canonical (short : ε) : Canonical (takeByte short) fun byte => [byte] := by
  intro data value rest read
  cases data with
  | nil => cases read
  | cons byte others => cases read; rfl

/-- Taking some bytes takes so many. -/
theorem takeBytes_length {short : ε} {count : Nat} {data value rest : List UInt8}
    (read : takeBytes short count data = .ok (value, rest)) : value.length = count := by
  rw [takeBytes] at read
  split at read
  · cases read
  · cases read
    rw [List.length_take]
    omega

/-- Taking some bytes is canonical. -/
theorem takeBytes_canonical (short : ε) (count : Nat) :
    Canonical (takeBytes short count) fun bytes => bytes := by
  intro data value rest read
  rw [takeBytes] at read
  split at read
  · cases read
  · cases read
    exact (List.take_append_drop count data).symm

/-- A reader fails, when it fails, with this error. -/
def FailsWith (failure : ε) (reader : Reader ε α) : Prop :=
  ∀ data error, reader data = .error error → error = failure

/-- Returning a value does not fail. -/
theorem FailsWith.pure {failure : ε} (value : α) :
    FailsWith failure (Pure.pure value : Reader ε α) := by
  intro data error failed
  cases failed

/-- Failing with the error is failing with it. -/
theorem FailsWith.throw (failure : ε) : FailsWith failure (throw failure : Reader ε α) := by
  intro data error failed
  cases failed
  rfl

/-- Two readers one after the other fail as they do. -/
theorem FailsWith.bind {failure : ε} {reader : Reader ε α} {next : α → Reader ε β}
    (head : FailsWith failure reader) (tail : ∀ value, FailsWith failure (next value)) :
    FailsWith failure (reader >>= next) := by
  intro data error failed
  change (reader data >>= fun found => next found.1 found.2) = _ at failed
  cases first : reader data with
  | error other =>
    rw [first] at failed
    cases failed
    exact head data error first
  | ok found =>
    rw [first] at failed
    exact tail found.1 found.2 error failed

/-- A function applied to what is read does not fail. -/
theorem FailsWith.map {failure : ε} {reader : Reader ε α} (change : α → β)
    (head : FailsWith failure reader) : FailsWith failure (change <$> reader) := by
  intro data error failed
  change (reader data >>= fun found => .ok (change found.1, found.2)) = _ at failed
  cases first : reader data with
  | error other =>
    rw [first] at failed
    cases failed
    exact head data error first
  | ok found => rw [first] at failed; cases failed

/-- A computation that reads nothing fails with its error. -/
theorem FailsWith.lift {failure : ε} {computed : Except ε α}
    (fails : ∀ error, computed = .error error → error = failure) :
    FailsWith failure (liftM computed : Reader ε α) := by
  intro data error failed
  cases computed with
  | error other => cases failed; exact fails error rfl
  | ok value => cases failed

/-- Taking a byte fails with the error that it was given. -/
theorem takeByte_failsWith (short : ε) : FailsWith short (takeByte short) := by
  intro data error failed
  cases data with
  | nil => cases failed; rfl
  | cons byte rest => cases failed

/-- Taking some bytes fails with the error that it was given. -/
theorem takeBytes_failsWith (short : ε) (count : Nat) :
    FailsWith short (takeBytes short count) := by
  intro data error failed
  rw [takeBytes] at failed
  split at failed
  · cases failed; rfl
  · cases failed

end MatchX.Support
