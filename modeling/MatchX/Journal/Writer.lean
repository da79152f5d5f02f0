import MatchX.Journal.Codec
import MatchX.Support.Framing
import MatchX.Support.Decimal
import Mathlib.Data.List.Sort

/-!
# Journal files and their writer

A directory holds the files of a journal. The writer appends records to a single file, or to
segments: it starts a new segment when the next record would take the current one past its
limit. The names of the segments carry their numbers with leading zeros, so sorting the names
sorts the segments. No operation on files fails in this model.
-/

namespace MatchX.Journal

open Support

/-- The files of a directory. -/
structure Directory where
  /-- File names, in the order in which the directory lists them. -/
  names : List String
  /-- Bytes of each file. -/
  contents : String → List UInt8

namespace Directory

/-- A directory without files. -/
def empty : Directory := ⟨[], fun _ => []⟩

/-- `OpenOptions::create(true).append(true).open(name)`: an existing file is kept. -/
def openAppend (dir : Directory) (name : String) : Directory :=
  if name ∈ dir.names then dir
  else ⟨dir.names ++ [name], Function.update dir.contents name []⟩

/-- `std::fs::read`. -/
def read (dir : Directory) (name : String) : List UInt8 := dir.contents name

/-- `write_all` on a file open for appending. -/
def writeAll (dir : Directory) (name : String) (bytes : List UInt8) : Directory :=
  { dir with contents := Function.update dir.contents name (dir.contents name ++ bytes) }

/-- `set_len` to a length within the file. -/
def setLen (dir : Directory) (name : String) (length : Nat) : Directory :=
  { dir with contents := Function.update dir.contents name ((dir.contents name).take length) }

end Directory

/-- First part of a segment name. -/
def segmentPrefix : List Char := "journal-".toList

/-- Last part of a segment name. -/
def segmentSuffix : List Char := ".wal".toList

/-- `segment_path`: `journal-{index:08}.wal`. -/
def segmentPath (index : UInt64) : String :=
  String.ofList (segmentPrefix ++ (padded 8 index.toNat ++ segmentSuffix))

/-- Whether a name starts and ends as those of segments do. -/
def isSegmentFile (name : String) : Bool :=
  segmentPrefix.isPrefixOf name.toList && segmentSuffix.isSuffixOf name.toList

/-- `str::parse::<u64>`: digits, possibly after a plus sign, of a number that fits. -/
def parseU64 (text : List Char) : Option UInt64 :=
  let digits := if text.head? = some '+' then text.tail else text
  if digits ≠ [] ∧ digits.all Char.isDigit then
    let number := Nat.ofDigitChars 10 digits 0
    if number < 2 ^ 64 then some (UInt64.ofNat number) else none
  else none

/-- `parse_segment_index`. -/
def parseSegmentIndex (name : String) : Option UInt64 :=
  if isSegmentFile name then
    let text := name.toList
    parseU64 ((text.take (text.length - segmentSuffix.length)).drop segmentPrefix.length)
  else none

/-- Names in ascending order. -/
def sortNames (names : List String) : List String := names.insertionSort (· ≤ ·)

/-- `list_segment_paths` of the writer: the files with a segment number. -/
def numberedSegmentPaths (dir : Directory) : List String :=
  sortNames (dir.names.filter fun name => (parseSegmentIndex name).isSome)

/-- `list_segment_paths` of the reader: the files named as segments. -/
def listSegmentPaths (dir : Directory) : List String :=
  sortNames (dir.names.filter isSegmentFile)

/-- The writer of a segmented journal. -/
structure SegmentedWriter where
  /-- Size past which a segment is left. -/
  maxSegmentBytes : Nat
  /-- Number of the current segment. -/
  currentSegmentIndex : UInt64
  /-- Bytes in the current segment. -/
  currentSegmentSize : Nat
  /-- The open file. -/
  file : String
  deriving DecidableEq, Repr

/-- `WriterMode`: what the writer of a journal appends to. -/
inductive WriterMode where
  /-- One file. -/
  | single (file : String)
  /-- Segments. -/
  | segmented (writer : SegmentedWriter)
  deriving DecidableEq, Repr

/-- `JournalWriter::open`. -/
def openSingle (dir : Directory) (path : String) : WriterMode × Directory :=
  (.single path, dir.openAppend path)

/-- `JournalWriter::open_segmented`. -/
def openSegmented (dir : Directory) (maxSegmentBytes : Nat) : WriterMode × Directory :=
  let (index, path) := match (numberedSegmentPaths dir).getLast? with
    | some last => ((parseSegmentIndex last).getD 1, last)
    | none => (1, segmentPath 1)
  let dir := dir.openAppend path
  (.segmented ⟨max maxSegmentBytes 1, index, (dir.read path).length, path⟩, dir)

/-- `rotate_segment`. -/
def rotateSegment (writer : SegmentedWriter) (dir : Directory) : SegmentedWriter × Directory :=
  let index := writer.currentSegmentIndex + 1
  let path := segmentPath index
  ({ writer with currentSegmentIndex := index, file := path, currentSegmentSize := 0 },
    dir.openAppend path)

/-- `append_raw`. -/
def appendRaw (mode : WriterMode) (dir : Directory) (record : List UInt8) :
    WriterMode × Directory :=
  match mode with
  | .single file => (.single file, dir.writeAll file record)
  | .segmented writer =>
    let nextSize := writer.currentSegmentSize + record.length
    let (writer, dir) :=
      if 0 < writer.currentSegmentSize ∧ writer.maxSegmentBytes < nextSize then
        rotateSegment writer dir
      else (writer, dir)
    (.segmented { writer with currentSegmentSize := writer.currentSegmentSize + record.length },
      dir.writeAll writer.file record)

/-- `append_raw_batch`. -/
def appendRawBatch (mode : WriterMode) (dir : Directory) (batch : List (List UInt8)) :
    WriterMode × Directory :=
  batch.foldl (fun written record => appendRaw written.1 written.2 record) (mode, dir)

/-- A single decoded journal record. -/
structure JournalEntry where
  /-- Sequence number. -/
  sequence : UInt64
  /-- Command. -/
  command : Command
  deriving DecidableEq, Repr

/-- The record of an entry. -/
def JournalEntry.record (crc32 : List UInt8 → UInt32) (entry : JournalEntry) : List UInt8 :=
  encodeRecord crc32 entry.sequence entry.command

/-- `append`, once for each entry in turn. -/
def appendAll (crc32 : List UInt8 → UInt32) (mode : WriterMode) (dir : Directory)
    (entries : List JournalEntry) : WriterMode × Directory :=
  entries.foldl (fun written entry => appendRaw written.1 written.2 (entry.record crc32))
    (mode, dir)

end MatchX.Journal
