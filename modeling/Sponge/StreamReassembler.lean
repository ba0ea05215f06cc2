import Sponge.ByteStream
import Sponge.Data.Fragment
import Sponge.Data.OrderedMap

namespace Sponge

structure StreamReassembler where
  output : ByteStream
  capacity : Nat
  readPtr : Nat := 0
  writePtr : Nat := 0
  eofIndex : Nat
  eofF : Bool := false
  stream : OrderedMap (List Byte) := .empty
  deriving DecidableEq

namespace StreamReassembler

def new (capacity : Nat) : StreamReassembler :=
  { output := .new capacity, capacity := capacity, eofIndex := capacity }

def streamOut (reassembler : StreamReassembler) : ByteStream :=
  reassembler.output

def entryEnd (entry : Fragment Byte) : Nat :=
  SizeT.add entry.1 entry.2.length

/-- The replace rule: a string stored at the same index gives way only to a
longer one. -/
def store (stream : OrderedMap (List Byte)) (index : Nat) (ndata : List Byte) :
    OrderedMap (List Byte) :=
  match stream.find? index with
  | some old =>
      if old.length < ndata.length then stream.assign index ndata else stream
  | none => stream.insert index ndata

/-- The loop that writes out what has become contiguous. An entry at or before
the write pointer is written and erased when it reaches past it, and skipped
otherwise; the first entry beyond the pointer ends the loop. -/
def writeOut (output : ByteStream) (writePtr : Nat) :
    List (Fragment Byte) → ByteStream × Nat × List (Fragment Byte)
  | [] => (output, writePtr, [])
  | entry :: rest =>
      if entry.1 ≤ writePtr then
        if writePtr < entryEnd entry then
          writeOut (output.write (entry.2.drop (writePtr - entry.1))).1
            (entryEnd entry) rest
        else
          let (output, writePtr, kept) := writeOut output writePtr rest
          (output, writePtr, entry :: kept)
      else
        (output, writePtr, entry :: rest)

def mergeFrom (old : Fragment Byte) : List (Fragment Byte) → List (Fragment Byte)
  | [] => [old]
  | entry :: rest =>
      if entry.1 < entryEnd old then
        if entryEnd entry ≤ entryEnd old then
          mergeFrom old rest
        else
          mergeFrom (old.1, old.2 ++ entry.2.drop (entryEnd old - entry.1)) rest
      else
        old :: mergeFrom entry rest

def merge : List (Fragment Byte) → List (Fragment Byte)
  | [] => []
  | entry :: rest => mergeFrom entry rest

theorem writeOut_sublist (output : ByteStream) (writePtr : Nat)
    (entries : List (Fragment Byte)) :
    List.Sublist (writeOut output writePtr entries).2.2 entries := by
  induction entries generalizing output writePtr with
  | nil => exact List.Sublist.refl _
  | cons entry rest induction =>
      unfold writeOut
      split
      · split
        · exact (induction _ _).cons _
        · exact (induction _ _).cons_cons _
      · exact List.Sublist.refl _

theorem mergeFrom_keys (old : Fragment Byte) (entries : List (Fragment Byte)) :
    List.Sublist ((mergeFrom old entries).map Prod.fst)
      (old.1 :: entries.map Prod.fst) := by
  induction entries generalizing old with
  | nil => exact List.Sublist.refl _
  | cons entry rest induction =>
      have skip : List.Sublist (old.1 :: rest.map Prod.fst)
          (old.1 :: (entry :: rest).map Prod.fst) :=
        (List.sublist_cons_self _ _).cons_cons _
      unfold mergeFrom
      split
      · split
        · exact (induction old).trans skip
        · exact (induction _).trans skip
      · exact (induction entry).cons_cons _

theorem merge_keys (entries : List (Fragment Byte)) :
    List.Sublist ((merge entries).map Prod.fst) (entries.map Prod.fst) := by
  cases entries with
  | nil => exact List.Sublist.refl _
  | cons entry rest => exact mergeFrom_keys entry rest

/-- The first half of `push_substring`: trim to the window, note the end of the
stream, keep the string. A trimmed string never sets the end. -/
def takeIn (reassembler : StreamReassembler) (data : List Byte) (index : Nat)
    (eof : Bool) : StreamReassembler :=
  let readPtr := reassembler.output.bytesRead
  let windowEnd := SizeT.add readPtr reassembler.capacity
  if windowEnd < SizeT.add index data.length then
    let ndata := data.take (SizeT.sub windowEnd index)
    { reassembler with
      readPtr := readPtr
      stream := store reassembler.stream index ndata }
  else if eof then
    { reassembler with
      readPtr := readPtr
      eofIndex := SizeT.add index data.length
      eofF := true
      stream := store reassembler.stream index data }
  else
    { reassembler with
      readPtr := readPtr
      stream := store reassembler.stream index data }

def assemble (reassembler : StreamReassembler) : StreamReassembler :=
  let entries := reassembler.stream.entries
  let drained := writeOut reassembler.output reassembler.writePtr entries
  let ended := drained.2.1 = reassembler.eofIndex ∧ reassembler.eofF = true
  { reassembler with
    output := if ended then drained.1.endInput else drained.1
    writePtr := drained.2.1
    stream := reassembler.stream.ofKeySublist (merge drained.2.2)
      ((merge_keys _).trans ((writeOut_sublist _ _ entries).map Prod.fst)) }

def pushSubstring (reassembler : StreamReassembler) (data : List Byte)
    (index : Nat) (eof : Bool) : StreamReassembler :=
  (reassembler.takeIn data index eof).assemble

def unassembledBytes (reassembler : StreamReassembler) : Nat :=
  reassembler.stream.entries.foldl
    (fun unassem entry =>
      if reassembler.writePtr < entry.1 then unassem + entry.2.length else unassem) 0

def empty (reassembler : StreamReassembler) : Bool :=
  reassembler.unassembledBytes == 0

def readOut (reassembler : StreamReassembler) (len : Nat) : StreamReassembler :=
  { reassembler with output := (reassembler.output.read len).2 }

end StreamReassembler

end Sponge
