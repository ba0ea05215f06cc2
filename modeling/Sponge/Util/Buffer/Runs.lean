import Mathlib.Data.List.GetD
import Mathlib.Data.List.Range
import Sponge.Data.Machine
import Sponge.Util.Buffer

namespace Sponge

/-! Buffers in memory. A `Buffer` is a `shared_ptr` to a string and an offset; here the
pointer is the number of the string, so that two buffers of one string and two buffers of
equal strings are different things. No buffer ever writes to its string. -/

structure SharedBuffer where
  storage : Option Nat := none
  startingOffset : Nat := 0
  deriving DecidableEq, Repr

namespace SharedBuffer

def load (strings : List (List Byte)) (buffer : SharedBuffer) : Buffer where
  storage := buffer.storage.map fun number => strings.getD number []
  startingOffset := buffer.startingOffset

def removePrefix (strings : List (List Byte)) (buffer : SharedBuffer) (n : Nat) :
    Except CppException SharedBuffer :=
  if (buffer.load strings).str.length < n then
    .error (.outOfRange "Buffer::remove_prefix")
  else
    let startingOffset := buffer.startingOffset + n
    match buffer.storage with
    | none => .ok { buffer with startingOffset := startingOffset }
    | some number =>
        if startingOffset = (strings.getD number []).length then
          .ok { storage := none, startingOffset := startingOffset }
        else
          .ok { buffer with startingOffset := startingOffset }

/-- Where the bytes are that the buffer shows: the string, and the place in it. -/
def cells (strings : List (List Byte)) (buffer : SharedBuffer) : List (Nat × Nat) :=
  match buffer.storage with
  | none => []
  | some number =>
      (List.range' buffer.startingOffset
        ((strings.getD number []).length - buffer.startingOffset)).map fun place => (number, place)

end SharedBuffer

def fetch (strings : List (List Byte)) (cell : Nat × Nat) : Byte :=
  (strings.getD cell.1 []).getD cell.2 0

structure SharedBufferList where
  buffers : List SharedBuffer := []
  deriving DecidableEq, Repr

namespace SharedBufferList

def load (strings : List (List Byte)) (list : SharedBufferList) : BufferList where
  buffers := list.buffers.map (SharedBuffer.load strings)

def ofBuffer (buffer : SharedBuffer) : SharedBufferList :=
  { buffers := [buffer] }

def append (list other : SharedBufferList) : SharedBufferList :=
  { buffers := list.buffers ++ other.buffers }

def toBuffer (list : SharedBufferList) : Except CppException SharedBuffer :=
  match list.buffers with
  | [] => .ok {}
  | [buffer] => .ok buffer
  | _ => .error (.runtimeError
      "BufferList: please use concatenate() to combine a multi-Buffer BufferList into one Buffer")

/-- The loop of `remove_prefix`. What it has popped before it throws is gone. -/
def dropBuffers (strings : List (List Byte)) : (buffers : List SharedBuffer) → (n : Nat) →
    List SharedBuffer × Except CppException Unit
  | buffers, 0 => (buffers, .ok ())
  | [], _ + 1 => ([], .error (.outOfRange "BufferList::remove_prefix"))
  | front :: rest, n + 1 =>
      if n + 1 < (front.load strings).str.length then
        match front.removePrefix strings (n + 1) with
        | .ok trimmed => (trimmed :: rest, .ok ())
        | .error exception => (front :: rest, .error exception)
      else dropBuffers strings rest (n + 1 - (front.load strings).str.length)

def removePrefix (strings : List (List Byte)) (list : SharedBufferList) (n : Nat) :
    SharedBufferList × Except CppException Unit :=
  ({ buffers := (dropBuffers strings list.buffers n).1 }, (dropBuffers strings list.buffers n).2)

def cells (strings : List (List Byte)) (list : SharedBufferList) : List (Nat × Nat) :=
  list.buffers.flatMap (SharedBuffer.cells strings)

end SharedBufferList

namespace BufferList

def size (list : BufferList) : Nat :=
  list.buffers.foldl (fun ret buffer => SizeT.add ret buffer.size) 0

theorem foldl_str (buffers : List Buffer) (start : List Byte) :
    buffers.foldl (fun ret buffer => ret ++ buffer.str) start =
      start ++ (buffers.map Buffer.str).flatten := by
  induction buffers generalizing start with
  | nil => exact (List.append_nil start).symm
  | cons buffer rest induction =>
      rw [List.foldl_cons, induction, List.append_assoc, List.map_cons, List.flatten_cons]

theorem concatenate_eq (list : BufferList) :
    list.concatenate = (list.buffers.map Buffer.str).flatten :=
  foldl_str list.buffers []

theorem bytes_ofBufferList (list : BufferList) :
    (BufferViewList.ofBufferList list).bytes = list.concatenate :=
  list.concatenate_eq.symm

theorem size_eq (list : BufferList) : list.size = list.concatenate.length % 2 ^ 64 := by
  have views : list.size = (BufferViewList.ofBufferList list).size := by
    unfold size BufferViewList.size BufferViewList.ofBufferList
    rw [List.foldl_map]
    rfl
  rw [views, BufferViewList.size_eq, bytes_ofBufferList]

end BufferList

/-! ## What is shown, and where it is -/

section

variable {strings : List (List Byte)}

theorem map_getD_range' (string : List Byte) (start : Nat) :
    (List.range' start (string.length - start)).map (fun place => string.getD place 0) =
      string.drop start := by
  apply List.ext_getElem
  · rw [List.length_map, List.length_range', List.length_drop]
  · intro i _ inside
    rw [List.length_drop] at inside
    rw [List.getElem_map, List.getElem_range', List.getElem_drop, Nat.one_mul,
      List.getD_eq_getElem _ _ (by omega)]

theorem SharedBuffer.str_load (buffer : SharedBuffer) :
    (buffer.load strings).str = (buffer.cells strings).map (fetch strings) := by
  obtain ⟨storage, start⟩ := buffer
  cases storage with
  | none => rfl
  | some number =>
      change (strings.getD number []).drop start = _
      rw [← map_getD_range', cells, List.map_map]
      rfl

theorem SharedBuffer.length_str (buffer : SharedBuffer) :
    (buffer.load strings).str.length = (buffer.cells strings).length := by
  rw [str_load, List.length_map]

/-- To whoever reads through the pointer, a buffer in memory is the `Buffer` it loads. -/
theorem SharedBuffer.load_removePrefix (buffer : SharedBuffer) (n : Nat) :
    (buffer.removePrefix strings n).map (load strings) =
      (buffer.load strings).removePrefix n := by
  obtain ⟨storage, start⟩ := buffer
  rw [removePrefix, Buffer.removePrefix]
  split
  next => rfl
  next =>
    cases storage with
    | none => rfl
    | some number =>
        change Except.map _ (if start + n = (strings.getD number []).length then _ else _) =
          if start + n = (strings.getD number []).length then _ else _
        by_cases whole : start + n = (strings.getD number []).length
        · rw [if_pos whole, if_pos whole]
          rfl
        · rw [if_neg whole, if_neg whole]
          rfl

theorem SharedBuffer.removePrefix_of_lt {buffer : SharedBuffer} {n : Nat}
    (inside : n < (buffer.cells strings).length) :
    buffer.removePrefix strings n =
      .ok { buffer with startingOffset := buffer.startingOffset + n } := by
  obtain ⟨storage, start⟩ := buffer
  rw [removePrefix, length_str, if_neg (Nat.not_lt.mpr (Nat.le_of_lt inside))]
  cases storage with
  | none => rfl
  | some number =>
      rw [cells, List.length_map, List.length_range'] at inside
      dsimp only at inside ⊢
      rw [if_neg (by omega)]

theorem SharedBuffer.cells_moved (buffer : SharedBuffer) (n : Nat) :
    cells strings { buffer with startingOffset := buffer.startingOffset + n } =
      (buffer.cells strings).drop n := by
  obtain ⟨storage, start⟩ := buffer
  cases storage with
  | none => exact List.drop_nil.symm
  | some number =>
      simp only [cells, ← List.map_drop, List.drop_range', Nat.mul_one, Nat.sub_sub]

namespace SharedBufferList

theorem concatenate_load (list : SharedBufferList) :
    (list.load strings).concatenate = (list.cells strings).map (fetch strings) := by
  have shown : Buffer.str ∘ SharedBuffer.load strings =
      List.map (fetch strings) ∘ SharedBuffer.cells strings := by
    funext buffer
    exact buffer.str_load
  rw [BufferList.concatenate_eq, load, List.map_map, shown, cells, List.flatMap_def,
    List.map_flatten, List.map_map]

theorem cells_append (list other : SharedBufferList) :
    (list.append other).cells strings = list.cells strings ++ other.cells strings :=
  List.flatMap_append

theorem dropBuffers_spec (buffers : List SharedBuffer) (n : Nat) :
    (dropBuffers strings buffers n).1.flatMap (SharedBuffer.cells strings) =
        (buffers.flatMap (SharedBuffer.cells strings)).drop n ∧
      (dropBuffers strings buffers n).2 =
        if n ≤ (buffers.flatMap (SharedBuffer.cells strings)).length then .ok ()
        else .error (.outOfRange "BufferList::remove_prefix") := by
  induction buffers generalizing n with
  | nil =>
      cases n with
      | zero => exact ⟨rfl, rfl⟩
      | succ n => exact ⟨rfl, rfl⟩
  | cons front rest induction =>
      cases n with
      | zero => exact ⟨rfl, rfl⟩
      | succ n =>
          rw [dropBuffers, List.flatMap_cons, List.length_append, front.length_str]
          split
          next inside =>
            rw [SharedBuffer.removePrefix_of_lt inside]
            refine ⟨?_, (if_pos (by omega)).symm⟩
            rw [List.flatMap_cons, front.cells_moved,
              List.drop_append_of_le_length (Nat.le_of_lt inside)]
          next past =>
            obtain ⟨left, returned⟩ := induction (n + 1 - (front.cells strings).length)
            have gone : (front.cells strings).drop (n + 1) = [] :=
              List.drop_of_length_le (by omega)
            refine ⟨?_, ?_⟩
            · rw [left, List.drop_append, gone, List.nil_append]
            · rw [returned]
              congr 1
              exact propext (by omega)

theorem storage_dropBuffers {buffers : List SharedBuffer} {n : Nat} {buffer : SharedBuffer}
    (member : buffer ∈ (dropBuffers strings buffers n).1) :
    ∃ source ∈ buffers, buffer.storage = source.storage := by
  induction buffers generalizing n with
  | nil =>
      cases n with
      | zero => cases member
      | succ n => cases member
  | cons front rest induction =>
      cases n with
      | zero => exact ⟨buffer, member, rfl⟩
      | succ n =>
          rw [dropBuffers, front.length_str] at member
          split at member
          next inside =>
            rw [SharedBuffer.removePrefix_of_lt inside] at member
            rcases List.mem_cons.mp member with trimmed | later
            · rw [trimmed]
              exact ⟨front, List.mem_cons_self, rfl⟩
            · exact ⟨buffer, List.mem_cons_of_mem _ later, rfl⟩
          next =>
            obtain ⟨source, present, same⟩ := induction member
            exact ⟨source, List.mem_cons_of_mem _ present, same⟩

/-- Every way to look at a list. -/
structure Shows (strings : List (List Byte)) (list : SharedBufferList) (bytes : List Byte) :
    Prop where
  concatenate : (list.load strings).concatenate = bytes
  size : (list.load strings).size = bytes.length % 2 ^ 64
  iovecs : (BufferViewList.ofBufferList (list.load strings)).asIovecs.flatten = bytes
  viewSize : (BufferViewList.ofBufferList (list.load strings)).size = bytes.length % 2 ^ 64
  contiguous : list.buffers.length ≤ 1 →
    ∃ buffer, list.toBuffer = .ok buffer ∧ (buffer.load strings).str = bytes
  scattered : 2 ≤ list.buffers.length → ∃ what, list.toBuffer = .error (.runtimeError what)
  removes : ∀ n, (list.removePrefix strings n).2 =
    if n ≤ bytes.length then .ok () else .error (.outOfRange "BufferList::remove_prefix")
  viewRemoves : ∀ n,
    ((BufferViewList.ofBufferList (list.load strings)).removePrefix n).map BufferViewList.bytes =
      if n ≤ bytes.length then .ok (bytes.drop n)
      else .error (.outOfRange "BufferListView::remove_prefix")

theorem toBuffer_spec (list : SharedBufferList) :
    (list.buffers.length ≤ 1 →
      ∃ buffer, list.toBuffer = .ok buffer ∧ buffer.cells strings = list.cells strings ∧
        (buffer ∈ list.buffers ∨ buffer = {})) ∧
    (2 ≤ list.buffers.length → ∃ what, list.toBuffer = .error (.runtimeError what)) := by
  obtain ⟨buffers⟩ := list
  cases buffers with
  | nil =>
      exact ⟨fun _ => ⟨_, rfl, rfl, Or.inr rfl⟩, fun several => absurd several (by decide)⟩
  | cons first rest =>
      cases rest with
      | nil =>
          refine ⟨fun _ => ⟨_, rfl, ?_, Or.inl List.mem_cons_self⟩, fun several => ?_⟩
          · exact (List.append_nil _).symm
          · exact absurd several (by simp)
      | cons second rest => exact ⟨fun one => absurd one (by simp), fun _ => ⟨_, rfl⟩⟩

theorem shows_cells (list : SharedBufferList) :
    Shows strings list ((list.cells strings).map (fetch strings)) := by
  have views : (BufferViewList.ofBufferList (list.load strings)).bytes =
      (list.cells strings).map (fetch strings) := by
    rw [BufferList.bytes_ofBufferList, concatenate_load]
  constructor
  case concatenate => exact list.concatenate_load
  case size => rw [BufferList.size_eq, concatenate_load]
  case iovecs => exact views
  case viewSize => rw [BufferViewList.size_eq, views]
  case contiguous =>
    intro one
    obtain ⟨buffer, converted, same, _⟩ := list.toBuffer_spec.1 one
    exact ⟨buffer, converted, by rw [buffer.str_load, same]⟩
  case scattered => exact (@toBuffer_spec strings list).2
  case removes =>
    intro n
    rw [List.length_map]
    exact (dropBuffers_spec list.buffers n).2
  case viewRemoves =>
    intro n
    rw [← views]
    split
    next within =>
      obtain ⟨rest, removed, remaining⟩ := BufferViewList.removePrefix_of_le within
      rw [removed, Except.map, remaining]
    next short =>
      rw [BufferViewList.removePrefix_of_lt (Nat.not_le.mp short)]
      rfl

end SharedBufferList

end

/-! ## Runs -/

namespace BufferList

structure Entry where
  list : SharedBufferList := {}
  left : List Byte := []
  due : List (Nat × Nat) := []
  deriving DecidableEq, Repr

/-- The strings ever made, and the lists that share them. -/
structure Memory where
  strings : List (List Byte) := []
  entries : List Entry := []
  deriving DecidableEq, Repr

/-- `make` constructs a list from a string, `copy` from another list, and `convert` from the
`Buffer` that another list converts to. -/
inductive Op where
  | make (str : List Byte)
  | copy (source : Nat)
  | convert (source : Nat)
  | append (target source : Nat)
  | removePrefix (target n : Nat)
  deriving DecidableEq, Repr

namespace Entry

def make (number : Nat) (str : List Byte) : Entry where
  list := .ofBuffer { storage := some number }
  left := str
  due := (List.range' 0 str.length).map fun place => (number, place)

def append (entry other : Entry) : Entry where
  list := entry.list.append other.list
  left := entry.left ++ other.left
  due := entry.due ++ other.due

def removePrefix (strings : List (List Byte)) (entry : Entry) (n : Nat) : Entry where
  list := (entry.list.removePrefix strings n).1
  left := entry.left.drop n
  due := entry.due.drop n

end Entry

def Memory.next (memory : Memory) : Op → Memory
  | .make str =>
      { strings := memory.strings ++ [str]
        entries := memory.entries ++ [.make memory.strings.length str] }
  | .copy source =>
      { memory with entries := memory.entries ++ [memory.entries.getD source {}] }
  | .convert source =>
      let entry := memory.entries.getD source {}
      match entry.list.toBuffer with
      | .ok buffer =>
          { memory with entries := memory.entries ++ [{ entry with list := .ofBuffer buffer }] }
      | .error _ => memory
  | .append target source =>
      { memory with
        entries := memory.entries.set target
          ((memory.entries.getD target {}).append (memory.entries.getD source {})) }
  | .removePrefix target n =>
      { memory with
        entries := memory.entries.set target
          ((memory.entries.getD target {}).removePrefix memory.strings n) }

/-- A list is not appended to itself: its loop would push into the deque it walks. -/
def Memory.Permits (memory : Memory) : Op → Prop
  | .make _ => True
  | .copy source | .convert source => source < memory.entries.length
  | .append target source =>
      target ≠ source ∧ target < memory.entries.length ∧ source < memory.entries.length
  | .removePrefix target _ => target < memory.entries.length

instance (memory : Memory) (op : Op) : Decidable (memory.Permits op) :=
  match op with
  | .make _ => .isTrue trivial
  | .copy _ | .convert _ | .removePrefix _ _ => inferInstanceAs (Decidable (_ < _))
  | .append _ _ => inferInstanceAs (Decidable (_ ∧ _ ∧ _))

def memories : Machine Memory Op where
  init := {}
  guard := Memory.Permits
  next := Memory.next

instance (memory : Memory) (op : Op) : Decidable (memories.guard memory op) :=
  inferInstanceAs (Decidable (memory.Permits op))

structure Queued (strings : List (List Byte)) (entry : Entry) : Prop where
  cells : entry.list.cells strings = entry.due
  bytes : entry.due.map (fetch strings) = entry.left
  inside : ∀ buffer ∈ entry.list.buffers, ∀ number ∈ buffer.storage, number < strings.length

section

variable {strings : List (List Byte)} {entry other : Entry}

theorem queued_empty : Queued strings {} :=
  ⟨rfl, rfl, fun _ member => by cases member⟩

theorem queued_make (strings : List (List Byte)) (str : List Byte) :
    Queued (strings ++ [str]) (.make strings.length str) := by
  have newest : (strings ++ [str]).getD strings.length [] = str := by simp
  refine ⟨?_, ?_, ?_⟩
  · simp [Entry.make, SharedBufferList.cells, SharedBufferList.ofBuffer, SharedBuffer.cells]
  · rw [Entry.make, List.map_map]
    have fetched : fetch (strings ++ [str]) ∘ (fun place => (strings.length, place)) =
        fun place => str.getD place 0 := by
      funext place
      exact congrArg (fun string => List.getD string place 0) newest
    rw [fetched]
    exact map_getD_range' str 0
  · intro buffer member number named
    obtain rfl := List.mem_singleton.mp member
    cases named
    rw [List.length_append]
    exact Nat.lt_add_one _

theorem Queued.grow (queued : Queued strings entry) (str : List Byte) :
    Queued (strings ++ [str]) entry := by
  have kept : entry.list.cells (strings ++ [str]) = entry.list.cells strings := by
    apply List.flatMap_congr
    intro buffer member
    obtain ⟨storage, start⟩ := buffer
    cases storage with
    | none => rfl
    | some number =>
        have inRange := queued.inside _ member number rfl
        simp only [SharedBuffer.cells, List.getD_append _ _ _ _ inRange]
  refine ⟨kept.trans queued.cells, ?_, ?_⟩
  · rw [← queued.bytes]
    apply List.map_congr_left
    intro cell member
    rw [← queued.cells] at member
    obtain ⟨buffer, present, shown⟩ := List.mem_flatMap.mp member
    obtain ⟨storage, start⟩ := buffer
    cases storage with
    | none => cases shown
    | some number =>
        obtain ⟨place, _, rfl⟩ := List.mem_map.mp shown
        have inRange := queued.inside _ present number rfl
        simp only [fetch, List.getD_append _ _ _ _ inRange]
  · intro buffer member number named
    rw [List.length_append]
    exact Nat.lt_add_right _ (queued.inside buffer member number named)

theorem Queued.append (queued : Queued strings entry) (appended : Queued strings other) :
    Queued strings (entry.append other) := by
  refine ⟨?_, ?_, ?_⟩
  · rw [Entry.append, SharedBufferList.cells_append, queued.cells, appended.cells]
  · rw [Entry.append, List.map_append, queued.bytes, appended.bytes]
  · intro buffer member
    rcases List.mem_append.mp member with old | new
    · exact queued.inside buffer old
    · exact appended.inside buffer new

theorem Queued.removePrefix (queued : Queued strings entry) (n : Nat) :
    Queued strings (entry.removePrefix strings n) := by
  refine ⟨?_, ?_, ?_⟩
  · exact (SharedBufferList.dropBuffers_spec entry.list.buffers n).1.trans
      (congrArg (List.drop n) queued.cells)
  · rw [Entry.removePrefix, List.map_drop, queued.bytes]
  · intro buffer member number named
    obtain ⟨source, present, same⟩ := SharedBufferList.storage_dropBuffers member
    rw [same] at named
    exact queued.inside source present number named

theorem Queued.convert (queued : Queued strings entry) {buffer : SharedBuffer}
    (converted : entry.list.toBuffer = .ok buffer) :
    Queued strings { entry with list := .ofBuffer buffer } := by
  obtain ⟨fits, fails⟩ := @SharedBufferList.toBuffer_spec strings entry.list
  have one : entry.list.buffers.length ≤ 1 := by
    by_contra several
    obtain ⟨what, failed⟩ := fails (by omega)
    rw [converted] at failed
    cases failed
  obtain ⟨found, same, cells, origin⟩ := fits one
  rw [converted] at same
  cases same
  refine ⟨?_, queued.bytes, ?_⟩
  · exact ((List.append_nil _).trans cells).trans queued.cells
  · intro shown member number named
    obtain rfl := List.mem_singleton.mp member
    rcases origin with present | rfl
    · exact queued.inside shown present number named
    · cases named

theorem queued_getD {entries : List Entry} (queued : ∀ entry ∈ entries, Queued strings entry)
    (index : Nat) : Queued strings (entries.getD index {}) := by
  rw [List.getD_eq_getElem?_getD]
  cases found : entries[index]? with
  | none => exact queued_empty
  | some entry => exact queued entry (List.mem_of_getElem? found)

end

theorem memories_queued {memory : Memory} (reached : memories.Reachable memory) :
    ∀ entry ∈ memory.entries, Queued memory.strings entry := by
  refine Machine.invariant
    (fun memory => ∀ entry ∈ memory.entries, Queued memory.strings entry)
    (fun _ member => by cases member) ?_ reached
  intro memory op _ queued
  cases op with
  | make str =>
      intro entry member
      rcases List.mem_append.mp member with old | new
      · exact (queued entry old).grow str
      · rw [List.mem_singleton.mp new]
        exact queued_make memory.strings str
  | copy source =>
      intro entry member
      rcases List.mem_append.mp member with old | new
      · exact queued entry old
      · rw [List.mem_singleton.mp new]
        exact queued_getD queued source
  | convert source =>
      simp only [memories, Memory.next]
      cases converted : (memory.entries.getD source {}).list.toBuffer with
      | error exception => exact queued
      | ok buffer =>
          intro entry member
          rcases List.mem_append.mp member with old | new
          · exact queued entry old
          · rw [List.mem_singleton.mp new]
            exact (queued_getD queued source).convert converted
  | append target source =>
      intro entry member
      rcases List.mem_or_eq_of_mem_set member with old | rfl
      · exact queued entry old
      · exact (queued_getD queued target).append (queued_getD queued source)
  | removePrefix target n =>
      intro entry member
      rcases List.mem_or_eq_of_mem_set member with old | rfl
      · exact queued entry old
      · exact (queued_getD queued target).removePrefix n

/-- `BufferList`s that share strings are queues of bytes, each on its own: whatever is
appended and removed, also beyond the end, every way to look at a list shows the bytes that
it is due, and they are in the very cells of the strings that were handed in. -/
theorem bufferList_is_queue {memory : Memory} (reached : memories.Reachable memory) :
    ∀ entry ∈ memory.entries,
      SharedBufferList.Shows memory.strings entry.list entry.left ∧
        entry.list.cells memory.strings = entry.due := by
  intro entry member
  have queued := memories_queued reached entry member
  refine ⟨?_, queued.cells⟩
  rw [← queued.bytes, ← queued.cells]
  exact entry.list.shows_cells

/-- A header and a payload of equal bytes, a copy that keeps what is then removed from the
list, more removed than there is, and the copy appended again: all in the two strings. -/
theorem bufferList_is_queue_shared :
    let memory := memories.run memories.init
      [.make [1, 2], .make [1, 2], .append 0 1, .copy 0, .removePrefix 0 3, .removePrefix 0 9,
        .append 0 2, .removePrefix 0 1, .convert 1]
    memory.strings = [[1, 2], [1, 2]] ∧
      ∀ entry ∈ memory.entries.head?,
        SharedBufferList.Shows memory.strings entry.list [2, 1, 2] ∧
          entry.list.cells memory.strings = [(0, 1), (1, 0), (1, 1)] := by
  intro memory
  have reached : memories.Reachable memory := Machine.reachable_run _ _ (by decide)
  refine ⟨by decide, ?_⟩
  intro entry first
  obtain ⟨shows, cells⟩ := bufferList_is_queue reached entry (List.mem_of_mem_head? first)
  have left : memory.entries.head?.map Entry.left = some [2, 1, 2] := by decide
  have due : memory.entries.head?.map Entry.due = some [(0, 1), (1, 0), (1, 1)] := by decide
  rw [Option.mem_def.mp first] at left due
  rw [Option.some.inj left] at shows
  rw [Option.some.inj due] at cells
  exact ⟨shows, cells⟩

end BufferList

end Sponge
