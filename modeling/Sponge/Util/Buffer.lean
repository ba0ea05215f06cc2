import Sponge.ByteStream

namespace Sponge

/-- The exceptions the modelled code can throw, with their text. -/
inductive CppException where
  | outOfRange (what : String)
  | runtimeError (what : String)
  | lengthError (what : String)
  deriving DecidableEq, Repr

structure Buffer where
  storage : Option (List Byte) := none
  startingOffset : Nat := 0
  deriving DecidableEq, Repr

namespace Buffer

def ofString (str : List Byte) : Buffer :=
  { storage := some str }

def str (buffer : Buffer) : List Byte :=
  match buffer.storage with
  | none => []
  | some storage => storage.drop buffer.startingOffset

def size (buffer : Buffer) : Nat :=
  buffer.str.length

def copy (buffer : Buffer) : List Byte :=
  buffer.str

def atIndex (buffer : Buffer) (n : Nat) : Except CppException Byte :=
  match buffer.str[n]? with
  | some byte => .ok byte
  | none => .error (.outOfRange "basic_string_view::at")

/-- Discard the first `n` bytes; the storage is dropped with the last one. -/
def removePrefix (buffer : Buffer) (n : Nat) : Except CppException Buffer :=
  if buffer.str.length < n then
    .error (.outOfRange "Buffer::remove_prefix")
  else
    let startingOffset := buffer.startingOffset + n
    match buffer.storage with
    | none => .ok { buffer with startingOffset := startingOffset }
    | some storage =>
        if startingOffset = storage.length then
          .ok { storage := none, startingOffset := startingOffset }
        else
          .ok { buffer with startingOffset := startingOffset }

@[simp] theorem str_ofString (str : List Byte) : (ofString str).str = str := by
  simp [ofString, Buffer.str]

theorem atIndex_of_lt {buffer : Buffer} {n : Nat} (inside : n < buffer.str.length) :
    buffer.atIndex n = .ok buffer.str[n] := by
  simp [Buffer.atIndex, inside]

theorem removePrefix_of_le {buffer : Buffer} {n : Nat}
    (inside : n ≤ buffer.str.length) :
    ∃ rest, buffer.removePrefix n = .ok rest ∧ rest.str = buffer.str.drop n := by
  unfold removePrefix
  rw [if_neg (Nat.not_lt.mpr inside)]
  unfold str at inside ⊢
  cases storage : buffer.storage with
  | none => exact ⟨_, rfl, by simp⟩
  | some bytes =>
      dsimp only
      split
      next consumed =>
        refine ⟨_, rfl, ?_⟩
        dsimp only
        rw [List.drop_drop, consumed, List.drop_length]
      next => exact ⟨_, rfl, by simp [List.drop_drop]⟩

end Buffer

structure BufferList where
  buffers : List Buffer := []
  deriving DecidableEq, Repr

namespace BufferList

def ofBuffer (buffer : Buffer) : BufferList :=
  { buffers := [buffer] }

def append (list other : BufferList) : BufferList :=
  { buffers := list.buffers ++ other.buffers }

def concatenate (list : BufferList) : List Byte :=
  list.buffers.foldl (fun ret buffer => ret ++ buffer.str) []

end BufferList

/-- A discontiguous string by reference: the bytes each view shows. -/
structure BufferViewList where
  views : List (List Byte) := []
  deriving DecidableEq, Repr

namespace BufferViewList

def ofString (str : List Byte) : BufferViewList :=
  { views := [str] }

def ofBufferList (buffers : BufferList) : BufferViewList :=
  { views := buffers.buffers.map Buffer.str }

/-- The loop of `remove_prefix`: trim the first view, or drop it and go on. -/
def dropViews : (views : List (List Byte)) → (n : Nat) →
    Except CppException (List (List Byte))
  | views, 0 => .ok views
  | [], _ + 1 => .error (.outOfRange "BufferListView::remove_prefix")
  | front :: rest, n + 1 =>
      if n + 1 < front.length then .ok (front.drop (n + 1) :: rest)
      else dropViews rest (n + 1 - front.length)

def removePrefix (list : BufferViewList) (n : Nat) : Except CppException BufferViewList := do
  return { views := ← dropViews list.views n }

def size (list : BufferViewList) : Nat :=
  list.views.foldl (fun ret view => SizeT.add ret view.length) 0

def asIovecs (list : BufferViewList) : List (List Byte) :=
  list.views

def bytes (list : BufferViewList) : List Byte :=
  list.views.flatten

theorem foldl_size (views : List (List Byte)) (start : Nat) (wrapped : start < 2 ^ 64) :
    views.foldl (fun ret view => SizeT.add ret view.length) start =
      (start + views.flatten.length) % 2 ^ 64 := by
  induction views generalizing start with
  | nil => exact (Nat.mod_eq_of_lt wrapped).symm
  | cons view rest induction =>
      have below : SizeT.add start view.length < 2 ^ 64 := Nat.mod_lt _ (by decide)
      rw [List.foldl_cons, induction _ below, List.flatten_cons, List.length_append,
        SizeT.add, Nat.mod_add_mod, Nat.add_assoc]

theorem size_eq (list : BufferViewList) : list.size = list.bytes.length % 2 ^ 64 := by
  rw [size, foldl_size _ _ (by decide), Nat.zero_add, bytes]

theorem dropViews_spec (views : List (List Byte)) (n : Nat) :
    (n ≤ views.flatten.length →
      ∃ rest, dropViews views n = .ok rest ∧ rest.flatten = views.flatten.drop n) ∧
    (views.flatten.length < n →
      dropViews views n = .error (.outOfRange "BufferListView::remove_prefix")) := by
  induction views generalizing n with
  | nil =>
      cases n with
      | zero => exact ⟨fun _ => ⟨[], rfl, rfl⟩, fun lacks => absurd lacks (Nat.not_lt_zero _)⟩
      | succ n => exact ⟨fun fits => absurd fits (Nat.not_succ_le_zero n), fun _ => rfl⟩
  | cons front rest induction =>
      cases n with
      | zero =>
          exact ⟨fun _ => ⟨front :: rest, rfl, rfl⟩, fun lacks => absurd lacks (Nat.not_lt_zero _)⟩
      | succ n =>
          rw [dropViews, List.flatten_cons, List.length_append]
          obtain ⟨fits, lacks⟩ := induction (n + 1 - front.length)
          split
          next inside =>
            refine ⟨fun _ => ⟨_, rfl, ?_⟩, by omega⟩
            rw [List.flatten_cons, List.drop_append_of_le_length (by omega)]
          next past =>
            refine ⟨?_, fun short => lacks (by omega)⟩
            intro enough
            obtain ⟨left, dropped, remaining⟩ := fits (by omega)
            refine ⟨left, dropped, ?_⟩
            have gone : front.drop (n + 1) = [] := List.drop_of_length_le (by omega)
            rw [remaining, List.drop_append, gone, List.nil_append]

theorem removePrefix_of_le {list : BufferViewList} {n : Nat}
    (inside : n ≤ list.bytes.length) :
    ∃ rest, list.removePrefix n = .ok rest ∧ rest.bytes = list.bytes.drop n := by
  obtain ⟨left, dropped, remaining⟩ := (dropViews_spec list.views n).1 inside
  exact ⟨{ views := left }, by rw [removePrefix, dropped]; rfl, remaining⟩

theorem removePrefix_of_lt {list : BufferViewList} {n : Nat}
    (short : list.bytes.length < n) :
    list.removePrefix n = .error (.outOfRange "BufferListView::remove_prefix") := by
  rw [removePrefix, (dropViews_spec list.views n).2 short]
  rfl

end BufferViewList

end Sponge
