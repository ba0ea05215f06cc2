import Sponge.TCPSender.Stock

namespace Sponge.TCPSender

open Tiling (extent place)

/-! Accounting and retransmission store along whole runs. -/

theorem created_split (front back : List Emission) :
    created (front ++ back) = created front ++ created back := by
  simp [created]

theorem created_append (emitted : List Emission) (op : Op) (new : List TCPSegment)
    (eof : Bool) :
    created (emitted ++ new.map (fun seg => ⟨op, seg, eof⟩)) =
      created emitted ++ (if op = .fillWindow then new else []) := by
  unfold created
  rw [List.filter_append, List.map_append]
  congr 1
  by_cases fill : op = .fillWindow
  · simp [fill, List.filter_map, Function.comp_def]
  · simp [fill, List.filter_map, Function.comp_def]

/-- A segment that `fill_window` did not make: a copy of one that it made before, or
an empty segment at the next sequence number. -/
def Repeats (isn : WrappingInt32) (earlier : List Emission) (emission : Emission) : Prop :=
  emission.seg ∈ created earlier ∨
    (emission.op = .sendEmptySegment ∧
      emission.seg = emptySegment
        (wrap (extent TCPSegment.lengthInSequenceSpace (created earlier)) isn))

structure Recorded (isn : WrappingInt32) (trace : Trace) : Prop where
  number : trace.sender.isn = isn
  ledger : Ledger trace.sender trace.accepted (created trace.emitted)
  stock : Stock trace.sender (created trace.emitted)
  queue : trace.emitted.map Emission.seg = trace.sender.segmentsOut
  repeats : ∀ (position : Nat) (emission : Emission),
    trace.emitted[position]? = some emission → emission.op ≠ .fillWindow →
      Repeats isn (trace.emitted.take position) emission
  closing : ∀ emission ∈ trace.emitted, emission.op = .fillWindow →
    emission.seg.header.fin = true → emission.eof = true

theorem recorded_new (capacity : Nat) (retxTimeout : UInt16) (isn : WrappingInt32) :
    Recorded isn { sender := new capacity retxTimeout isn } where
  number := rfl
  ledger := ledger_new capacity retxTimeout isn
  stock := stock_new capacity retxTimeout isn
  queue := rfl
  repeats := fun _ _ found => by simp at found
  closing := fun _ member => by simp at member

theorem Recorded.step {isn : WrappingInt32} {trace : Trace} (recorded : Recorded isn trace)
    {op : Op} {new : List TCPSegment}
    (out : (trace.sender.perform op).segmentsOut = trace.sender.segmentsOut ++ new)
    (sameIsn : (trace.sender.perform op).isn = trace.sender.isn)
    (ledger : Ledger (trace.sender.perform op) (trace.accepted ++ op.accepted trace.sender)
      (created trace.emitted ++ (if op = .fillWindow then new else [])))
    (stock : Stock (trace.sender.perform op)
      (created trace.emitted ++ (if op = .fillWindow then new else [])))
    (repeats : op ≠ .fillWindow → new = [] ∨ ∃ seg, new = [seg] ∧
      ∀ eof, Repeats isn trace.emitted ⟨op, seg, eof⟩)
    (closing : op = .fillWindow → ∀ seg ∈ new, seg.header.fin = true →
      (trace.sender.perform op).stream.eof = true) :
    Recorded isn (trace.next op) := by
  have suffix : (trace.sender.perform op).segmentsOut.drop
      trace.sender.segmentsOut.length = new := by
    rw [out, List.drop_left]
  have emitted : (trace.next op).emitted = trace.emitted ++ new.map
      (fun seg => ⟨op, seg, (trace.sender.perform op).streamIn.eof⟩) := by
    rw [← suffix]
    rfl
  refine ⟨sameIsn.trans recorded.number, ?_, ?_, ?_, ?_, ?_⟩
  · rw [emitted, created_append]
    exact ledger
  · rw [emitted, created_append]
    exact stock
  · rw [emitted, List.map_append, recorded.queue, List.map_map]
    exact (congrArg _ (List.map_id _)).trans out.symm
  · rw [emitted]
    intro position emission found different
    by_cases old : position < trace.emitted.length
    · rw [List.getElem?_append_left old] at found
      rw [List.take_append_of_le_length (Nat.le_of_lt old)]
      exact recorded.repeats position emission found different
    · rw [List.getElem?_append_right (Nat.not_lt.mp old)] at found
      have member := List.mem_of_getElem? found
      obtain ⟨seg, _, rfl⟩ := List.mem_map.mp member
      rcases repeats different with rfl | ⟨only, rfl, repeated⟩
      · simp at member
      · have last : position = trace.emitted.length := by
          have inside := (List.getElem?_eq_some_iff.mp found).1
          simp at inside
          omega
        subst last
        simp at found
        rw [List.take_left, ← found]
        exact repeated _
  · rw [emitted]
    intro emission member fill isFin
    rcases List.mem_append.mp member with old | recent
    · exact recorded.closing emission old fill isFin
    · obtain ⟨seg, made, rfl⟩ := List.mem_map.mp recent
      exact closing fill seg made isFin

theorem Recorded.quiet {isn : WrappingInt32} {trace : Trace} (recorded : Recorded isn trace)
    {op : Op} (other : op ≠ .fillWindow)
    (out : (trace.sender.perform op).segmentsOut = trace.sender.segmentsOut)
    (sameIsn : (trace.sender.perform op).isn = trace.sender.isn)
    (ledger : Ledger (trace.sender.perform op) (trace.accepted ++ op.accepted trace.sender)
      (created trace.emitted))
    (stock : Stock (trace.sender.perform op) (created trace.emitted)) :
    Recorded isn (trace.next op) := by
  refine recorded.step (out.trans (List.append_nil _).symm) sameIsn ?_ ?_
    (fun _ => Or.inl rfl) (fun fill => absurd fill other)
  · rwa [if_neg other, List.append_nil]
  · rwa [if_neg other, List.append_nil]

theorem Recorded.next {isn : WrappingInt32} {trace : Trace} (recorded : Recorded isn trace)
    (op : Op) : Recorded isn (trace.next op) := by
  have ledger := recorded.ledger
  have stock := recorded.stock
  have unwritten : trace.accepted ++ [] = trace.accepted := List.append_nil _
  cases op with
  | write data =>
      exact recorded.quiet (by simp) rfl rfl (ledger.write data)
        (stock.of_same rfl rfl rfl rfl)
  | endInput =>
      exact recorded.quiet (by simp) rfl rfl (unwritten.symm ▸ ledger.endInput)
        (stock.of_same rfl rfl rfl rfl)
  | fillWindow =>
      obtain ⟨new, out, ledger, stock, closing⟩ := fillWindow_spec ledger stock
      refine recorded.step out (fillWindow_frame _).1 ?_ ?_ (fun other => absurd rfl other) ?_
      · exact if_pos (show Op.fillWindow = .fillWindow from rfl) ▸ unwritten.symm ▸ ledger
      · exact if_pos (show Op.fillWindow = .fillWindow from rfl) ▸ stock
      · intro _ seg made isFin
        obtain ⟨start, placed⟩ := exists_tile (List.mem_append_right _ made)
        rcases closing with ⟨_, rfl, _⟩ | ⟨_, closing⟩
        · simp at made
        · exact closing ((ledger.fin _ placed).mp isFin).1
  | ackReceived ackno windowSize =>
      obtain ⟨isn, stream, nextSeqno, finSend, out⟩ :=
        ackReceived_frame trace.sender ackno windowSize
      exact recorded.quiet (by simp) out isn
        (unwritten.symm ▸ ledger.of_same isn stream nextSeqno finSend)
        (stock.ackReceived ackno windowSize)
  | tick ms =>
      obtain ⟨new, rto, rtoBase, retransnum, ticked, emitted⟩ := tick_cases trace.sender ms
      have performed : trace.sender.perform (.tick ms) = _ := ticked
      have out : (trace.sender.perform (.tick ms)).segmentsOut =
          trace.sender.segmentsOut ++ new := by rw [performed]
      refine recorded.step out (by rw [performed]) ?_ ?_ ?_ (fun fill => by cases fill)
      · rw [performed, if_neg (by simp), List.append_nil]
        exact unwritten.symm ▸ ledger.of_same rfl rfl rfl rfl
      · rw [performed, if_neg (by simp), List.append_nil]
        exact stock.of_same rfl rfl rfl rfl
      · rintro _
        rcases emitted with nothing | ⟨entry, oldest, rfl⟩
        · exact Or.inl nothing
        · refine Or.inr ⟨entry.2, rfl, fun _ => Or.inl ?_⟩
          obtain ⟨tile, placed, rfl⟩ := stock.mem_created (List.mem_of_mem_head? oldest)
          have made : tile.2 ∈ created trace.emitted := mem_of_tile placed
          exact made
  | sendEmptySegment =>
      refine recorded.step rfl rfl ?_ ?_ (fun _ => Or.inr ⟨_, rfl, ?_⟩) (fun fill => by cases fill)
      · rw [if_neg (by simp), List.append_nil]
        exact unwritten.symm ▸ ledger.of_same rfl rfl rfl rfl
      · rw [if_neg (by simp), List.append_nil]
        exact stock.of_same rfl rfl rfl rfl
      · intro eof
        refine Or.inr ⟨rfl, ?_⟩
        rw [ledger.total, recorded.number]

theorem traces_recorded {capacity : Nat} {retxTimeout : UInt16} {isn : WrappingInt32}
    {trace : Trace} (reached : (traces capacity retxTimeout isn).Reachable trace) :
    Recorded isn trace :=
  Machine.invariant (Recorded isn) (recorded_new capacity retxTimeout isn)
    (fun _ op _ recorded => recorded.next op) reached

/-! ## The sequence space -/

/-- The segments made by `fill_window` tile the sequence numbers sent so far, and
nothing else is ever sent than copies of them and empty segments. -/
structure TilesSequenceSpace (isn : WrappingInt32) (trace : Trace) : Prop where
  total : extent TCPSegment.lengthInSequenceSpace (created trace.emitted) =
    trace.sender.nextSeqnoAbsolute
  tiled : ∀ number < trace.sender.nextSeqnoAbsolute,
    ∃! tile, tile ∈ tiles (created trace.emitted) ∧
      tile.1 ≤ number ∧ number < tile.1 + tile.2.lengthInSequenceSpace
  segments : ∀ front seg back, created trace.emitted = front ++ seg :: back →
    seg.header.seqno = wrap (extent TCPSegment.lengthInSequenceSpace front) isn ∧
      1 ≤ seg.lengthInSequenceSpace ∧ seg.payload.str.length ≤ 1452 ∧
      (seg.header.syn = true ↔ front = []) ∧ (seg.header.fin = true → back = [])
  payload : payloads (created trace.emitted) <+: trace.accepted ∧
    (payloads (created trace.emitted)).length = trace.sender.streamIn.bytesRead
  closing : ∀ emission ∈ trace.emitted, emission.op = .fillWindow →
    emission.seg.header.fin = true → emission.eof = true
  count : trace.sender.nextSeqnoAbsolute =
    (if ∃ seg ∈ created trace.emitted, seg.header.syn = true then 1 else 0) +
      trace.sender.streamIn.bytesRead +
      (if ∃ seg ∈ created trace.emitted, seg.header.fin = true then 1 else 0)
  queue : trace.emitted.map Emission.seg = trace.sender.segmentsOut
  others : ∀ (position : Nat) (emission : Emission),
    trace.emitted[position]? = some emission → emission.op ≠ .fillWindow →
      Repeats isn (trace.emitted.take position) emission

section

variable {sender : TCPSender} {accepted : List Byte}

theorem tile_of_split (front : List TCPSegment) (seg : TCPSegment) (back : List TCPSegment) :
    (extent TCPSegment.lengthInSequenceSpace front, seg) ∈ tiles (front ++ seg :: back) := by
  unfold tiles
  rw [Tiling.place_append, Nat.zero_add]
  exact List.mem_append_right _ List.mem_cons_self

theorem extent_pos {segs : List TCPSegment}
    (lengths : ∀ seg ∈ segs, 0 < seg.lengthInSequenceSpace) (nonempty : segs ≠ []) :
    0 < extent TCPSegment.lengthInSequenceSpace segs := by
  obtain ⟨seg, rest, rfl⟩ := List.exists_cons_of_ne_nil nonempty
  have positive := lengths seg List.mem_cons_self
  rw [Tiling.extent_cons]
  omega

theorem Ledger.split {front back : List TCPSegment} {seg : TCPSegment}
    (ledger : Ledger sender accepted (front ++ seg :: back)) :
    seg.header.seqno = wrap (extent TCPSegment.lengthInSequenceSpace front) sender.isn ∧
      1 ≤ seg.lengthInSequenceSpace ∧ seg.payload.str.length ≤ 1452 ∧
      (seg.header.syn = true ↔ front = []) ∧ (seg.header.fin = true → back = []) := by
  have placed := tile_of_split front seg back
  have member : seg ∈ front ++ seg :: back := by simp
  refine ⟨ledger.seqno _ placed, ledger.nonempty seg member, ledger.small seg member, ?_, ?_⟩
  · rw [ledger.syn _ placed, decide_eq_true_eq]
    constructor
    · intro zero
      by_contra preceded
      have positive := extent_pos
        (fun other inside => ledger.nonempty other (List.mem_append_left _ inside)) preceded
      dsimp only at zero
      omega
    · rintro rfl
      rfl
  · intro isFin
    have last := ((ledger.fin _ placed).mp isFin).2
    rw [← ledger.total, Tiling.extent_append, Tiling.extent_cons] at last
    by_contra followed
    have positive := extent_pos
      (fun other inside => ledger.nonempty other (by simp [inside])) followed
    dsimp only at last
    omega

theorem Ledger.extent_front {front back : List TCPSegment} {seg : TCPSegment}
    (ledger : Ledger sender accepted (front ++ seg :: back)) :
    extent TCPSegment.lengthInSequenceSpace front =
      (if front = [] then 0 else 1) + (payloads front).length := by
  induction front using List.reverseRecOn generalizing seg back with
  | nil => rfl
  | append_singleton front last induction =>
      rw [List.append_assoc, List.singleton_append] at ledger
      have before := induction ledger
      obtain ⟨_, _, _, syn, fin⟩ := ledger.split
      have noFin : last.header.fin = false :=
        Bool.eq_false_of_not_eq_true fun isFin => by simpa using fin isFin
      have grown : front ++ [last] ≠ [] := by simp
      rw [Tiling.extent_append, before, payloads_append_singleton, if_neg grown]
      by_cases first : front = []
      · simp [first, TCPSegment.lengthInSequenceSpace, syn.mpr first, noFin, payloads]
        omega
      · have noSyn : last.header.syn = false :=
          Bool.eq_false_of_not_eq_true fun isSyn => first (syn.mp isSyn)
        simp [first, TCPSegment.lengthInSequenceSpace, noSyn, noFin]
        omega

theorem Ledger.syn_iff {created : List TCPSegment}
    (ledger : Ledger sender accepted created) :
    (∃ seg ∈ created, seg.header.syn = true) ↔ created ≠ [] := by
  constructor
  · rintro ⟨seg, member, _⟩
    exact List.ne_nil_of_mem member
  · intro nonempty
    obtain ⟨seg, rest, rfl⟩ := List.exists_cons_of_ne_nil nonempty
    have first := @Ledger.split sender accepted [] rest seg ledger
    exact ⟨seg, List.mem_cons_self, first.2.2.2.1.mpr rfl⟩

theorem Ledger.fin_iff {created : List TCPSegment}
    (ledger : Ledger sender accepted created) :
    (∃ seg ∈ created, seg.header.fin = true) ↔ sender.finSend = true := by
  constructor
  · rintro ⟨seg, member, isFin⟩
    obtain ⟨start, placed⟩ := exists_tile member
    exact ((ledger.fin _ placed).mp isFin).1
  · intro finished
    have nonempty : created ≠ [] := by
      apply ledger.created_ne_nil
      have count := ledger.count
      rw [finished, if_pos rfl] at count
      omega
    obtain ⟨front, seg, rfl⟩ := (List.eq_nil_or_concat' created).resolve_left nonempty
    have placed := tile_of_split front seg []
    refine ⟨seg, by simp, (ledger.fin _ placed).mpr ⟨finished, ?_⟩⟩
    rw [← ledger.total]
    simp

end

theorem sender_tiles_sequence_space {capacity : Nat} {retxTimeout : UInt16}
    {isn : WrappingInt32} {trace : Trace}
    (reached : (traces capacity retxTimeout isn).Reachable trace) :
    TilesSequenceSpace isn trace := by
  obtain ⟨number, ledger, stock, queue, repeats, closing⟩ := traces_recorded reached
  refine ⟨ledger.total, ?_, ?_, ?_, closing, ?_, queue, repeats⟩
  · intro position below
    have high : position < 0 + extent TCPSegment.lengthInSequenceSpace
        (created trace.emitted) := by
      rw [ledger.total, Nat.zero_add]
      exact below
    exact Tiling.place_existsUnique _ (Nat.zero_le _) high
  · intro front seg back split
    rw [split] at ledger
    rw [← number]
    exact ledger.split
  · exact ⟨⟨_, ledger.bytes⟩, ledger.read.symm⟩
  · simp only [ledger.syn_iff, ledger.fin_iff]
    rw [ite_not]
    exact ledger.count

theorem sender_tiles_sequence_space_fin :
    TilesSequenceSpace ⟨7⟩ ((traces 10 1000 ⟨7⟩).run (traces 10 1000 ⟨7⟩).init
      [.fillWindow, .write [1, 2, 3], .ackReceived ⟨8⟩ 10, .endInput, .fillWindow,
        .tick 1000, .sendEmptySegment]) :=
  sender_tiles_sequence_space (Machine.reachable_run _ _ (by decide))

/-! ## The retransmission store -/

structure KeepsOutstanding (trace : Trace) : Prop where
  acked : trace.sender.ackS ≤ trace.sender.nextSeqno
  flight : trace.sender.bytesInFlight = trace.sender.nextSeqno - trace.sender.ackS
  stored : trace.sender.segmentsNoack.entries =
    ((tiles (created trace.emitted)).map
      (fun tile => (tile.1 + tile.2.lengthInSequenceSpace, tile.2))).filter
        (fun entry => decide (trace.sender.ackS < entry.1))
  covered : ∀ number, trace.sender.ackS ≤ number → number < trace.sender.nextSeqno →
    ∃! entry, entry ∈ trace.sender.segmentsNoack.entries ∧
      entry.1 ≤ number + entry.2.lengthInSequenceSpace ∧ number < entry.1
  oldest : ∀ entry, trace.sender.segmentsNoack.begin? = some entry →
    entry.1 ≤ trace.sender.ackS + entry.2.lengthInSequenceSpace ∧
      trace.sender.ackS < entry.1
  timer : trace.sender.start = true ↔ 0 < trace.sender.bytesInFlight
  stocked : 0 < trace.sender.bytesInFlight ↔ trace.sender.segmentsNoack.entries ≠ []
  retransmits : trace.sender.start = true → trace.sender.segmentsNoack.begin? ≠ none

section

variable {sender : TCPSender} {accepted : List Byte} {created : List TCPSegment}

theorem Ledger.nextSeqno_le (ledger : Ledger sender accepted created) :
    sender.nextSeqno ≤ accepted.length + 2 := by
  have count := ledger.count
  have bytes := congrArg List.length ledger.bytes
  rw [ledger.read] at count
  rw [List.length_append] at bytes
  split_ifs at count <;> omega

theorem Ledger.bytesInFlight_eq (ledger : Ledger sender accepted created)
    (stock : Stock sender created) (bound : accepted.length < 2 ^ 63) :
    sender.bytesInFlight = sender.nextSeqno - sender.ackS := by
  have next := ledger.nextSeqno_le
  exact SizeT.sub_of_le stock.acked (by omega)

theorem Stock.covered (stock : Stock sender created)
    (ledger : Ledger sender accepted created) {number : Nat}
    (low : sender.ackS ≤ number) (high : number < sender.nextSeqno) :
    ∃! entry, entry ∈ sender.segmentsNoack.entries ∧
      entry.1 ≤ number + entry.2.lengthInSequenceSpace ∧ number < entry.1 := by
  rw [← ledger.total, ← Nat.zero_add (extent _ _)] at high
  obtain ⟨tile, ⟨placed, starts, ends⟩, unique⟩ :=
    Tiling.place_existsUnique TCPSegment.lengthInSequenceSpace (Nat.zero_le number) high
  refine ⟨keyed tile, ⟨?_, Nat.add_le_add_right starts _, ends⟩, ?_⟩
  · rw [stock.stored]
    refine List.mem_filter.mpr ⟨List.mem_map_of_mem placed, ?_⟩
    rw [decide_eq_true_eq]
    exact Nat.lt_of_le_of_lt low ends
  · rintro entry ⟨member, entryStarts, entryEnds⟩
    obtain ⟨other, otherPlaced, rfl⟩ := stock.mem_created member
    have same := unique other
      ⟨otherPlaced, Nat.le_of_add_le_add_right entryStarts, entryEnds⟩
    rw [same]

theorem Stock.oldest (stock : Stock sender created) {entry : Nat × TCPSegment}
    (first : sender.segmentsNoack.begin? = some entry) :
    ∃ tile ∈ tiles created, keyed tile = entry ∧ tile.1 ≤ sender.ackS ∧
      sender.ackS < tile.1 + tile.2.lengthInSequenceSpace := by
  unfold OrderedMap.begin? at first
  rw [stock.stored, List.filter_map, List.head?_map, Option.map_eq_some_iff] at first
  obtain ⟨tile, head, rfl⟩ := first
  have contains := Tiling.head_past_contains TCPSegment.lengthInSequenceSpace
    (Nat.zero_le sender.ackS) head
  exact ⟨tile, List.mem_of_mem_filter (List.mem_of_mem_head? head), rfl, contains⟩

theorem Stock.stocked_iff (stock : Stock sender created)
    (ledger : Ledger sender accepted created) :
    sender.ackS < sender.nextSeqno ↔ sender.segmentsNoack.entries ≠ [] := by
  constructor
  · intro behind
    obtain ⟨entry, ⟨member, _⟩, _⟩ := stock.covered ledger (Nat.le_refl _) behind
    exact List.ne_nil_of_mem member
  · intro stocked
    obtain ⟨entry, rest, entries⟩ := List.exists_cons_of_ne_nil stocked
    have member : entry ∈ sender.segmentsNoack.entries := by simp [entries]
    have bound := stock.keys_le ledger entry member
    rw [stock.stored] at member
    have past := (List.mem_filter.mp member).2
    rw [decide_eq_true_eq] at past
    omega

theorem Stock.start_iff (stock : Stock sender created) :
    sender.start = true ↔ sender.ackS < sender.nextSeqno := by
  rw [stock.timer, decide_eq_true_eq]

theorem Stock.exists_oldest (stock : Stock sender created)
    (ledger : Ledger sender accepted created) (behind : sender.ackS < sender.nextSeqno) :
    ∃ entry, sender.segmentsNoack.begin? = some entry := by
  have stocked := (stock.stocked_iff ledger).mp behind
  rw [← Option.ne_none_iff_exists', OrderedMap.begin?, Ne, List.head?_eq_none_iff]
  exact stocked

end

theorem ackS_le_perform (sender : TCPSender) (op : Op) :
    sender.ackS ≤ (sender.perform op).ackS := by
  cases op with
  | write data => exact Nat.le_refl _
  | endInput => exact Nat.le_refl _
  | fillWindow => exact Nat.le_of_eq (fillWindow_frame sender).2.1.symm
  | ackReceived ackno windowSize =>
      change _ ≤ (sender.ackReceived ackno windowSize).ackS
      rcases sender.ackReceived_cases ackno windowSize with
        same | ⟨newAck, unwrapped, possible⟩
      · rw [same]
      · rw [ackReceived_eq unwrapped possible]
        exact Nat.le_max_left _ _
  | tick ms =>
      obtain ⟨new, rto, rtoBase, retransnum, ticked, _⟩ := tick_cases sender ms
      change _ ≤ (sender.tick ms).ackS
      rw [ticked]
  | sendEmptySegment => exact Nat.le_refl _

theorem sender_keeps_outstanding {capacity : Nat} {retxTimeout : UInt16}
    {isn : WrappingInt32} {trace : Trace}
    (reached : (traces capacity retxTimeout isn).Reachable trace)
    (bound : trace.accepted.length < 2 ^ 63) :
    KeepsOutstanding trace ∧
      ∀ later, (traces capacity retxTimeout isn).Reaches trace later →
        trace.sender.ackS ≤ later.sender.ackS := by
  obtain ⟨_, ledger, stock, _, _, _⟩ := traces_recorded reached
  have flight := ledger.bytesInFlight_eq stock bound
  have inFlight : 0 < trace.sender.bytesInFlight ↔
      trace.sender.ackS < trace.sender.nextSeqno := by
    rw [flight]
    exact Nat.sub_pos_iff_lt
  refine ⟨⟨stock.acked, flight, stock.stored, fun _ => stock.covered ledger, ?_,
    stock.start_iff.trans inFlight.symm, inFlight.trans (stock.stocked_iff ledger), ?_⟩, ?_⟩
  · intro entry first
    obtain ⟨tile, _, rfl, starts, ends⟩ := stock.oldest first
    exact ⟨Nat.add_le_add_right starts _, ends⟩
  · intro running
    obtain ⟨entry, first⟩ := stock.exists_oldest ledger (stock.start_iff.mp running)
    rw [first]
    exact Option.some_ne_none entry
  · intro later onward
    induction onward with
    | refl => exact Nat.le_refl _
    | tail _ step induction =>
        obtain ⟨op, _, rfl⟩ := step
        exact Nat.le_trans induction (ackS_le_perform _ op)

theorem sender_keeps_outstanding_partial :
    KeepsOutstanding ((traces 10 1000 ⟨7⟩).run (traces 10 1000 ⟨7⟩).init
      [.fillWindow, .write [1, 2, 3], .ackReceived ⟨8⟩ 10, .fillWindow,
        .ackReceived ⟨10⟩ 0, .tick 2000]) :=
  (sender_keeps_outstanding (Machine.reachable_run _ _ (by decide)) (by decide)).1

end Sponge.TCPSender
