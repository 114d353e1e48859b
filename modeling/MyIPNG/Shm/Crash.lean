import MyIPNG.Shm.Refinement

/-!
# A process that dies inside a critical section

The mutex of a queue is robust: a process that finds it held by a dead one marks it consistent and
goes on. The segment is then what the dead process left. `updates` lists the changes that a
critical section makes to the segment, in program order, with a copy or a move of bytes as one
change; `foldl_updates` ties them to `step`. `crashState` is the segment after the first of them.

A send is harmless at every point, since it writes behind the bytes in use and counts them last.
A wait first moves the tail down over the record and reduces `filled` afterwards. In between, the
last bytes in use are the old ones, as many as the removed record had; the area is well formed
there exactly when these bytes happen to be whole records again (`CrashHarmless`,
`consistent_crashState_iff`).
-/

set_option autoImplicit false
set_option relaxedAutoImplicit false

namespace MyIPNG.Shm

open Base

/-! ### The updates of a critical section -/

/-- One change of the shared segment. -/
inductive Update
  | setCounter (value : UInt64)
  | copyRecord (start : ℕ) (bytes : List UInt8)
  | moveTail (target source count : ℕ)
  | setFilled (value : ℕ)
deriving DecidableEq, Repr

/-- The segment after a change. -/
def applyUpdate (shm : SharedMemory) : Update → SharedMemory
  | .setCounter value => { shm with mostRecentMsgNr := value }
  | .copyRecord start bytes => { shm with data := overwrite shm.data start bytes }
  | .moveTail target source count => { shm with data := move shm.data target source count }
  | .setFilled value => { shm with filled := value }

/-- The changes of one pass through the loop of `send_message`. -/
def appendUpdates (shm : SharedMemory) (m : Message) : List Update :=
  if sizeAdd shm.filled (pad8 (sizeofMessage + m.size)) ≤ shm.totalSize then
    [.copyRecord shm.filled m.bytes, .setFilled (shm.filled + pad8 (sizeofMessage + m.size))]
  else []

/-- The changes of a removal: the tail is moved when there is one, then `filled` is reduced. -/
def removeUpdates (shm : SharedMemory) (cur totalLength : ℕ) : List Update :=
  let left := shm.filled - cur - totalLength
  (if left ≠ 0 then [.moveTail cur (cur + totalLength) left] else []) ++
    [.setFilled (shm.filled - totalLength)]

/-- The changes of a critical section, in program order. -/
def updates (state : QueueState) : Operation → List Update
  | .send localIdentifier m _ _ now =>
    let stamped := stampMessage state.shm.mostRecentMsgNr localIdentifier now m
    (if m.type ≠ MsgType.msgReply.code then [.setCounter stamped.1] else []) ++
      appendUpdates state.shm stamped.2
  | .wake index =>
    match state.waiting[index]? with
    | none => []
    | some m => appendUpdates state.shm m
  | .interrupt _ => []
  | .wait address filter =>
    match scan address state.shm filter 0 with
    | .found cur totalLength => removeUpdates state.shm cur totalLength
    | _ => []

theorem foldl_appendUpdates (shm : SharedMemory) (m : Message) :
    (appendUpdates shm m).foldl applyUpdate shm = (tryAppend shm m).getD shm := by
  unfold appendUpdates tryAppend
  split_ifs <;> rfl

theorem foldl_removeUpdates (shm : SharedMemory) (cur totalLength : ℕ) :
    (removeUpdates shm cur totalLength).foldl applyUpdate shm =
      removeRecord shm cur totalLength := by
  unfold removeUpdates removeRecord
  dsimp only
  split_ifs <;> rfl

/-- The counter of a stamped message: a reply leaves it as it is. -/
theorem foldl_setCounter (shm : SharedMemory) (localIdentifier : Identifier) (now : UInt64)
    (m : Message) :
    (if m.type ≠ MsgType.msgReply.code then
        [Update.setCounter (stampMessage shm.mostRecentMsgNr localIdentifier now m).1]
      else []).foldl applyUpdate shm =
      { shm with
        mostRecentMsgNr := (stampMessage shm.mostRecentMsgNr localIdentifier now m).1 } := by
  by_cases hreply : m.type = MsgType.msgReply.code
  · simp [hreply, stampMessage]
  · simp [hreply, applyUpdate]

/-- The updates of a critical section, all of them, are its effect on the segment. -/
theorem foldl_updates (state : QueueState) (operation : Operation) :
    (updates state operation).foldl applyUpdate state.shm = (step state operation).1.shm := by
  cases operation with
  | send localIdentifier m positive blocking now =>
    simp only [updates, step, sendMessage, List.foldl_append, foldl_setCounter]
    generalize stampMessage state.shm.mostRecentMsgNr localIdentifier now m = stamped
    have happend := foldl_appendUpdates { state.shm with mostRecentMsgNr := stamped.1 } stamped.2
    change (appendUpdates { state.shm with mostRecentMsgNr := stamped.1 } stamped.2).foldl
      applyUpdate { state.shm with mostRecentMsgNr := stamped.1 } = _
    rw [happend]
    cases tryAppend { state.shm with mostRecentMsgNr := stamped.1 } stamped.2 <;> rfl
  | wake index =>
    simp only [updates, step, wakeSender]
    cases state.waiting[index]? with
    | none => rfl
    | some m =>
      dsimp only
      rw [foldl_appendUpdates]
      cases tryAppend state.shm m <;> rfl
  | interrupt index => rfl
  | wait address filter =>
    simp only [updates, step, waitForMessage]
    cases scan address state.shm filter 0 with
    | found cur totalLength => exact foldl_removeUpdates _ _ _
    | notFound => rfl
    | assertionFailed => rfl

/-- The queue that the next process finds when the process executing an operation dies after
`done` updates. A sender that was asleep dies with its message. -/
def crashState (state : QueueState) (operation : Operation) (done : ℕ) : QueueState where
  shm := ((updates state operation).take done).foldl applyUpdate state.shm
  waiting :=
    match operation with
    | .wake index => state.waiting.eraseIdx index
    | _ => state.waiting

/-! ### Records end where their headers say -/

/-- What follows a record is determined by the bytes: a record ends where its header says. -/
theorem Record.bytes_append_inj {first second : Record} {rest other : List UInt8}
    (h : first.bytes ++ rest = second.bytes ++ other) : rest = other := by
  have hwhole := slice_full (first.bytes ++ rest)
  have hfirst := (first.header_at hwhole).1
  have hsecond := (second.header_at (hwhole.trans h)).1
  have hsize : first.message.size = second.message.size := hfirst.symm.trans hsecond
  have hlength : first.bytes.length = second.bytes.length := by
    rw [first.length_bytes, second.length_bytes, length, length, Message.recordLength,
      Message.recordLength, hsize]
  exact (List.append_inj h hlength).2

/-- When records followed by more bytes are records again, the bytes that follow are the last
ones of these. -/
theorem flatMap_bytes_append_eq {records others : List Record} {rest : List UInt8}
    (h : records.flatMap Record.bytes ++ rest = others.flatMap Record.bytes) :
    ∃ tail : List Record, rest = tail.flatMap Record.bytes ∧ tail.Sublist others := by
  induction records generalizing others with
  | nil => exact ⟨others, h, List.Sublist.refl _⟩
  | cons record records ih =>
    cases others with
    | nil =>
      have hempty := congrArg List.length h
      have hrecord := record.sizeofMessage_le
      simp only [List.flatMap_cons, List.length_append, record.length_bytes, List.flatMap_nil,
        List.length_nil, sizeofMessage] at hempty hrecord
      omega
    | cons other others =>
      rw [List.flatMap_cons, List.flatMap_cons, List.append_assoc] at h
      obtain ⟨tail, hrest, htail⟩ := ih (Record.bytes_append_inj h)
      exact ⟨tail, hrest, htail.cons _⟩

/-! ### Consistency after a crash -/

/-- The message that an operation is sending. -/
def sending (state : QueueState) : Operation → Option Message
  | .send localIdentifier m _ _ now =>
    some (stampMessage state.shm.mostRecentMsgNr localIdentifier now m).2
  | .wake index => state.waiting[index]?
  | _ => none

/-- The bytes in use of a segment are whole records, each of a message from the queue before the
operation or of the one being sent. -/
def Consistent (before : List Record) (sent : Option Message) (shm : SharedMemory) : Prop :=
  ∃ records, Represents shm records ∧
    ∀ record ∈ records, record.message ∈ before.map Record.message ∨ some record.message = sent

/-- The condition on the queue before the operation: when the process dies between the two updates
of a wait, and the record that the filter selects first is not the last one, then the last bytes
in use, as many as that record has, are whole records of messages in the queue. -/
def CrashHarmless (before : List Record) (operation : Operation) (done : ℕ) : Prop :=
  ∀ address filter front record back, operation = .wait address filter → done = 1 →
    before = front ++ record :: back → back ≠ [] →
    (∀ other ∈ front, filter.selects other.message = false) →
    filter.selects record.message = true →
    ∃ tail : List Record,
      (before.flatMap Record.bytes).drop (recordsLength before - record.length) =
        tail.flatMap Record.bytes ∧
      ∀ other ∈ tail, other.message ∈ before.map Record.message

theorem consistent_self {shm : SharedMemory} {records : List Record} (h : Represents shm records)
    (sent : Option Message) : Consistent records sent shm :=
  ⟨records, h, fun _ hrecord ↦ Or.inl (List.mem_map_of_mem hrecord)⟩

/-- A copy behind the bytes in use leaves the records as they are. Assumes: it stays inside the
area. -/
theorem Represents.copyBehind {shm : SharedMemory} {records : List Record}
    (h : Represents shm records) {bytes : List UInt8}
    (hfits : shm.filled + bytes.length ≤ shm.totalSize) :
    Represents { shm with data := overwrite shm.data shm.filled bytes } records := by
  have hlength := h.data_length
  refine ⟨?_, h.totalSize_lt, h.filled_le, ?_⟩
  · rw [length_overwrite _ _ _ (by omega), hlength]
  · change (overwrite shm.data shm.filled bytes).take shm.filled = _
    rw [take_overwrite _ _ _ (by omega) _ (le_refl _), h.contents]

/-- Dying inside a pass through the loop of `send_message` leaves a consistent queue. -/
theorem consistent_appendUpdates {shm : SharedMemory} {records : List Record}
    (h : Represents shm records) (m : Message) (hpos : 0 < m.size) (done : ℕ) :
    Consistent records (some m) (((appendUpdates shm m).take done).foldl applyUpdate shm) := by
  have hsize := h.totalSize_lt
  have hfilled := h.filled_le
  have hrecord := m.recordLength_lt
  have hle := m.length_bytes_le
  have hsum : sizeAdd shm.filled (pad8 (sizeofMessage + m.size)) =
      shm.filled + m.recordLength := by
    change sizeAdd shm.filled m.recordLength = _
    rw [sizeAdd, Nat.mod_eq_of_lt (by omega)]
  unfold appendUpdates
  rw [hsum]
  split_ifs with hfits
  · rcases done with _ | _ | done
    · exact consistent_self h _
    · exact consistent_self (h.copyBehind (by omega)) _
    · obtain ⟨record, hmessage, happended⟩ := represents_append h m hpos hfits
      refine ⟨records ++ [record], ?_, ?_⟩
      · simp only [List.take_succ_cons, List.take_nil, List.foldl_cons, List.foldl_nil]
        exact happended
      · intro other hother
        rcases List.mem_append.mp hother with hold | hnew
        · exact Or.inl (List.mem_map_of_mem hold)
        · rw [List.mem_singleton.mp hnew, hmessage]
          exact Or.inr rfl
  · rw [List.take_nil]
    exact consistent_self h _

/-- The last bytes in use, read from the records. -/
theorem Represents.slice_last {shm : SharedMemory} {front back : List Record} {record : Record}
    (h : Represents shm (front ++ record :: back)) :
    slice shm.data (recordsLength front + recordsLength back) record.length =
      ((front ++ record :: back).flatMap Record.bytes).drop
        (recordsLength (front ++ record :: back) - record.length) := by
  have hsum : recordsLength (front ++ record :: back) - record.length =
      recordsLength front + recordsLength back := by
    rw [recordsLength_append, recordsLength_cons]
    omega
  have hfilled := h.filled_eq
  rw [recordsLength_append, recordsLength_cons] at hfilled
  rw [hsum, ← h.contents, List.drop_take, slice, hfilled]
  congr 1
  omega

/-- The updates of the removal of the last record: only `filled` changes. -/
theorem removeUpdates_last {shm : SharedMemory} {front : List Record} {record : Record}
    (h : Represents shm (front ++ [record])) :
    removeUpdates shm (recordsLength front) record.length =
      [.setFilled (shm.filled - record.length)] := by
  have hfilled := h.filled_eq
  rw [recordsLength_append, recordsLength_cons, recordsLength_nil] at hfilled
  have hleft : shm.filled - recordsLength front - record.length = 0 := by omega
  simp [removeUpdates, hleft]

/-- The updates of the removal of a record that is not the last one. -/
theorem removeUpdates_inner {shm : SharedMemory} {front back : List Record} {record : Record}
    (h : Represents shm (front ++ record :: back)) (hback : back ≠ []) :
    removeUpdates shm (recordsLength front) record.length =
      [.moveTail (recordsLength front) (recordsLength front + record.length)
          (recordsLength back),
        .setFilled (shm.filled - record.length)] := by
  have hfilled := h.filled_eq
  rw [recordsLength_append, recordsLength_cons] at hfilled
  have hleft : shm.filled - recordsLength front - record.length = recordsLength back := by omega
  have hpositive : recordsLength back ≠ 0 := by
    obtain ⟨other, rest, rfl⟩ := List.exists_cons_of_ne_nil hback
    have hother := other.sizeofMessage_le
    simp only [recordsLength_cons, sizeofMessage] at hother ⊢
    omega
  simp [removeUpdates, hleft, hpositive]

/-- The records that a removal keeps were in the queue before. -/
theorem mem_before_of_kept {front back : List Record} {record other : Record}
    (h : other ∈ front ++ back) :
    other.message ∈ (front ++ record :: back).map Record.message := by
  refine List.mem_map_of_mem ?_
  rcases List.mem_append.mp h with hfront | hback
  · exact List.mem_append_left _ hfront
  · exact List.mem_append_right _ (List.mem_cons_of_mem _ hback)

/-- All updates of a removal together leave a consistent queue. -/
theorem consistent_removeUpdates {shm : SharedMemory} {front back : List Record} {record : Record}
    (h : Represents shm (front ++ record :: back)) :
    Consistent (front ++ record :: back) none
      ((removeUpdates shm (recordsLength front) record.length).foldl applyUpdate shm) := by
  rw [foldl_removeUpdates]
  exact ⟨front ++ back, represents_remove h, fun _ hother ↦ Or.inl (mem_before_of_kept hother)⟩

/-- Between the two updates of a removal the queue is consistent exactly when the last bytes in
use, as many as the removed record has, are whole records of messages in the queue. -/
theorem consistent_moveTail_iff {shm : SharedMemory} {front back : List Record} {record : Record}
    (h : Represents shm (front ++ record :: back)) :
    Consistent (front ++ record :: back) none
        { shm with
          data := move shm.data (recordsLength front) (recordsLength front + record.length)
            (recordsLength back) } ↔
      ∃ tail : List Record,
        ((front ++ record :: back).flatMap Record.bytes).drop
            (recordsLength (front ++ record :: back) - record.length) =
          tail.flatMap Record.bytes ∧
        ∀ other ∈ tail, other.message ∈ (front ++ record :: back).map Record.message := by
  have hmoved := take_move h
  rw [h.slice_last] at hmoved
  constructor
  · rintro ⟨records, hrecords, hmember⟩
    have hcontents := hrecords.contents
    rw [hmoved] at hcontents
    obtain ⟨tail, htail, hsublist⟩ := flatMap_bytes_append_eq hcontents
    refine ⟨tail, htail, fun other hother ↦ ?_⟩
    rcases hmember other (hsublist.subset hother) with hbefore | hnone
    · exact hbefore
    · exact absurd hnone (by simp)
  · rintro ⟨tail, htail, hmember⟩
    have hfilled := h.filled_eq
    have hle := h.filled_le
    have hlength := h.data_length
    rw [recordsLength_append, recordsLength_cons] at hfilled
    have hslice : (slice shm.data (recordsLength front + record.length)
        (recordsLength back)).length = recordsLength back := length_slice _ _ _ (by omega)
    refine ⟨front ++ back ++ tail, ⟨?_, h.totalSize_lt, hle, ?_⟩, fun other hother ↦ Or.inl ?_⟩
    · change (move shm.data _ _ _).length = _
      rw [move, length_overwrite _ _ _ (by omega), hlength]
    · rw [hmoved, htail, ← List.flatMap_append]
    · rcases List.mem_append.mp hother with hkept | htailMem
      · exact mem_before_of_kept hkept
      · exact hmember other htailMem

/-- Dying after `done` updates of a wait that selects a record leaves a consistent queue exactly
when the tail was not moved, or `filled` was reduced as well, or the last bytes are whole
records. -/
theorem consistent_removeUpdates_iff {shm : SharedMemory} {front back : List Record}
    {record : Record} (h : Represents shm (front ++ record :: back)) (done : ℕ) :
    Consistent (front ++ record :: back) none
        (((removeUpdates shm (recordsLength front) record.length).take done).foldl
          applyUpdate shm) ↔
      (done = 1 → back ≠ [] → ∃ tail : List Record,
        ((front ++ record :: back).flatMap Record.bytes).drop
            (recordsLength (front ++ record :: back) - record.length) =
          tail.flatMap Record.bytes ∧
        ∀ other ∈ tail, other.message ∈ (front ++ record :: back).map Record.message) := by
  have hdone := consistent_removeUpdates h
  by_cases hback : back = []
  · subst hback
    refine iff_of_true ?_ (fun _ hne ↦ absurd rfl hne)
    match done with
    | 0 => exact consistent_self h _
    | done + 1 =>
      rw [removeUpdates_last h] at hdone ⊢
      simpa only [List.take_succ_cons, List.take_nil] using hdone
  · match done with
    | 0 => exact iff_of_true (consistent_self h _) (fun hzero ↦ absurd hzero (by decide))
    | done + 2 =>
      refine iff_of_true ?_ (fun hone ↦ absurd hone (by omega))
      rw [removeUpdates_inner h hback] at hdone ⊢
      simpa only [List.take_succ_cons, List.take_nil] using hdone
    | 1 =>
      rw [removeUpdates_inner h hback]
      refine (consistent_moveTail_iff h).trans ⟨fun htail _ _ ↦ htail, fun htail ↦ ?_⟩
      exact htail rfl hback

/-- The first record that a filter selects is determined by the records. -/
theorem first_selected_unique {filter : Filter} {front other back rest : List Record}
    {record selected : Record} (h : front ++ record :: back = other ++ selected :: rest)
    (hfront : ∀ r ∈ front, filter.selects r.message = false)
    (hrecord : filter.selects record.message = true)
    (hother : ∀ r ∈ other, filter.selects r.message = false)
    (hselected : filter.selects selected.message = true) :
    front = other ∧ record = selected ∧ back = rest := by
  induction front generalizing other with
  | nil =>
    cases other with
    | nil =>
      obtain ⟨hhead, htail⟩ := List.cons.inj h
      exact ⟨rfl, hhead, htail⟩
    | cons first others =>
      obtain ⟨hhead, -⟩ := List.cons.inj h
      have hfirst := hother first List.mem_cons_self
      rw [← hhead, hrecord] at hfirst
      cases hfirst
  | cons first front ih =>
    cases other with
    | nil =>
      obtain ⟨hhead, -⟩ := List.cons.inj h
      have hfirst := hfront first List.mem_cons_self
      rw [hhead, hselected] at hfirst
      cases hfirst
    | cons second others =>
      obtain ⟨hhead, htail⟩ := List.cons.inj h
      obtain ⟨hlists, hrest⟩ := ih htail (fun r hr ↦ hfront r (List.mem_cons_of_mem _ hr))
        (fun r hr ↦ hother r (List.mem_cons_of_mem _ hr))
      exact ⟨by rw [hhead, hlists], hrest⟩

theorem consistent_crash_send {state : QueueState} {records : List Record}
    (h : Represents state.shm records) (localIdentifier : Identifier) (m : Message)
    (hpos : 0 < m.size) (blocking : Bool) (now : UInt64) (done : ℕ) :
    Consistent records (sending state (.send localIdentifier m hpos blocking now))
      (crashState state (.send localIdentifier m hpos blocking now) done).shm := by
  have hstampedPos : 0 < (stampMessage state.shm.mostRecentMsgNr localIdentifier now m).2.size := by
    rw [size_stampMessage]
    exact hpos
  simp only [crashState, updates, sending]
  by_cases hreply : m.type = MsgType.msgReply.code
  · rw [if_neg (not_not.mpr hreply), List.nil_append]
    exact consistent_appendUpdates h _ hstampedPos done
  · rw [if_pos hreply, List.singleton_append]
    cases done with
    | zero => exact consistent_self h _
    | succ done =>
      rw [List.take_succ_cons, List.foldl_cons]
      exact consistent_appendUpdates (h.setCounter _) _ hstampedPos done

theorem consistent_crash_wake {state : QueueState} {records : List Record}
    (h : Represents state.shm records) (hwaiting : ∀ m ∈ state.waiting, 0 < m.size) (index : ℕ)
    (done : ℕ) :
    Consistent records (sending state (.wake index)) (crashState state (.wake index) done).shm := by
  simp only [crashState, updates, sending]
  cases hsender : state.waiting[index]? with
  | none =>
    dsimp only
    rw [List.take_nil]
    exact consistent_self h _
  | some m =>
    exact consistent_appendUpdates h m (hwaiting m (List.mem_of_getElem? hsender)) done

theorem consistent_crash_wait_iff {state : QueueState} {records : List Record}
    (h : Represents state.shm records) (address : DataAddress) (filter : Filter) (done : ℕ) :
    Consistent records none (crashState state (.wait address filter) done).shm ↔
      CrashHarmless records (.wait address filter) done := by
  have hscan := scan_eq_locate address filter [] records h
  rw [recordsLength_nil] at hscan
  simp only [crashState, updates, hscan]
  cases hlocate : locate filter 0 records with
  | found position length =>
    obtain ⟨front, record, back, rfl, hfront, hrecord, rfl, rfl⟩ := locate_eq_found hlocate
    dsimp only
    rw [Nat.zero_add, consistent_removeUpdates_iff h]
    constructor
    · intro hharmless _ filter' front' record' back' hoperation hdone hbefore hback hfront' hrecord'
      cases hoperation
      obtain ⟨rfl, rfl, rfl⟩ :=
        first_selected_unique hbefore hfront hrecord hfront' hrecord'
      exact hharmless hdone hback
    · intro hharmless hdone hback
      exact hharmless address filter front record back rfl hdone rfl hback hfront hrecord
  | notFound =>
    refine iff_of_true ?_ ?_
    · dsimp only
      rw [List.take_nil]
      exact consistent_self h _
    · intro _ filter' front record back hoperation _ hbefore _ _ hrecord
      cases hoperation
      have hnone := locate_eq_notFound hlocate record (by rw [hbefore]; simp)
      rw [Filter.selects, hnone] at hrecord
      cases hrecord
  | assertionFailed => exact absurd hlocate (locate_ne_assertionFailed _ _ _)

/-- Dying inside any critical section leaves a consistent queue exactly when the crash is
harmless. Assumes: a segment that holds records, and sleeping senders with data to send. -/
theorem consistent_crashState_iff {state : QueueState} {records : List Record}
    (h : Represents state.shm records) (hwaiting : ∀ m ∈ state.waiting, 0 < m.size)
    (operation : Operation) (done : ℕ) :
    Consistent records (sending state operation) (crashState state operation done).shm ↔
      CrashHarmless records operation done := by
  have hvacuous : (∀ address filter, operation ≠ .wait address filter) →
      CrashHarmless records operation done :=
    fun hother address filter _ _ _ hoperation ↦ absurd hoperation (hother address filter)
  cases operation with
  | send localIdentifier m positive blocking now =>
    exact iff_of_true (consistent_crash_send h localIdentifier m positive blocking now done)
      (hvacuous (by simp))
  | wake index =>
    exact iff_of_true (consistent_crash_wake h hwaiting index done) (hvacuous (by simp))
  | interrupt index =>
    refine iff_of_true ?_ (hvacuous (by simp))
    simp only [crashState, updates, List.take_nil, List.foldl_nil]
    exact consistent_self h _
  | wait address filter => exact consistent_crash_wait_iff h address filter done

/-! ### Runs with crashes -/

/-- A critical section that a process completes, or one in which it dies after some updates. -/
inductive CrashEvent
  | complete (operation : Operation)
  | crash (operation : Operation) (done : ℕ)

/-- The queue over processes that may die. -/
def crashStep (state : QueueState) : CrashEvent → QueueState × List Observation
  | .complete operation => step state operation
  | .crash operation done => (crashState state operation done, [])

/-- The condition on a step of a run: a crash is a harmless one for the records in the queue. -/
def CrashOk (state : QueueState) : CrashEvent → Prop
  | .complete _ => True
  | .crash operation done =>
    ∀ records, Represents state.shm records → CrashHarmless records operation done

/-- The segment holds records and the sleeping senders have data to send. -/
def WellFormed (state : QueueState) : Prop :=
  (∃ records, Represents state.shm records) ∧ ∀ m ∈ state.waiting, 0 < m.size

theorem wellFormed_step {state : QueueState} (h : WellFormed state) (operation : Operation) :
    WellFormed (step state operation).1 := by
  obtain ⟨⟨records, hrecords⟩, hwaiting⟩ := h
  have hrefines : Refines state ⟨state.shm.totalSize, records.map Record.message,
      state.shm.mostRecentMsgNr, state.waiting⟩ :=
    ⟨⟨records, hrecords, rfl⟩, rfl, rfl, rfl, hwaiting⟩
  obtain ⟨hnext, -⟩ := refines_step operation hrefines
  obtain ⟨next, hnextRecords, -⟩ := hnext.records
  exact ⟨⟨next, hnextRecords⟩, fun m hm ↦ hnext.waiting_pos m (hnext.waiting ▸ hm)⟩

theorem wellFormed_crashStep {state : QueueState} (h : WellFormed state) (event : CrashEvent)
    (hok : CrashOk state event) : WellFormed (crashStep state event).1 := by
  cases event with
  | complete operation => exact wellFormed_step h operation
  | crash operation done =>
    obtain ⟨⟨records, hrecords⟩, hwaiting⟩ := h
    obtain ⟨next, hnext, -⟩ :=
      (consistent_crashState_iff hrecords hwaiting operation done).mpr (hok records hrecords)
    refine ⟨⟨next, hnext⟩, fun m hm ↦ hwaiting m ?_⟩
    cases operation with
    | wake index => exact List.mem_of_mem_eraseIdx hm
    | send => exact hm
    | interrupt => exact hm
    | wait => exact hm

/-- Crash consistency over runs. Assumes: `begin()` set the segment up, and every crash of the run
was a harmless one. The bytes in use are then whole records, and for every operation and every
crash point the next process finds whole records, each of a message from the queue or of the one
being sent, exactly when that crash is harmless. -/
theorem crash_consistent_iff_harmless {size : ℕ} {contents : ℕ → UInt8} {counter : UInt64}
    {shm : SharedMemory} (hbegin : beginQueue size contents counter = some shm)
    (events : List CrashEvent) (hharmless : Along crashStep CrashOk ⟨shm, []⟩ events) :
    let final := (run crashStep ⟨shm, []⟩ events).1
    ∃ records, Represents final.shm records ∧ ∀ operation done,
      Consistent records (sending final operation) (crashState final operation done).shm ↔
        CrashHarmless records operation done := by
  intro final
  obtain ⟨start, hstart, -⟩ := (refines_beginQueue hbegin).records
  have hbegun : WellFormed ⟨shm, []⟩ := ⟨⟨start, hstart⟩, by simp⟩
  obtain ⟨⟨records, hrecords⟩, hwaiting⟩ : WellFormed final :=
    run_induction (P := fun _ state _ ↦ WellFormed state) hbegun
      (fun _ _ _ event hstate hok ↦ wellFormed_crashStep hstate event hok) hharmless
  exact ⟨records, hrecords, fun operation done ↦
    consistent_crashState_iff hrecords hwaiting operation done⟩

/-- A sender that dies after the copy of its record, before `filled` is raised. -/
theorem crash_consistent_iff_harmless_send :
    let sender : Identifier := ⟨[97], by decide⟩
    let m := sampleMessage [1] (by decide)
    let start : SharedMemory := ⟨160, 0, 0, (List.range 160).map fun _ ↦ 0⟩
    let events : List CrashEvent :=
      [.complete (.send sender m (by decide) false 5),
        .crash (.send sender m (by decide) false 6) 2]
    let final := (run crashStep ⟨start, []⟩ events).1
    beginQueue 160 (fun _ ↦ 0) 0 = some start ∧ Along crashStep CrashOk ⟨start, []⟩ events ∧
      ∃ records, Represents final.shm records ∧ ∀ operation done,
        Consistent records (sending final operation) (crashState final operation done).shm ↔
          CrashHarmless records operation done := by
  intro sender m start events final
  have hbegin : beginQueue 160 (fun _ ↦ 0) 0 = some start := rfl
  have hharmless : Along crashStep CrashOk ⟨start, []⟩ events :=
    ⟨trivial, fun _ _ _ _ _ _ _ hoperation ↦ absurd hoperation (by simp), trivial⟩
  exact ⟨hbegin, hharmless, crash_consistent_iff_harmless hbegin events hharmless⟩

/-- A caller that waits for the first of two messages dies when it has moved the second one down
and not yet reduced `filled`. The last 72 bytes in use then start inside the header of the old
second record; read as a record they claim 97 bytes of data, which are the first four bytes of the
sender's name. -/
theorem crash_after_move_inconsistent :
    let sender : Identifier := ⟨[97], by decide⟩
    let first := sampleMessage [1] (by decide)
    let second := sampleMessage (List.replicate 24 7) (by decide)
    let start : SharedMemory := ⟨160, 0, 0, (List.range 160).map fun _ ↦ 0⟩
    let state := (run step ⟨start, []⟩
      [.send sender first (by decide) false 5, .send sender second (by decide) false 6]).1
    let operation := Operation.wait ⟨0, rfl⟩ ⟨.msgAny, some 1⟩
    beginQueue 160 (fun _ ↦ 0) 0 = some start ∧
      ∃ records, Represents state.shm records ∧
        ¬ Consistent records (sending state operation) (crashState state operation 1).shm := by
  intro sender first second start state operation
  have hbegin : beginQueue 160 (fun _ ↦ 0) 0 = some start := rfl
  obtain ⟨hrefines, -⟩ := refines_run (refines_beginQueue hbegin)
    [.send sender first (by decide) false 5, .send sender second (by decide) false 6]
  obtain ⟨records, hrecords, hmessages⟩ := hrefines.records
  have habstract : records.map Record.message =
      [(stampMessage 0 sender 5 first).2, (stampMessage 1 sender 6 second).2] := by
    rw [hmessages]
    decide
  obtain ⟨small, rest, rfl, hsmall, hrest⟩ := List.map_eq_cons_iff.mp habstract
  obtain ⟨large, rest, rfl, hlarge, hnil⟩ := List.map_eq_cons_iff.mp hrest
  rw [List.map_eq_nil_iff.mp hnil] at hrecords
  refine ⟨hbegin, [small, large], hrecords, fun hconsistent ↦ ?_⟩
  rw [consistent_crashState_iff hrecords (by decide)] at hconsistent
  have hselected : (⟨.msgAny, some 1⟩ : Filter).selects small.message = true := by
    rw [hsmall]
    decide
  obtain ⟨tail, htail, -⟩ := hconsistent ⟨0, rfl⟩ ⟨.msgAny, some 1⟩ [] small [large] rfl rfl rfl
    (by simp) (by simp) hselected
  have hsmallLength : small.length = 72 := by
    rw [Record.length, hsmall]
    decide
  have hlargeLength : large.length = 88 := by
    rw [Record.length, hlarge]
    decide
  rw [← hrecords.contents, hsmallLength] at htail
  simp only [recordsLength_cons, recordsLength_nil, hsmallLength, hlargeLength] at htail
  have hlength : ((state.shm.data.take state.shm.filled).drop 88).length = 72 := by decide
  have hsize : sizeAt ((state.shm.data.take state.shm.filled).drop 88) 0 = 97 := by decide
  cases tail with
  | nil =>
    rw [htail] at hlength
    cases hlength
  | cons record records =>
    rw [htail, List.flatMap_cons] at hlength hsize
    have hwhole := slice_full (record.bytes ++ records.flatMap Record.bytes)
    have hrecordSize := (record.header_at hwhole).1
    rw [hsize] at hrecordSize
    rw [List.length_append, record.length_bytes, Record.length, Message.recordLength,
      ← hrecordSize] at hlength
    have hpad : pad8 (sizeofMessage + 97) = 168 := by decide
    omega

end MyIPNG.Shm
