import MyIPNG.Shm.Refinement

/-!
# What comes out of the queue

`wait_for_message` takes the first message that its filter selects, so a caller that waits for a
reply overtakes messages that nobody has asked for yet. What stays of the order is a matter of the
filters. A class of messages is kept together when every filter selects all of the class or none of
it (`Filter.AllOrNone`): the messages of such a class come out in the order in which they went in.
The servers wait for all messages, for new ones, for replies, or for the reply with one number, so
the messages of any type but that of the replies are such a class.

`messages_in_order` says it of every run on the bytes of the segment, together with what holds for
any filters: the messages that were appended are those that were handed to a caller and those whose
records are in the segment, each one once.
-/

set_option autoImplicit false
set_option relaxedAutoImplicit false

namespace MyIPNG.Shm

open Base

/-! ### Taking from a list -/

section Lists

variable {α : Type*} {selects chosen : α → Bool} {list : List α} {first : α}

/-- What was found goes from the list. -/
theorem perm_eraseP_of_find? (h : list.find? selects = some first) :
    list.Perm (first :: list.eraseP selects) := by
  obtain ⟨hfirst, front, back, rfl, hfront⟩ := List.find?_eq_some_iff_append.mp h
  have hskip : ∀ other ∈ front, ¬ selects other = true := by
    simpa using hfront
  rw [List.eraseP_append_right _ hskip, List.eraseP_cons_of_pos hfirst]
  exact List.perm_middle

/-- A filter that selects all of a class or none of it finds the first one of the class, or none
of it. -/
theorem filter_eraseP_of_find? (h : list.find? selects = some first)
    (hclass : (∀ a, chosen a = true → selects a = true) ∨
      (∀ a, chosen a = true → selects a = false)) :
    list.filter chosen = [first].filter chosen ++ (list.eraseP selects).filter chosen := by
  obtain ⟨hfirst, front, back, rfl, hfront⟩ := List.find?_eq_some_iff_append.mp h
  have hskip : ∀ other ∈ front, ¬ selects other = true := by
    simpa using hfront
  rw [List.eraseP_append_right _ hskip, List.eraseP_cons_of_pos hfirst, List.filter_append,
    List.filter_append, ← List.singleton_append, List.filter_append]
  rcases hclass with hall | hnone
  · -- the class has none in front of the one that was found
    have hempty : front.filter chosen = [] := by
      apply List.filter_eq_nil_iff.mpr
      exact fun other hother hchosen ↦ hskip other hother (hall other hchosen)
    rw [hempty, List.nil_append, List.nil_append]
  · -- what was found is not of the class
    have hempty : [first].filter chosen = [] := by
      apply List.filter_eq_nil_iff.mpr
      intro other hother hchosen
      rw [List.mem_singleton.mp hother] at hchosen
      exact absurd hfirst (by simp [hnone first hchosen])
    rw [hempty, List.nil_append, List.nil_append]

end Lists

/-! ### What goes in and what comes out -/

/-- The messages that were appended. -/
def appendedIn (observations : List Observation) : List Message :=
  observations.filterMap fun
    | .appended m => some m
    | _ => none

/-- The bytes that were handed to callers. -/
def receivedIn (observations : List Observation) : List (List UInt8) :=
  observations.filterMap fun
    | .received copy => some copy
    | _ => none

/-- The messages that went into the list and those that came out of it. -/
def putIn (observations : List AbstractObservation) : List Message :=
  observations.filterMap fun
    | .appended m => some m
    | _ => none

@[inherit_doc putIn]
def takenIn (observations : List AbstractObservation) : List Message :=
  observations.filterMap fun
    | .received m => some m
    | _ => none

/-- A filter selects every message of a class, or none of them. -/
def Filter.AllOrNone (filter : Filter) (chosen : Message → Bool) : Prop :=
  (∀ m, chosen m = true → filter.selects m = true) ∨
    (∀ m, chosen m = true → filter.selects m = false)

/-- Every caller waits for all of a class or for none of it. -/
def WaitsFor (chosen : Message → Bool) : Operation → Prop
  | .wait _ filter => filter.AllOrNone chosen
  | _ => True

/-- What went in and what came out of a list agree with what is in it. -/
structure Conserved (chosen : Message → Bool) (queue : MessageList)
    (observations : List AbstractObservation) : Prop where
  perm : (putIn observations).Perm (takenIn observations ++ queue.messages)
  inOrder : (putIn observations).filter chosen =
    (takenIn observations ++ queue.messages).filter chosen

theorem putIn_append (first second : List AbstractObservation) :
    putIn (first ++ second) = putIn first ++ putIn second := List.filterMap_append

theorem takenIn_append (first second : List AbstractObservation) :
    takenIn (first ++ second) = takenIn first ++ takenIn second := List.filterMap_append

theorem messages_offer {queue next : MessageList} {m : Message}
    (h : queue.offer m = some next) : next.messages = queue.messages ++ [m] := by
  unfold MessageList.offer at h
  split_ifs at h
  rw [← Option.some.inj h]

section Step

variable {chosen : Message → Bool} {queue next : MessageList}
  {observations : List AbstractObservation}

/-- A message goes in. -/
theorem Conserved.put (h : Conserved chosen queue observations) {m : Message}
    (hmessages : next.messages = queue.messages ++ [m]) :
    Conserved chosen next (observations ++ [.appended m]) := by
  have hput : putIn (observations ++ [.appended m]) = putIn observations ++ [m] :=
    putIn_append _ _
  have htaken : takenIn (observations ++ [.appended m]) = takenIn observations := by
    rw [takenIn_append]
    exact List.append_nil _
  refine ⟨?_, ?_⟩
  · rw [hput, htaken, hmessages, ← List.append_assoc]
    exact h.perm.append_right _
  · rw [hput, htaken, hmessages, ← List.append_assoc, List.filter_append, h.inOrder,
      ← List.filter_append]

/-- Nothing goes in, and nothing comes out. -/
theorem Conserved.idle (h : Conserved chosen queue observations)
    (hmessages : next.messages = queue.messages) {more : List AbstractObservation}
    (hput : putIn more = []) (htaken : takenIn more = []) :
    Conserved chosen next (observations ++ more) := by
  have hput' : putIn (observations ++ more) = putIn observations := by
    rw [putIn_append, hput, List.append_nil]
  have htaken' : takenIn (observations ++ more) = takenIn observations := by
    rw [takenIn_append, htaken, List.append_nil]
  exact ⟨by rw [hput', htaken', hmessages]; exact h.perm,
    by rw [hput', htaken', hmessages]; exact h.inOrder⟩

/-- A message comes out. -/
theorem Conserved.take (h : Conserved chosen queue observations) {filter : Filter}
    (hclass : filter.AllOrNone chosen) {m : Message}
    (hfound : queue.messages.find? filter.selects = some m)
    (hmessages : next.messages = queue.messages.eraseP filter.selects) :
    Conserved chosen next (observations ++ [.received m]) := by
  have hput : putIn (observations ++ [.received m]) = putIn observations := by
    rw [putIn_append]
    exact List.append_nil _
  have htaken : takenIn (observations ++ [.received m]) = takenIn observations ++ [m] :=
    takenIn_append _ _
  refine ⟨?_, ?_⟩
  · rw [hput, htaken, hmessages, List.append_assoc, List.singleton_append]
    exact h.perm.trans ((perm_eraseP_of_find? hfound).append_left _)
  · rw [hput, htaken, hmessages, h.inOrder, List.filter_append,
      filter_eraseP_of_find? hfound hclass, List.filter_append, List.filter_append,
      List.append_assoc]

/-- Every operation keeps what agrees. -/
theorem Conserved.step (h : Conserved chosen queue observations) {operation : Operation}
    (hwaits : WaitsFor chosen operation) :
    Conserved chosen (queue.step operation).1 (observations ++ (queue.step operation).2) := by
  cases operation with
  | send localIdentifier m positive blocking now =>
    simp only [MessageList.step]
    split
    · next hoffer =>
      have hmessages := messages_offer hoffer
      exact h.put hmessages
    · apply h.idle <;> rfl
  | wake index =>
    simp only [MessageList.step]
    split
    · apply h.idle <;> rfl
    · split
      · next hoffer =>
        have hmessages := messages_offer hoffer
        exact h.put hmessages
      · apply h.idle <;> rfl
  | interrupt index => apply h.idle <;> rfl
  | wait address filter =>
    simp only [MessageList.step]
    split
    · next m hfound => exact h.take hwaits hfound rfl
    · apply h.idle <;> rfl

end Step

/-- Over a run of the list, what went in is what came out and what is left. -/
theorem conserved_run (chosen : Message → Bool) (capacity : ℕ) (counter : UInt64)
    {operations : List Operation} (h : ∀ operation ∈ operations, WaitsFor chosen operation) :
    Conserved chosen (run MessageList.step (.empty capacity counter) operations).1
      (run MessageList.step (.empty capacity counter) operations).2 := by
  apply run_induction (P := fun _ queue observations ↦ Conserved chosen queue observations) ?_
    (fun _ _ _ _ hconserved hwaits ↦ hconserved.step hwaits) (along_of_forall h _)
  exact ⟨.refl _, rfl⟩

/-! ### On the bytes of the segment -/

/-- The segment reports what the list reports. -/
theorem appendedIn_eq_putIn {observations : List Observation}
    {abstract : List AbstractObservation} (h : List.Forall₂ Agrees observations abstract) :
    appendedIn observations = putIn abstract ∧
      ∃ taken : List Record, receivedIn observations = taken.map Record.bytes ∧
        taken.map Record.message = takenIn abstract := by
  induction h with
  | nil => exact ⟨rfl, [], rfl, rfl⟩
  | cons hagrees _ ih =>
    obtain ⟨happended, taken, hbytes, hmessages⟩ := ih
    cases hagrees with
    | appended m => exact ⟨congrArg (m :: ·) happended, taken, hbytes, hmessages⟩
    | refused m => exact ⟨happended, taken, hbytes, hmessages⟩
    | received record =>
      refine ⟨happended, record :: taken, ?_, ?_⟩
      · exact congrArg (record.bytes :: ·) hbytes
      · exact congrArg (record.message :: ·) hmessages
    | nothing => exact ⟨happended, taken, hbytes, hmessages⟩

/-- The data that a caller finds behind the header of its copy. -/
def copyData (copy : List UInt8) : List UInt8 := slice copy sizeofMessage (sizeAt copy 0)

theorem copyData_bytes (record : Record) : copyData record.bytes = record.message.data := by
  have hwhole : slice record.bytes 0 record.bytes.length = record.bytes ++ [] := by
    simp [slice]
  rw [copyData, (record.header_at hwhole).1, slice, Record.bytes, Message.bytes,
    List.append_assoc, ← record.message.length_header, List.drop_left, Message.size,
    List.take_left]

/-- Callers find the data of the messages that came out of the list. -/
theorem copyData_receivedIn {observations : List Observation}
    {abstract : List AbstractObservation} (h : List.Forall₂ Agrees observations abstract) :
    (receivedIn observations).map copyData = (takenIn abstract).map Message.data := by
  obtain ⟨-, taken, hbytes, hmessages⟩ := appendedIn_eq_putIn h
  rw [hbytes, ← hmessages, List.map_map, List.map_map]
  apply List.map_congr_left
  exact fun record _ ↦ copyData_bytes record

/-- The filters with which the servers wait: for any message, for new ones, and for replies, of
which they may ask for one number. -/
def Filter.isServers (filter : Filter) : Bool :=
  filter.searchType == .msgReply || filter.msgNr == none

/-- The servers wait for all messages of a type or for none of them, unless these are replies. -/
theorem allOrNone_type {filter : Filter} (h : filter.isServers = true) {type : UInt32}
    (htype : type ≠ MsgType.msgReply.code) : filter.AllOrNone fun m ↦ m.type == type := by
  obtain ⟨searchType, msgNr⟩ := filter
  by_cases hsearch : searchType = .msgReply
  · apply Or.inr
    intro m hm
    obtain rfl := beq_iff_eq.mp hm
    subst hsearch
    simp [Filter.selects, Filter.admits, htype]
  · obtain rfl : msgNr = none := by simpa [Filter.isServers, hsearch] using h
    by_cases hadmits : (type == searchType.code || searchType == .msgAny) = true
    · apply Or.inl
      intro m hm
      obtain rfl := beq_iff_eq.mp hm
      simpa [Filter.selects, Filter.admits] using hadmits
    · apply Or.inr
      intro m hm
      obtain rfl := beq_iff_eq.mp hm
      simpa [Filter.selects, Filter.admits] using hadmits

/-- What comes out of the queue of a server. Assumes: `begin()` set the segment up, and every caller
waits with a filter of the servers. In every run, whatever the senders do, the records that callers
got and those in the segment are the messages that were appended, each of them once; and those of
one type, unless it is that of the replies, are in the order in which they were appended. -/
theorem messages_in_order {size : ℕ} {contents : ℕ → UInt8} {counter : UInt64}
    {shm : SharedMemory} (hbegin : beginQueue size contents counter = some shm)
    {operations : List Operation}
    (hwaits : ∀ address filter, .wait address filter ∈ operations → filter.isServers = true) :
    let final := run step ⟨shm, []⟩ operations
    ∃ taken left : List Record, receivedIn final.2 = taken.map Record.bytes ∧
      final.1.shm.data.take final.1.shm.filled = left.flatMap Record.bytes ∧
      (appendedIn final.2).Perm ((taken ++ left).map Record.message) ∧
      ∀ type, type ≠ MsgType.msgReply.code →
        (appendedIn final.2).filter (fun m ↦ m.type == type) =
          ((taken ++ left).map Record.message).filter fun m ↦ m.type == type := by
  intro final
  obtain ⟨hrefines, hagrees⟩ := refines_run (refines_beginQueue hbegin) operations
  obtain ⟨left, hleft, hmessages⟩ := hrefines.records
  obtain ⟨happended, taken, hbytes, htaken⟩ := appendedIn_eq_putIn hagrees
  have hconserved : ∀ type, type ≠ MsgType.msgReply.code →
      Conserved (fun m ↦ m.type == type)
        (run MessageList.step (.empty size counter) operations).1
        (run MessageList.step (.empty size counter) operations).2 := by
    intro type htype
    apply conserved_run
    intro operation hoperation
    cases operation with
    | wait address filter => exact allOrNone_type (hwaits address filter hoperation) htype
    | _ => trivial
  refine ⟨taken, left, hbytes, hleft.contents, ?_, ?_⟩
  · rw [happended, List.map_append, htaken, hmessages]
    exact (hconserved MsgType.msgNew.code (by decide)).perm
  · intro type htype
    rw [happended, List.map_append, htaken, hmessages]
    exact (hconserved type htype).inOrder

/-- A reply with a number. -/
def sampleReply (msgNr : UInt64) (data : List UInt8) (hsize : data.length < 2 ^ 32) : Message :=
  { sampleMessage data hsize with
    type := MsgType.msgReply.code
    msgNr := msgNr }

/-- A reply between two new messages: a caller waits for the reply, and another one for what is
new. -/
theorem messages_in_order_reply :
    let sender : Identifier := ⟨[97], by decide⟩
    let operations : List Operation :=
      [.send sender (sampleMessage [1] (by decide)) (by decide) false 5,
        .send sender (sampleReply 5 [2] (by decide)) (by decide) false 6,
        .send sender (sampleMessage [3] (by decide)) (by decide) false 7,
        .wait ⟨0, rfl⟩ ⟨.msgReply, some 5⟩, .wait ⟨0, rfl⟩ ⟨.msgNew, none⟩]
    let final := run step ⟨⟨300, 0, 0, (List.range 300).map fun _ ↦ 0⟩, []⟩ operations
    (appendedIn final.2).map Message.data = [[1], [2], [3]] ∧
      ∃ taken left : List Record, receivedIn final.2 = taken.map Record.bytes ∧
        final.1.shm.data.take final.1.shm.filled = left.flatMap Record.bytes ∧
        (appendedIn final.2).Perm ((taken ++ left).map Record.message) ∧
        ∀ type, type ≠ MsgType.msgReply.code →
          (appendedIn final.2).filter (fun m ↦ m.type == type) =
            ((taken ++ left).map Record.message).filter fun m ↦ m.type == type := by
  intro sender operations final
  have hbegin : beginQueue 300 (fun _ ↦ 0) 0 =
      some ⟨300, 0, 0, (List.range 300).map fun _ ↦ 0⟩ := rfl
  have hagrees := (refines_run (refines_beginQueue hbegin) operations).2
  have habstract : (putIn (run MessageList.step (.empty 300 0) operations).2).map Message.data =
      [[1], [2], [3]] := by
    decide
  have hwaits : ∀ address filter, .wait address filter ∈ operations →
      filter.isServers = true := by
    intro address filter hmem
    rcases (by simpa [operations] using hmem : _ ∨ _) with ⟨-, rfl⟩ | ⟨-, rfl⟩ <;> decide
  refine ⟨?_, messages_in_order hbegin hwaits⟩
  rw [(appendedIn_eq_putIn hagrees).1]
  exact habstract

end MyIPNG.Shm
