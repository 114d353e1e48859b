import MyIPNG.Base.Table
import MyIPNG.Ip4.RunOut
import Mathlib.Data.List.Nodup

/-!
# The packets that wait for addresses

The table of `run_out` under any interleaving of its three threads. `PendingInvariant` says how the
table, the records and the queued messages belong together, and what they have to do with the
history: a record holds, for each of its requests, the first answer since it was queued, and the
table lists it under the numbers of those that have none. Three kinds of steps change this: a packet
is queued (`PendingInvariant.enqueue`), an answer is filled in (`PendingInvariant.fill`), and
records are dropped, one after its packet was sent or many when they have waited for too long
(`PendingInvariant.drop`).
-/

set_option autoImplicit false
set_option relaxedAutoImplicit false

namespace MyIPNG.Ip4

open Base Utils

/-! ### Histories -/

/-- A history: the events, each with its effects. -/
abbrev OutTrace := List (OutEvent × List OutEffect)

/-- The effects of a history. -/
def effectsIn (trace : OutTrace) : List OutEffect := trace.flatMap Prod.snd

/-- The effect queues the record. -/
def queues (pm : ℕ) : OutEffect → Bool
  | .queued record _ _ _ => record == pm
  | _ => false

/-- The effect sends the packets of a message. -/
def transmits (message : ℕ) : OutEffect → Bool
  | .transmit sent _ _ _ => sent == message
  | _ => false

/-- The part of a history after a record was queued. -/
def sinceQueued (pm : ℕ) : OutTrace → OutTrace
  | [] => []
  | entry :: rest => if entry.2.any (queues pm) then rest else sinceQueued pm rest

/-- The MAC address that an event answers to a request. -/
def answerTo (msgNr : UInt64) : OutEvent → Option (List UInt8)
  | .reply reply =>
    if reply.msgNr = msgNr then
      match macAnswer reply with
      | .mac bytes => some bytes
      | _ => none
    else none
  | _ => none

/-- The answers to a request of a record since the record was queued. -/
def answers (pm : ℕ) (msgNr : UInt64) (trace : OutTrace) : List (List UInt8) :=
  (sinceQueued pm trace).filterMap fun entry ↦ answerTo msgNr entry.1

section Trace

variable {trace : OutTrace} {event : OutEvent} {effects : List OutEffect} {pm : ℕ}
  {msgNr : UInt64}

theorem effectsIn_snoc (trace : OutTrace) (event : OutEvent) (effects : List OutEffect) :
    effectsIn (trace ++ [(event, effects)]) = effectsIn trace ++ effects := by
  simp [effectsIn]

theorem sinceQueued_snoc (pm : ℕ) (trace : OutTrace) (entry : OutEvent × List OutEffect) :
    sinceQueued pm (trace ++ [entry]) =
      if (effectsIn trace).any (queues pm) then sinceQueued pm trace ++ [entry] else [] := by
  induction trace with
  | nil => simp [sinceQueued, effectsIn]
  | cons first rest ih =>
    by_cases hhere : first.2.any (queues pm) = true
    · simp [sinceQueued, effectsIn, hhere]
    · rw [effectsIn] at ih
      simp only [List.cons_append, sinceQueued, hhere, ih, effectsIn, List.flatMap_cons,
        List.any_append, Bool.false_or, Bool.false_eq_true, if_false]

theorem any_queues_iff :
    (effectsIn trace).any (queues pm) = true ↔
      ∃ message fromNr toNr, .queued pm message fromNr toNr ∈ effectsIn trace := by
  rw [List.any_eq_true]
  constructor
  · rintro ⟨effect, heffect, hqueues⟩
    cases effect with
    | queued record message fromNr toNr =>
      obtain rfl := beq_iff_eq.mp hqueues
      exact ⟨message, fromNr, toNr, heffect⟩
    | _ => exact absurd hqueues (by simp [queues])
  · rintro ⟨message, fromNr, toNr, heffect⟩
    exact ⟨_, heffect, beq_self_eq_true pm⟩

/-- The answers after one more event, for a record that was queued. -/
theorem answers_snoc {message : ℕ} {fromNr toNr : UInt64}
    (h : .queued pm message fromNr toNr ∈ effectsIn trace) :
    answers pm msgNr (trace ++ [(event, effects)]) =
      answers pm msgNr trace ++ (answerTo msgNr event).toList := by
  rw [answers, sinceQueued_snoc, if_pos (any_queues_iff.mpr ⟨message, fromNr, toNr, h⟩),
    List.filterMap_append, answers]
  cases hanswer : answerTo msgNr event with
  | none => simp [hanswer]
  | some bytes => simp [hanswer]

/-- A record that is being queued has no answers. -/
theorem answers_new (h : ∀ message fromNr toNr, .queued pm message fromNr toNr ∉ effectsIn trace) :
    answers pm msgNr (trace ++ [(event, effects)]) = [] := by
  have hnone : ¬ (effectsIn trace).any (queues pm) = true := fun hany ↦ by
    obtain ⟨message, fromNr, toNr, hmem⟩ := any_queues_iff.mp hany
    exact h message fromNr toNr hmem
  rw [answers, sinceQueued_snoc, if_neg hnone]
  rfl

/-- The first answer stays the first one. -/
theorem head?_answers_snoc {message : ℕ} {fromNr toNr : UInt64}
    (h : .queued pm message fromNr toNr ∈ effectsIn trace) {bytes : List UInt8}
    (hanswer : (answers pm msgNr trace).head? = some bytes) :
    (answers pm msgNr (trace ++ [(event, effects)])).head? = some bytes := by
  rw [answers_snoc h, List.head?_append, hanswer]
  rfl

end Trace

/-! ### The invariant -/

/-- The number is of one of the requests of the record. -/
def HasNumber (record : PendingMsg) (key : UInt64) : Prop :=
  key = record.fromNr ∨ key = record.toNr

/-- The record has no answer to the request with the number. -/
def Waits (record : PendingMsg) (key : UInt64) : Prop :=
  (key = record.fromNr ∧ record.fromMac = none) ∨ (key = record.toNr ∧ record.toMac = none)

theorem Waits.hasNumber {record : PendingMsg} {key : UInt64} (h : Waits record key) :
    HasNumber record key :=
  h.imp And.left And.left

/-- A record whose message is not released. -/
def Pending.Live (pending : Pending) (pm : ℕ) (record : PendingMsg) : Prop :=
  pending.records.read pm = some record ∧ pending.messages.read record.queuedMsg ≠ none

/-- What a record has to do with the history. -/
structure RecordInvariant (trace : OutTrace) (pm : ℕ) (record : PendingMsg) : Prop where
  queued : .queued pm record.queuedMsg record.fromNr record.toNr ∈ effectsIn trace
  numbers_ne : record.fromNr ≠ record.toNr
  fromMac_eq : record.fromMac = (answers pm record.fromNr trace).head?
  toMac_eq : record.toMac = (answers pm record.toNr trace).head?
  waiting : ∃ key, Waits record key

/-- How the table, the records, the messages and the history belong together. -/
structure PendingInvariant (trace : OutTrace) (pending : Pending) : Prop where
  paired : pending.records.next = pending.messages.next
  own : ∀ pm record, pending.records.read pm = some record → record.queuedMsg = pm
  kept : ∀ pm, pending.messages.read pm ≠ none → ∃ record, pending.records.read pm = some record
  record : ∀ pm record, pending.Live pm record → RecordInvariant trace pm record
  keys : ∀ key pm, pending.pendingMessages[key]? = some pm ↔
    ∃ record, pending.Live pm record ∧ Waits record key
  distinct : ∀ pm record pm' record' key, pending.Live pm record → pending.Live pm' record' →
    HasNumber record key → HasNumber record' key → pm = pm'
  queued : ∀ pm message fromNr toNr, .queued pm message fromNr toNr ∈ effectsIn trace →
    pm = message ∧ pm < pending.records.next
  queued_unique : ∀ pm message fromNr toNr message' fromNr' toNr',
    .queued pm message fromNr toNr ∈ effectsIn trace →
    .queued pm message' fromNr' toNr' ∈ effectsIn trace → fromNr = fromNr' ∧ toNr = toNr'
  released : ∀ message, (effectsIn trace).count (.release message) =
    if message < pending.messages.next ∧ pending.messages.read message = none then 1 else 0
  transmitted_le : ∀ message, (effectsIn trace).countP (transmits message) ≤
    (effectsIn trace).count (.release message)

theorem pendingInvariant_start : PendingInvariant [] Pending.start := by
  refine ⟨rfl, ?_, ?_, ?_, ?_, ?_, ?_, ?_, ?_, ?_⟩
  · intro pm record hread
    simp [Pending.start] at hread
  · intro pm hread
    simp [Pending.start] at hread
  · intro pm record hlive
    simp [Pending.Live, Pending.start] at hlive
  · intro key pm
    simp [Pending.Live, Pending.start]
  · intro pm record pm' record' key hlive
    simp [Pending.Live, Pending.start] at hlive
  · intro pm message fromNr toNr hmem
    simp [effectsIn] at hmem
  · intro pm message fromNr toNr message' fromNr' toNr' hmem
    simp [effectsIn] at hmem
  · intro message
    simp [effectsIn, Pending.start]
  · intro message
    simp [effectsIn]

/-! ### Steps -/

/-- The effects only make requests. -/
def OnlyRequests (effects : List OutEffect) : Prop :=
  ∀ effect ∈ effects, ∃ text, effect = .startResolve text

theorem onlyRequests_nil : OnlyRequests [] := List.forall_mem_nil _

theorem onlyRequests_startResolve (a : Address) (msgNr : Option UInt64) :
    OnlyRequests (startResolve a msgNr) := by
  intro effect heffect
  unfold startResolve at heffect
  split_ifs at heffect
  · exact ⟨_, List.mem_singleton.mp heffect⟩
  · exact absurd heffect List.not_mem_nil

/-- An effect that is no request is not among them. -/
theorem OnlyRequests.not_mem {effects : List OutEffect} (h : OnlyRequests effects)
    {effect : OutEffect} (hother : ∀ text, effect ≠ .startResolve text) : effect ∉ effects := by
  intro hmem
  obtain ⟨text, htext⟩ := h effect hmem
  exact hother text htext

theorem OnlyRequests.countP_eq_zero {effects : List OutEffect} (h : OnlyRequests effects)
    {P : OutEffect → Bool} (hP : ∀ text, P (.startResolve text) = false) :
    effects.countP P = 0 := by
  refine List.countP_eq_zero.mpr fun effect heffect ↦ ?_
  obtain ⟨text, rfl⟩ := h effect heffect
  simp [hP]

section Steps

variable {trace : OutTrace} {pending next : Pending} {event : OutEvent}
  {effects : List OutEffect}

/-- A record that an event answers no open request of. -/
theorem RecordInvariant.extend {pm : ℕ} {record : PendingMsg} (h : RecordInvariant trace pm record)
    (hquiet : ∀ key, Waits record key → answerTo key event = none) (effects : List OutEffect) :
    RecordInvariant (trace ++ [(event, effects)]) pm record := by
  refine ⟨?_, h.numbers_ne, ?_, ?_, h.waiting⟩
  · rw [effectsIn_snoc]
    exact List.mem_append_left _ h.queued
  · cases hmac : record.fromMac with
    | some bytes => exact (head?_answers_snoc h.queued (h.fromMac_eq ▸ hmac)).symm
    | none =>
      have hnothing : answerTo record.fromNr event = none := hquiet _ (Or.inl ⟨rfl, hmac⟩)
      rw [answers_snoc h.queued, hnothing, Option.toList_none, List.append_nil, ← h.fromMac_eq,
        hmac]
  · cases hmac : record.toMac with
    | some bytes => exact (head?_answers_snoc h.queued (h.toMac_eq ▸ hmac)).symm
    | none =>
      have hnothing : answerTo record.toNr event = none := hquiet _ (Or.inr ⟨rfl, hmac⟩)
      rw [answers_snoc h.queued, hnothing, Option.toList_none, List.append_nil, ← h.toMac_eq,
        hmac]

/-- The live records behind a step that drops some are the others. -/
theorem PendingInvariant.live_drop (h : PendingInvariant trace pending) {dropped : List ℕ}
    (hrecords : ∀ pm record, next.records.read pm = some record →
      pending.records.read pm = some record)
    (hothers : ∀ pm, pm ∉ dropped → next.records.read pm = pending.records.read pm)
    (hmessages : ∀ message, next.messages.read message =
      if message ∈ dropped then none else pending.messages.read message)
    (pm : ℕ) (record : PendingMsg) :
    next.Live pm record ↔ pending.Live pm record ∧ pm ∉ dropped := by
  constructor
  · rintro ⟨hread, hmessage⟩
    have hbefore := hrecords pm record hread
    rw [h.own pm record hbefore, hmessages] at hmessage
    split_ifs at hmessage with hmem
    · exact absurd rfl hmessage
    · refine ⟨⟨hbefore, ?_⟩, hmem⟩
      rwa [h.own pm record hbefore]
  · rintro ⟨⟨hread, hmessage⟩, hmem⟩
    refine ⟨(hothers pm hmem).trans hread, ?_⟩
    rw [h.own pm record hread] at hmessage ⊢
    rwa [hmessages, if_neg hmem]

/-- A step that drops records: their keys leave the table and their messages are released. Assumes:
the event answers no open request of the others. -/
theorem PendingInvariant.drop (h : PendingInvariant trace pending) (dropped : List ℕ)
    (hdropped : ∀ pm ∈ dropped, pending.messages.read pm ≠ none)
    (hnext : next.records.next = pending.records.next ∧ next.messages.next = pending.messages.next)
    (hrecords : ∀ pm record, next.records.read pm = some record →
      pending.records.read pm = some record)
    (hothers : ∀ pm, pm ∉ dropped → next.records.read pm = pending.records.read pm)
    (hmessages : ∀ message, next.messages.read message =
      if message ∈ dropped then none else pending.messages.read message)
    (hkeys : ∀ (key : UInt64) (pm : ℕ), next.pendingMessages[key]? = some pm ↔
      pending.pendingMessages[key]? = some pm ∧ pm ∉ dropped)
    (hquiet : ∀ pm record, pending.Live pm record → pm ∉ dropped →
      ∀ key, Waits record key → answerTo key event = none)
    (hqueued : ∀ pm message fromNr toNr, .queued pm message fromNr toNr ∉ effects)
    (hreleased : ∀ message, effects.count (.release message) = if message ∈ dropped then 1 else 0)
    (htransmitted : ∀ message, effects.countP (transmits message) ≤
      effects.count (.release message)) :
    PendingInvariant (trace ++ [(event, effects)]) next := by
  have hlive := h.live_drop hrecords hothers hmessages
  have hsame : ∀ pm message fromNr toNr,
      OutEffect.queued pm message fromNr toNr ∈ effectsIn (trace ++ [(event, effects)]) →
        OutEffect.queued pm message fromNr toNr ∈ effectsIn trace := by
    intro pm message fromNr toNr hmem
    rw [effectsIn_snoc] at hmem
    exact (List.mem_append.mp hmem).resolve_right (hqueued pm message fromNr toNr)
  refine ⟨?_, ?_, ?_, ?_, ?_, ?_, ?_, ?_, ?_, ?_⟩
  · rw [hnext.1, hnext.2, h.paired]
  · exact fun pm record hread ↦ h.own pm record (hrecords pm record hread)
  · intro pm hread
    rw [hmessages] at hread
    split_ifs at hread with hmem
    · exact absurd rfl hread
    · rw [hothers pm hmem]
      exact h.kept pm hread
  · intro pm record hafter
    obtain ⟨hbefore, hmem⟩ := (hlive pm record).mp hafter
    exact (h.record pm record hbefore).extend (hquiet pm record hbefore hmem) effects
  · intro key pm
    rw [hkeys, h.keys]
    constructor
    · rintro ⟨⟨record, hbefore, hwaits⟩, hmem⟩
      exact ⟨record, (hlive pm record).mpr ⟨hbefore, hmem⟩, hwaits⟩
    · rintro ⟨record, hafter, hwaits⟩
      obtain ⟨hbefore, hmem⟩ := (hlive pm record).mp hafter
      exact ⟨⟨record, hbefore, hwaits⟩, hmem⟩
  · intro pm record pm' record' key hafter hafter'
    exact h.distinct pm record pm' record' key ((hlive pm record).mp hafter).1
      ((hlive pm' record').mp hafter').1
  · intro pm message fromNr toNr hmem
    rw [hnext.1]
    exact h.queued pm message fromNr toNr (hsame pm message fromNr toNr hmem)
  · intro pm message fromNr toNr message' fromNr' toNr' hmem hmem'
    exact h.queued_unique pm message fromNr toNr message' fromNr' toNr'
      (hsame pm message fromNr toNr hmem) (hsame pm message' fromNr' toNr' hmem')
  · intro message
    rw [effectsIn_snoc, List.count_append, h.released, hreleased, hmessages, hnext.2]
    by_cases hmem : message ∈ dropped
    · obtain ⟨m, hread⟩ := Option.ne_none_iff_exists'.mp (hdropped message hmem)
      simp [hmem, hread, Heap.lt_next hread]
    · simp [hmem]
  · intro message
    rw [effectsIn_snoc, List.countP_append, List.count_append]
    exact Nat.add_le_add (h.transmitted_le message) (htransmitted message)

/-- A step that changes nothing. -/
theorem PendingInvariant.idle (h : PendingInvariant trace pending)
    (hquiet : ∀ pm record, pending.Live pm record → ∀ key, Waits record key →
      answerTo key event = none)
    (heffects : OnlyRequests effects) :
    PendingInvariant (trace ++ [(event, effects)]) pending := by
  refine h.drop [] (by simp) ⟨rfl, rfl⟩ (fun _ _ hread ↦ hread) (fun _ _ ↦ rfl) (by simp) (by simp)
    (fun pm record hlive _ ↦ hquiet pm record hlive) ?_ ?_ ?_
  · intro pm message fromNr toNr
    exact heffects.not_mem (by simp)
  · intro message
    rw [List.count, heffects.countP_eq_zero (by simp)]
    simp
  · intro message
    rw [heffects.countP_eq_zero (by simp [transmits])]
    exact Nat.zero_le _

end Steps

/-! ### An answer -/

/-- What `fillIn` leaves of a record: the answer stands in the place of the request, and the record
no longer waits for it. -/
structure FilledIn (record : PendingMsg) (msgNr : UInt64) (bytes : List UInt8)
    (filled : PendingMsg) : Prop where
  queuedMsg_eq : filled.queuedMsg = record.queuedMsg
  fromNr_eq : filled.fromNr = record.fromNr
  toNr_eq : filled.toNr = record.toNr
  fromMac_eq : filled.fromMac = if msgNr = record.fromNr then some bytes else record.fromMac
  toMac_eq : filled.toMac = if msgNr = record.toNr then some bytes else record.toMac

/-- A record that waits for an answer has a place for it. -/
theorem fillIn_spec {record : PendingMsg} {msgNr : UInt64} (hne : record.fromNr ≠ record.toNr)
    (hwaits : Waits record msgNr) (bytes : List UInt8) :
    ∃ filled, fillIn record msgNr bytes = some filled ∧ FilledIn record msgNr bytes filled := by
  rcases hwaits with ⟨rfl, -⟩ | ⟨rfl, -⟩
  · refine ⟨{ record with fromMac := some bytes }, by simp [fillIn], ?_⟩
    exact ⟨rfl, rfl, rfl, by simp, by simp [hne]⟩
  · refine ⟨{ record with toMac := some bytes }, by simp [fillIn, hne], ?_⟩
    exact ⟨rfl, rfl, rfl, by simp [hne.symm], by simp⟩

theorem FilledIn.waits_iff {record filled : PendingMsg} {msgNr : UInt64} {bytes : List UInt8}
    (h : FilledIn record msgNr bytes filled) (key : UInt64) :
    Waits filled key ↔ Waits record key ∧ key ≠ msgNr := by
  unfold Waits
  rw [h.fromNr_eq, h.toNr_eq, h.fromMac_eq, h.toMac_eq]
  grind

/-- The answers that a record holds after a reply was filled in are the first ones. -/
theorem RecordInvariant.fill {trace : OutTrace} {pm : ℕ} {record filled : PendingMsg}
    (h : RecordInvariant trace pm record) {reply : ResolverReply} {bytes : List UInt8}
    (hanswer : macAnswer reply = .mac bytes) (hwaits : Waits record reply.msgNr)
    (hfilled : FilledIn record reply.msgNr bytes filled) (effects : List OutEffect) :
    filled.fromMac = (answers pm record.fromNr (trace ++ [(.reply reply, effects)])).head? ∧
      filled.toMac = (answers pm record.toNr (trace ++ [(.reply reply, effects)])).head? := by
  have hother : ∀ key, reply.msgNr ≠ key → answerTo key (.reply reply) = none := by
    intro key hne
    simp [answerTo, hne]
  have hthis : answerTo reply.msgNr (.reply reply) = some bytes := by simp [answerTo, hanswer]
  rw [answers_snoc h.queued, answers_snoc h.queued, List.head?_append, List.head?_append,
    ← h.fromMac_eq, ← h.toMac_eq, hfilled.fromMac_eq, hfilled.toMac_eq]
  rcases hwaits with ⟨hfrom, hmac⟩ | ⟨hto, hmac⟩
  · have hne : reply.msgNr ≠ record.toNr := fun hto ↦ h.numbers_ne (hfrom.symm.trans hto)
    rw [hother _ hne, ← hfrom, hthis, if_pos rfl, if_neg hne, hmac]
    simp
  · have hne : reply.msgNr ≠ record.fromNr := fun hfrom ↦ h.numbers_ne (hfrom.symm.trans hto)
    rw [hother _ hne, ← hto, hthis, if_pos rfl, if_neg hne, hmac]
    simp

section Answer

variable {trace : OutTrace} {pending : Pending}

/-- The record that a key of the table leads to. -/
theorem PendingInvariant.lookup (h : PendingInvariant trace pending) {key : UInt64} {pm : ℕ}
    (hkey : pending.pendingMessages[key]? = some pm) {record : PendingMsg}
    (hread : pending.records.read pm = some record) :
    pending.Live pm record ∧ Waits record key := by
  obtain ⟨found, hlive, hwaits⟩ := (h.keys key pm).mp hkey
  obtain rfl := Option.some.inj (hlive.1.symm.trans hread)
  exact ⟨hlive, hwaits⟩

/-- No record but the one that is listed under a number waits for it. -/
theorem PendingInvariant.waits_unique (h : PendingInvariant trace pending) {key : UInt64} {pm : ℕ}
    (hkey : pending.pendingMessages[key]? = some pm) {pm' : ℕ} {record' : PendingMsg}
    (hlive : pending.Live pm' record') (hwaits : Waits record' key) : pm' = pm := by
  have hkey' := (h.keys key pm').mpr ⟨record', hlive, hwaits⟩
  exact Option.some.inj (hkey'.symm.trans hkey)

/-- A reply for one record answers no open request of another one. -/
theorem PendingInvariant.answerTo_other (h : PendingInvariant trace pending)
    {reply : ResolverReply} {pm pm' : ℕ}
    (hkey : pending.pendingMessages[reply.msgNr]? = some pm) {record' : PendingMsg}
    (hlive : pending.Live pm' record') (hne : pm' ≠ pm) {key : UInt64}
    (hwaits : Waits record' key) : answerTo key (.reply reply) = none := by
  have hdiffers : reply.msgNr ≠ key := by
    rintro rfl
    exact hne (h.waits_unique hkey hlive hwaits)
  simp [answerTo, hdiffers]

/-- The table after an answer was filled in: its number is gone, and the record holds it. -/
def Pending.answered (pending : Pending) (msgNr : UInt64) (pm : ℕ) (filled : PendingMsg) :
    Pending :=
  ⟨pending.pendingMessages.erase msgNr, pending.records.write pm filled, pending.messages⟩

section Filled

variable {reply : ResolverReply} {bytes : List UInt8} {pm : ℕ} {record filled : PendingMsg}

theorem FilledIn.hasNumber_iff {msgNr : UInt64} (h : FilledIn record msgNr bytes filled)
    (key : UInt64) : HasNumber filled key ↔ HasNumber record key := by
  rw [HasNumber, HasNumber, h.fromNr_eq, h.toNr_eq]

theorem read_answered {msgNr : UInt64} (hread : pending.records.read pm = some record) (other : ℕ) :
    (pending.answered msgNr pm filled).records.read other =
      if other = pm then some filled else pending.records.read other :=
  Heap.read_write hread filled other

/-- A live record is the one that was filled in, or it is another one and was there before. -/
theorem live_answered {msgNr : UInt64} (hlive : pending.Live pm record)
    (hfilled : FilledIn record msgNr bytes filled) (other : ℕ) (found : PendingMsg) :
    (pending.answered msgNr pm filled).Live other found ↔
      (other = pm ∧ found = filled) ∨ (other ≠ pm ∧ pending.Live other found) := by
  rw [Pending.Live, read_answered hlive.1]
  constructor
  · rintro ⟨hafter, hmessage⟩
    split_ifs at hafter with hequal
    · exact Or.inl ⟨hequal, (Option.some.inj hafter).symm⟩
    · exact Or.inr ⟨hequal, hafter, hmessage⟩
  · rintro (⟨rfl, rfl⟩ | ⟨hne, hold⟩)
    · refine ⟨if_pos rfl, ?_⟩
      rw [hfilled.queuedMsg_eq]
      exact hlive.2
    · refine ⟨?_, hold.2⟩
      rw [if_neg hne]
      exact hold.1

/-- The record that was filled in and still waits for another answer. -/
theorem RecordInvariant.answered (h : RecordInvariant trace pm record)
    (hanswer : macAnswer reply = .mac bytes) (hwaits : Waits record reply.msgNr)
    (hfilled : FilledIn record reply.msgNr bytes filled) (hmissing : ∃ key, Waits filled key) :
    RecordInvariant (trace ++ [(.reply reply, [])]) pm filled := by
  obtain ⟨hfrom, hto⟩ := h.fill hanswer hwaits hfilled []
  refine ⟨?_, ?_, ?_, ?_, hmissing⟩
  · rw [effectsIn_snoc, List.append_nil, hfilled.queuedMsg_eq, hfilled.fromNr_eq, hfilled.toNr_eq]
    exact h.queued
  · rw [hfilled.fromNr_eq, hfilled.toNr_eq]
    exact h.numbers_ne
  · rw [hfilled.fromNr_eq, hfrom]
  · rw [hfilled.toNr_eq, hto]

/-- The table lists the record that was filled in under the number that it still waits for. -/
theorem PendingInvariant.keys_answered (h : PendingInvariant trace pending) {msgNr : UInt64}
    (hkey : pending.pendingMessages[msgNr]? = some pm) (hlive : pending.Live pm record)
    (hfilled : FilledIn record msgNr bytes filled) (key : UInt64) (other : ℕ) :
    (pending.answered msgNr pm filled).pendingMessages[key]? = some other ↔
      ∃ found, (pending.answered msgNr pm filled).Live other found ∧ Waits found key := by
  rw [Pending.answered, Std.ExtTreeMap.getElem?_erase]
  by_cases hequal : msgNr = key
  · rw [if_pos (by simpa using hequal)]
    refine ⟨fun hnone ↦ absurd hnone (by simp), ?_⟩
    rintro ⟨found, hafter, hother⟩
    rcases (live_answered hlive hfilled other found).mp hafter with ⟨rfl, rfl⟩ | ⟨hne, hold⟩
    · exact absurd hequal.symm ((hfilled.waits_iff key).mp hother).2
    · exact absurd (h.waits_unique (hequal ▸ hkey) hold hother) hne
  · rw [if_neg (by simpa using hequal), h.keys]
    constructor
    · rintro ⟨found, hold, hother⟩
      by_cases hsame : other = pm
      · subst hsame
        obtain rfl := Option.some.inj (hold.1.symm.trans hlive.1)
        exact ⟨filled, (live_answered hlive hfilled _ _).mpr (Or.inl ⟨rfl, rfl⟩),
          (hfilled.waits_iff key).mpr ⟨hother, Ne.symm hequal⟩⟩
      · exact ⟨found, (live_answered hlive hfilled _ _).mpr (Or.inr ⟨hsame, hold⟩), hother⟩
    · rintro ⟨found, hafter, hother⟩
      rcases (live_answered hlive hfilled other found).mp hafter with ⟨rfl, rfl⟩ | ⟨-, hold⟩
      · exact ⟨record, hlive, ((hfilled.waits_iff key).mp hother).1⟩
      · exact ⟨found, hold, hother⟩

/-- A reply that is filled in while another one is missing. -/
theorem PendingInvariant.fill (h : PendingInvariant trace pending)
    (hanswer : macAnswer reply = .mac bytes)
    (hkey : pending.pendingMessages[reply.msgNr]? = some pm)
    (hread : pending.records.read pm = some record)
    (hfilled : FilledIn record reply.msgNr bytes filled) (hmissing : ∃ key, Waits filled key) :
    PendingInvariant (trace ++ [(.reply reply, [])]) (pending.answered reply.msgNr pm filled) := by
  obtain ⟨hliveRecord, hwaits⟩ := h.lookup hkey hread
  have hlive := live_answered hliveRecord hfilled
  have heffects : effectsIn (trace ++ [(OutEvent.reply reply, [])]) = effectsIn trace := by
    rw [effectsIn_snoc, List.append_nil]
  -- the record that a live record was before
  have hbefore : ∀ other found, (pending.answered reply.msgNr pm filled).Live other found →
      ∃ old, pending.Live other old ∧ ∀ key, HasNumber found key → HasNumber old key := by
    intro other found hafter
    rcases (hlive other found).mp hafter with ⟨rfl, rfl⟩ | ⟨-, hold⟩
    · exact ⟨record, hliveRecord, fun key ↦ (hfilled.hasNumber_iff key).mp⟩
    · exact ⟨found, hold, fun _ hhas ↦ hhas⟩
  refine ⟨?_, ?_, ?_, ?_, h.keys_answered hkey hliveRecord hfilled, ?_, ?_, ?_, ?_, ?_⟩
  · exact (Heap.next_write _ _ _).trans h.paired
  · intro other found hafter
    rw [read_answered hread] at hafter
    split_ifs at hafter with hequal
    · rw [← Option.some.inj hafter, hfilled.queuedMsg_eq, hequal]
      exact h.own pm record hread
    · exact h.own other found hafter
  · intro other hmessage
    rw [read_answered hread]
    split_ifs with hequal
    · exact ⟨filled, rfl⟩
    · exact h.kept other hmessage
  · intro other found hafter
    rcases (hlive other found).mp hafter with ⟨rfl, rfl⟩ | ⟨hne, hold⟩
    · exact (h.record _ record hliveRecord).answered hanswer hwaits hfilled hmissing
    · exact (h.record other found hold).extend
        (fun key hother ↦ h.answerTo_other hkey hold hne hother) []
  · intro pm' record' pm'' record'' key hafter hafter' hhas hhas'
    obtain ⟨old, hold, hkeep⟩ := hbefore pm' record' hafter
    obtain ⟨old', hold', hkeep'⟩ := hbefore pm'' record'' hafter'
    exact h.distinct pm' old pm'' old' key hold hold' (hkeep key hhas) (hkeep' key hhas')
  · intro other message fromNr toNr hmem
    rw [heffects] at hmem
    have hnext : (pending.answered reply.msgNr pm filled).records.next = pending.records.next :=
      Heap.next_write _ _ _
    rw [hnext]
    exact h.queued other message fromNr toNr hmem
  · rw [heffects]
    exact h.queued_unique
  · rw [heffects]
    exact h.released
  · rw [heffects]
    exact h.transmitted_le

end Filled

end Answer

/-! ### A new packet -/

/-- The numbers of the requests for a packet that is queued: they differ, and they are not the
numbers of a packet that still waits. -/
def FreshNumbers : Option Pending → OutEvent → Prop
  | some pending, .packet _ (some fromNr) (some toNr) _ =>
    fromNr ≠ toNr ∧ ∀ pm record, pending.Live pm record →
      ¬ HasNumber record fromNr ∧ ¬ HasNumber record toNr
  | _, _ => True

/-- The record of a packet that is being queued. -/
def newRecord (now : UInt64) (fromNr toNr : UInt64) (pending : Pending) : PendingMsg :=
  ⟨now, pending.messages.next, fromNr, none, toNr, none⟩

section Enqueue

variable {trace : OutTrace} {pending : Pending} {now : UInt64} {m : QueuedMsg}
  {fromNr toNr : UInt64}

/-- A live record is the new one, or it was there before. -/
theorem PendingInvariant.live_enqueue (h : PendingInvariant trace pending) (pm : ℕ)
    (record : PendingMsg) :
    (enqueue now m fromNr toNr pending).1.Live pm record ↔
      pending.Live pm record ∨
        (pm = pending.records.next ∧ record = newRecord now fromNr toNr pending) := by
  simp only [Pending.Live, Ip4.enqueue, Heap.read_alloc]
  constructor
  · rintro ⟨hread, hmessage⟩
    split_ifs at hread with hequal
    · exact Or.inr ⟨hequal, (Option.some.inj hread).symm⟩
    · have hown := h.own pm record hread
      rw [hown, if_neg (h.paired ▸ hequal)] at hmessage
      exact Or.inl ⟨hread, by rwa [hown]⟩
  · rintro (⟨hread, hmessage⟩ | ⟨rfl, rfl⟩)
    · have hold := (Heap.lt_next hread).ne
      have hown := h.own pm record hread
      rw [hown] at hmessage ⊢
      rw [if_neg hold, if_neg (h.paired ▸ hold)]
      exact ⟨hread, hmessage⟩
    · simp [newRecord]

/-- The table does not list a number that no live record has. -/
theorem PendingInvariant.unlisted (h : PendingInvariant trace pending) {number : UInt64}
    (hnumber : ∀ pm record, pending.Live pm record → ¬ HasNumber record number) :
    pending.pendingMessages[number]? = none := by
  by_contra hsome
  obtain ⟨other, hother⟩ := Option.ne_none_iff_exists'.mp hsome
  obtain ⟨record, hold, hwaits⟩ := (h.keys number other).mp hother
  exact hnumber other record hold hwaits.hasNumber

section Fresh

variable (hfresh : ∀ pm record, pending.Live pm record →
  ¬ HasNumber record fromNr ∧ ¬ HasNumber record toNr)

include hfresh

/-- A live record has neither of the numbers of the new one. -/
theorem not_newNumber {pm : ℕ} {record : PendingMsg} {key : UInt64}
    (hlive : pending.Live pm record) (hhas : HasNumber record key) :
    ¬ (key = fromNr ∨ key = toNr) := by
  rintro (rfl | rfl)
  · exact (hfresh pm record hlive).1 hhas
  · exact (hfresh pm record hlive).2 hhas

/-- Both numbers lead to the new record. -/
theorem PendingInvariant.getElem?_enqueue (h : PendingInvariant trace pending) (key : UInt64) :
    (enqueue now m fromNr toNr pending).1.pendingMessages[key]? =
      if key = fromNr ∨ key = toNr then some pending.records.next
      else pending.pendingMessages[key]? := by
  have hfromNone := h.unlisted fun pm record hold ↦ (hfresh pm record hold).1
  have htoNone := h.unlisted fun pm record hold ↦ (hfresh pm record hold).2
  simp only [Ip4.enqueue, Std.ExtTreeMap.getElem?_insertIfNew]
  grind

theorem PendingInvariant.keys_enqueue (h : PendingInvariant trace pending) (key : UInt64) (pm : ℕ) :
    (enqueue now m fromNr toNr pending).1.pendingMessages[key]? = some pm ↔
      ∃ record, (enqueue now m fromNr toNr pending).1.Live pm record ∧ Waits record key := by
  rw [h.getElem?_enqueue hfresh]
  constructor
  · intro hentry
    split_ifs at hentry with hnumber
    · obtain rfl := Option.some.inj hentry
      exact ⟨_, (h.live_enqueue _ _).mpr (Or.inr ⟨rfl, rfl⟩),
        hnumber.imp (⟨·, rfl⟩) (⟨·, rfl⟩)⟩
    · obtain ⟨record, hold, hwaits⟩ := (h.keys key pm).mp hentry
      exact ⟨record, (h.live_enqueue pm record).mpr (Or.inl hold), hwaits⟩
  · rintro ⟨record, hafter, hwaits⟩
    rcases (h.live_enqueue pm record).mp hafter with hold | ⟨rfl, rfl⟩
    · rw [if_neg (not_newNumber hfresh hold hwaits.hasNumber)]
      exact (h.keys key pm).mpr ⟨record, hold, hwaits⟩
    · exact if_pos (hwaits.imp And.left And.left)

theorem PendingInvariant.distinct_enqueue (h : PendingInvariant trace pending) (pm : ℕ)
    (record : PendingMsg) (pm' : ℕ) (record' : PendingMsg) (key : UInt64)
    (hafter : (enqueue now m fromNr toNr pending).1.Live pm record)
    (hafter' : (enqueue now m fromNr toNr pending).1.Live pm' record')
    (hhas : HasNumber record key) (hhas' : HasNumber record' key) : pm = pm' := by
  rcases (h.live_enqueue pm record).mp hafter with hold | ⟨rfl, rfl⟩
  · rcases (h.live_enqueue pm' record').mp hafter' with hold' | ⟨rfl, rfl⟩
    · exact h.distinct pm record pm' record' key hold hold' hhas hhas'
    · exact absurd hhas' (not_newNumber hfresh hold hhas)
  · rcases (h.live_enqueue pm' record').mp hafter' with hold' | ⟨rfl, rfl⟩
    · exact absurd hhas (not_newNumber hfresh hold' hhas')
    · rfl

end Fresh

section Effects

variable {event : OutEvent} {requests : List OutEffect} (hrequests : OnlyRequests requests)

include hrequests

/-- The effects queue the new record and nothing else. -/
theorem queued_enqueue {pm message : ℕ} {a b : UInt64}
    (heffect : .queued pm message a b ∈ effectsIn
      (trace ++ [(event, requests ++ (enqueue now m fromNr toNr pending).2)])) :
    .queued pm message a b ∈ effectsIn trace ∨
      (pm = pending.records.next ∧ message = pending.messages.next ∧ a = fromNr ∧ b = toNr) := by
  rw [effectsIn_snoc, List.mem_append, List.mem_append] at heffect
  rcases heffect with hold | hrequest | hlast
  · exact Or.inl hold
  · exact absurd hrequest (hrequests.not_mem (by simp))
  · simpa [Ip4.enqueue] using Or.inr hlast

/-- The effects are requests and one record that is queued. -/
theorem countP_enqueue {P : OutEffect → Bool} (hresolve : ∀ text, P (.startResolve text) = false)
    (hqueued : ∀ pm message a b, P (.queued pm message a b) = false) :
    (requests ++ (enqueue now m fromNr toNr pending).2).countP P = 0 := by
  rw [List.countP_append, hrequests.countP_eq_zero hresolve, Nat.zero_add]
  simp [Ip4.enqueue, hqueued]

end Effects

/-- A packet is queued. Assumes: fresh numbers, and effects that queue it and otherwise only make
requests. -/
theorem PendingInvariant.enqueue (h : PendingInvariant trace pending) {event : OutEvent}
    (hevent : ∀ key, answerTo key event = none) (hne : fromNr ≠ toNr)
    (hfresh : ∀ pm record, pending.Live pm record →
      ¬ HasNumber record fromNr ∧ ¬ HasNumber record toNr)
    {requests : List OutEffect} (hrequests : OnlyRequests requests) :
    PendingInvariant (trace ++ [(event, requests ++ (enqueue now m fromNr toNr pending).2)])
      (enqueue now m fromNr toNr pending).1 := by
  have hnew : ∀ message fromNr toNr, .queued pending.records.next message fromNr toNr ∉
      effectsIn trace := fun message fromNr toNr hmem ↦
    (h.queued _ message fromNr toNr hmem).2.ne rfl
  refine ⟨?_, ?_, ?_, ?_, h.keys_enqueue hfresh, h.distinct_enqueue hfresh, ?_, ?_, ?_, ?_⟩
  · simp [Ip4.enqueue, h.paired]
  · intro pm record hread
    simp only [Ip4.enqueue, Heap.read_alloc] at hread
    split_ifs at hread with hequal
    · rw [← Option.some.inj hread, hequal, h.paired]
    · exact h.own pm record hread
  · intro pm hmessage
    simp only [Ip4.enqueue, Heap.read_alloc, ← h.paired] at hmessage ⊢
    split_ifs at hmessage ⊢ with hequal
    · exact ⟨_, rfl⟩
    · exact h.kept pm hmessage
  · intro pm record hafter
    rcases (h.live_enqueue pm record).mp hafter with hold | ⟨rfl, rfl⟩
    · exact (h.record pm record hold).extend (fun key _ ↦ hevent key) _
    · refine ⟨?_, hne, ?_, ?_, fromNr, Or.inl ⟨rfl, rfl⟩⟩
      · rw [effectsIn_snoc]
        simp [Ip4.enqueue, newRecord]
      · rw [answers_new hnew]
        rfl
      · rw [answers_new hnew]
        rfl
  · intro pm message a b heffect
    simp only [Ip4.enqueue, Heap.next_alloc]
    rcases queued_enqueue hrequests heffect with hold | ⟨rfl, rfl, -, -⟩
    · have hqueued := h.queued pm message a b hold
      exact ⟨hqueued.1, hqueued.2.trans (Nat.lt_succ_self _)⟩
    · exact ⟨h.paired, Nat.lt_succ_self _⟩
  · intro pm message a b message' a' b' heffect heffect'
    rcases queued_enqueue hrequests heffect with hold | ⟨rfl, -, rfl, rfl⟩
    · rcases queued_enqueue hrequests heffect' with hold' | ⟨rfl, -, -, -⟩
      · exact h.queued_unique pm message a b message' a' b' hold hold'
      · exact absurd hold (hnew message a b)
    · rcases queued_enqueue hrequests heffect' with hold' | ⟨-, -, rfl, rfl⟩
      · exact absurd hold' (hnew message' a' b')
      · exact ⟨rfl, rfl⟩
  · intro message
    have hquiet : (requests ++ (Ip4.enqueue now m fromNr toNr pending).2).count
        (.release message) = 0 :=
      countP_enqueue hrequests (by simp) (by simp)
    rw [effectsIn_snoc, List.count_append, hquiet, Nat.add_zero, h.released]
    simp only [Ip4.enqueue, Heap.next_alloc, Heap.read_alloc]
    by_cases hequal : message = pending.messages.next
    · simp [hequal]
    · have hlt : message < pending.messages.next + 1 ↔ message < pending.messages.next := by omega
      simp [hequal, hlt]
  · intro message
    have hquiet : (requests ++ (Ip4.enqueue now m fromNr toNr pending).2).countP
        (transmits message) = 0 :=
      countP_enqueue hrequests (by simp [transmits]) (by simp [transmits])
    rw [effectsIn_snoc, List.countP_append, List.count_append, hquiet, Nat.add_zero]
    exact (h.transmitted_le message).trans (Nat.le_add_right _ _)

end Enqueue

/-! ### A pass of the cleaner -/

/-- What the cleaner has done when it has dropped some records. -/
structure CleaningInvariant (pending : Pending) (dropped : List ℕ) (cleaning : Cleaning) :
    Prop where
  nodup : dropped.Nodup
  live : ∀ pm ∈ dropped, ∃ record, pending.Live pm record
  eraseKeys : ∀ key, key ∈ cleaning.eraseKeys ↔
    ∃ pm ∈ dropped, ∃ record, pending.Live pm record ∧ HasNumber record key
  next : cleaning.messages.next = pending.messages.next
  messages : ∀ message, cleaning.messages.read message =
    if message ∈ dropped then none else pending.messages.read message
  effects : cleaning.effects = dropped.map .release

theorem cleaningInvariant_start (pending : Pending) :
    CleaningInvariant pending [] ⟨[], pending.messages, []⟩ := by
  refine ⟨List.nodup_nil, ?_, ?_, rfl, ?_, rfl⟩
  · simp
  · simp
  · simp

section Cleaner

variable {trace : OutTrace} {pending : Pending} {dropped : List ℕ} {cleaning : Cleaning}

/-- A record that is dropped. Assumes: it is live and was not dropped before. -/
theorem CleaningInvariant.insert (hc : CleaningInvariant pending dropped cleaning) {pm : ℕ}
    {record : PendingMsg} (hlive : pending.Live pm record) (hown : record.queuedMsg = pm)
    (hnew : pm ∉ dropped) :
    CleaningInvariant pending (dropped ++ [pm])
      ⟨cleaning.eraseKeys ++ [record.fromNr, record.toNr], cleaning.messages.free record.queuedMsg,
        cleaning.effects ++ [.release record.queuedMsg]⟩ := by
  refine ⟨?_, ?_, ?_, ?_, ?_, ?_⟩
  · refine List.nodup_append.mpr ⟨hc.nodup, by simp, ?_⟩
    rintro other hother _ hlast rfl
    exact hnew (List.mem_singleton.mp hlast ▸ hother)
  · intro other hother
    rcases List.mem_append.mp hother with hold | hlast
    · exact hc.live other hold
    · obtain rfl := List.mem_singleton.mp hlast
      exact ⟨record, hlive⟩
  · intro key
    rw [List.mem_append, hc.eraseKeys]
    constructor
    · rintro (⟨other, hother, found, hfound⟩ | hkey)
      · exact ⟨other, List.mem_append_left _ hother, found, hfound⟩
      · exact ⟨pm, by simp, record, hlive, by simpa [HasNumber] using hkey⟩
    · rintro ⟨other, hother, found, hfound, hnumber⟩
      rcases List.mem_append.mp hother with hold | hlast
      · exact Or.inl ⟨other, hold, found, hfound, hnumber⟩
      · obtain rfl := List.mem_singleton.mp hlast
        obtain rfl := Option.some.inj (hfound.1.symm.trans hlive.1)
        exact Or.inr (by simpa [HasNumber] using hnumber)
  · rw [Heap.next_free, hc.next]
  · intro message
    rw [Heap.read_free, hc.messages, hown]
    by_cases hequal : message = pm
    · simp [hequal]
    · simp [hequal]
  · rw [hc.effects, hown, List.map_append, List.map_singleton]

/-- One turn of the cleaner's loop over the table. -/
theorem CleaningInvariant.step (h : PendingInvariant trace pending)
    (hc : CleaningInvariant pending dropped cleaning) (now : UInt64) {entry : UInt64 × ℕ}
    (hentry : pending.pendingMessages[entry.1]? = some entry.2) :
    ∃ dropped', CleaningInvariant pending dropped'
      (cleanEntry now pending.records cleaning entry) := by
  obtain ⟨record, hlive, hwaits⟩ := (h.keys entry.1 entry.2).mp hentry
  have hown := h.own entry.2 record hlive.1
  unfold cleanEntry
  rw [hlive.1]
  dsimp only
  by_cases hskip : entry.1 ∈ cleaning.eraseKeys
  · rw [if_pos hskip]
    exact ⟨dropped, hc⟩
  · rw [if_neg hskip]
    have hnew : entry.2 ∉ dropped := fun hmem ↦
      hskip ((hc.eraseKeys entry.1).mpr ⟨entry.2, hmem, record, hlive, hwaits.hasNumber⟩)
    have hread : (cleaning.messages.read record.queuedMsg).isSome = true := by
      rw [hc.messages, hown, if_neg hnew, ← hown]
      exact Option.isSome_iff_ne_none.mpr hlive.2
    rw [if_pos hread]
    split_ifs with hold
    · exact ⟨dropped ++ [entry.2], hc.insert hlive hown hnew⟩
    · exact ⟨dropped, hc⟩

/-- The cleaner's loop over entries of the table. -/
theorem CleaningInvariant.loop (h : PendingInvariant trace pending) (now : UInt64)
    {entries : List (UInt64 × ℕ)}
    (hentries : ∀ entry ∈ entries, pending.pendingMessages[entry.1]? = some entry.2)
    (hc : CleaningInvariant pending dropped cleaning) :
    ∃ dropped', CleaningInvariant pending dropped'
      (entries.foldl (cleanEntry now pending.records) cleaning) := by
  induction entries generalizing dropped cleaning with
  | nil => exact ⟨dropped, hc⟩
  | cons entry rest ih =>
    obtain ⟨dropped', hc'⟩ := hc.step h now (hentries entry List.mem_cons_self)
    exact ih (fun other hother ↦ hentries other (List.mem_cons_of_mem _ hother)) hc'

/-- Erasing the keys of the dropped records leaves the entries of the others. -/
theorem CleaningInvariant.table (h : PendingInvariant trace pending)
    (hc : CleaningInvariant pending dropped cleaning) (key : UInt64) (pm : ℕ) :
    (cleaning.eraseKeys.foldl (fun table key ↦ table.erase key)
        pending.pendingMessages)[key]? = some pm ↔
      pending.pendingMessages[key]? = some pm ∧ pm ∉ dropped := by
  rw [getElem?_foldl_erase]
  constructor
  · intro hentry
    split_ifs at hentry with hkey
    refine ⟨hentry, fun hpm ↦ hkey ?_⟩
    obtain ⟨record, hlive, hwaits⟩ := (h.keys key pm).mp hentry
    exact (hc.eraseKeys key).mpr ⟨pm, hpm, record, hlive, hwaits.hasNumber⟩
  · rintro ⟨hentry, hpm⟩
    obtain ⟨record, hlive, hwaits⟩ := (h.keys key pm).mp hentry
    rw [if_neg, hentry]
    intro hkey
    obtain ⟨other, hother, found, hfound, hnumber⟩ := (hc.eraseKeys key).mp hkey
    exact hpm (h.distinct other found pm record key hfound hlive hnumber hwaits.hasNumber ▸
      hother)

/-- A pass of the cleaner drops records and uses nothing that was released. -/
theorem PendingInvariant.clean (h : PendingInvariant trace pending) (now : UInt64) :
    .fault ∉ (cleanPending now pending).2 ∧
      (∀ message, (cleanPending now pending).2.countP (transmits message) = 0) ∧
      PendingInvariant (trace ++ [(.cleaner now, (cleanPending now pending).2)])
        (cleanPending now pending).1 := by
  have hentries : ∀ entry ∈ pending.pendingMessages.toList,
      pending.pendingMessages[entry.1]? = some entry.2 := fun entry hentry ↦
    Std.ExtTreeMap.mem_toList_iff_getElem?_eq_some.mp hentry
  obtain ⟨dropped, hc⟩ :=
    CleaningInvariant.loop h now hentries (cleaningInvariant_start pending)
  unfold cleanPending
  dsimp only
  generalize pending.pendingMessages.toList.foldl (cleanEntry now pending.records)
    ⟨[], pending.messages, []⟩ = cleaning at hc ⊢
  have hown : ∀ pm ∈ dropped, pending.messages.read pm ≠ none := by
    intro pm hpm
    obtain ⟨record, hlive⟩ := hc.live pm hpm
    rw [← h.own pm record hlive.1]
    exact hlive.2
  have hsilent : ∀ message, cleaning.effects.countP (transmits message) = 0 := by
    intro message
    rw [hc.effects, List.countP_map]
    exact List.countP_eq_zero.mpr fun _ _ ↦ by simp [transmits]
  refine ⟨?_, hsilent, ?_⟩
  · rw [hc.effects]
    simp
  refine h.drop dropped hown ⟨rfl, hc.next⟩ (fun _ _ hread ↦ hread) (fun _ _ ↦ rfl) hc.messages
    (hc.table h) (fun _ _ _ _ _ _ ↦ rfl) ?_ ?_ ?_
  · intro pm message fromNr toNr hmem
    rw [hc.effects] at hmem
    simp at hmem
  · intro message
    have hinjective : Function.Injective OutEffect.release := fun _ _ hequal ↦ by
      simpa using hequal
    rw [hc.effects, List.Nodup.count (List.Nodup.map hinjective hc.nodup)]
    simp
  · intro message
    rw [hsilent]
    exact Nat.zero_le _

end Cleaner

/-! ### Runs -/

/-- What a history shows of the packets that were sent: nothing was used after its release, and a
packet was sent between the MAC addresses of the first answers to its two requests. -/
structure HistoryInvariant (trace : OutTrace) : Prop where
  no_fault : .fault ∉ effectsIn trace
  transmitted : ∀ message fromMac toMac packets,
    .transmit message fromMac toMac packets ∈ effectsIn trace →
      ∃ pm fromNr toNr, .queued pm message fromNr toNr ∈ effectsIn trace ∧
        (answers pm fromNr trace).head? = some fromMac ∧
        (answers pm toNr trace).head? = some toMac

/-- The invariant of a run. After its end only the history is left. -/
def OutInvariant (trace : OutTrace) (state : Option Pending) : Prop :=
  HistoryInvariant trace ∧
    match state with
    | some pending => PendingInvariant trace pending
    | none => ∀ message, (effectsIn trace).countP (transmits message) ≤ 1 ∧
        (effectsIn trace).count (.release message) ≤ 1

section Runs

variable {trace : OutTrace} {pending : Pending} {event : OutEvent} {effects : List OutEffect}

theorem HistoryInvariant.extend (h : HistoryInvariant trace) (hfault : .fault ∉ effects)
    (hsent : ∀ message fromMac toMac packets, .transmit message fromMac toMac packets ∈ effects →
      ∃ pm fromNr toNr, .queued pm message fromNr toNr ∈ effectsIn trace ∧
        (answers pm fromNr (trace ++ [(event, effects)])).head? = some fromMac ∧
        (answers pm toNr (trace ++ [(event, effects)])).head? = some toMac) :
    HistoryInvariant (trace ++ [(event, effects)]) := by
  constructor
  · rw [effectsIn_snoc]
    exact fun hmem ↦ (List.mem_append.mp hmem).elim h.no_fault hfault
  · intro message fromMac toMac packets hmem
    rw [effectsIn_snoc] at hmem ⊢
    rcases List.mem_append.mp hmem with hold | hnew
    · obtain ⟨pm, fromNr, toNr, hqueued, hfrom, hto⟩ :=
        h.transmitted message fromMac toMac packets hold
      exact ⟨pm, fromNr, toNr, List.mem_append_left _ hqueued, head?_answers_snoc hqueued hfrom,
        head?_answers_snoc hqueued hto⟩
    · obtain ⟨pm, fromNr, toNr, hqueued, hanswers⟩ :=
        hsent message fromMac toMac packets hnew
      exact ⟨pm, fromNr, toNr, List.mem_append_left _ hqueued, hanswers⟩

/-- Effects without a transmission and a fault. -/
theorem HistoryInvariant.quiet (h : HistoryInvariant trace)
    (hfault : .fault ∉ effects) (hsilent : ∀ message, effects.countP (transmits message) = 0) :
    HistoryInvariant (trace ++ [(event, effects)]) := by
  refine h.extend hfault fun message fromMac toMac packets hmem ↦ ?_
  have hnot := List.countP_eq_zero.mp (hsilent message) _ hmem
  exact absurd (beq_self_eq_true message) hnot

theorem HistoryInvariant.requests (h : HistoryInvariant trace) (heffects : OnlyRequests effects) :
    HistoryInvariant (trace ++ [(event, effects)]) :=
  h.quiet (heffects.not_mem (by simp)) fun _ ↦ heffects.countP_eq_zero (by simp [transmits])

/-- At most one transmission and one release of every message. -/
theorem PendingInvariant.once (h : PendingInvariant trace pending) (message : ℕ) :
    (effectsIn trace).countP (transmits message) ≤ 1 ∧
      (effectsIn trace).count (.release message) ≤ 1 := by
  have hreleased : (effectsIn trace).count (.release message) ≤ 1 := by
    rw [h.released]
    split_ifs
    · exact le_refl 1
    · exact Nat.zero_le 1
  exact ⟨(h.transmitted_le message).trans hreleased, hreleased⟩

/-- The effects of sending the packets of a message: at most one transmission, of this message. -/
structure SentFor (message : ℕ) (fromMac toMac : List UInt8) (sent : List OutEffect) : Prop where
  only : ∀ effect ∈ sent, ∃ packets, effect = .transmit message fromMac toMac packets
  once : ∀ other, sent.countP (transmits other) ≤ if other = message then 1 else 0

theorem sentFor_transmitMsg (config : OutConfig) (reply : ResolverReply) (message : ℕ)
    (m : QueuedMsg) (fromMac toMac : List UInt8) :
    SentFor message fromMac toMac (transmitMsg config reply message m fromMac toMac) := by
  unfold transmitMsg
  cases config.mappingsOut m.sender with
  | none => exact ⟨by simp, by simp⟩
  | some protocol =>
    refine ⟨by simp, fun other ↦ ?_⟩
    by_cases hequal : other = message
    · simp [hequal, transmits]
    · simp [hequal, Ne.symm hequal, transmits]

theorem SentFor.count_release {message : ℕ} {fromMac toMac : List UInt8} {sent : List OutEffect}
    (h : SentFor message fromMac toMac sent) (other : ℕ) : sent.count (.release other) = 0 := by
  refine List.count_eq_zero.mpr fun hmem ↦ ?_
  obtain ⟨packets, hpackets⟩ := h.only _ hmem
  exact absurd hpackets (by simp)

/-- The packets of a record whose last answer came are sent between the right addresses. -/
theorem HistoryInvariant.send (hhistory : HistoryInvariant trace)
    (h : PendingInvariant trace pending) {reply : ResolverReply} {bytes : List UInt8}
    (hanswer : macAnswer reply = .mac bytes) {pm : ℕ}
    (hkey : pending.pendingMessages[reply.msgNr]? = some pm) {record filled : PendingMsg}
    (hread : pending.records.read pm = some record)
    (hfilled : FilledIn record reply.msgNr bytes filled) {fromMac toMac : List UInt8}
    (hfrom : filled.fromMac = some fromMac) (hto : filled.toMac = some toMac)
    {sent released : List OutEffect} (hsent : SentFor pm fromMac toMac sent)
    (hreleased : ∀ effect ∈ released, effect = .release pm) :
    HistoryInvariant (trace ++ [(.reply reply, sent ++ released)]) := by
  obtain ⟨hlive, hwaits⟩ := h.lookup hkey hread
  have hrecord := h.record pm record hlive
  have hqueued := hrecord.queued
  rw [h.own pm record hread] at hqueued
  obtain ⟨hfirst, hsecond⟩ := hrecord.fill hanswer hwaits hfilled (sent ++ released)
  refine hhistory.extend ?_ ?_
  · intro hmem
    rcases List.mem_append.mp hmem with hmem | hmem
    · obtain ⟨packets, hpackets⟩ := hsent.only _ hmem
      exact absurd hpackets (by simp)
    · exact absurd (hreleased _ hmem) (by simp)
  · intro message sentFrom sentTo packets hmem
    rcases List.mem_append.mp hmem with hmem | hmem
    · obtain ⟨packets', hpackets⟩ := hsent.only _ hmem
      obtain ⟨rfl, rfl, rfl, -⟩ := by simpa using hpackets
      exact ⟨message, record.fromNr, record.toNr, hqueued, by rw [← hfirst, hfrom],
        by rw [← hsecond, hto]⟩
    · exact absurd (hreleased _ hmem) (by simp)

/-- The number of the last answer is the only key of its record. -/
theorem PendingInvariant.keys_erase (h : PendingInvariant trace pending) {msgNr : UInt64}
    {bytes : List UInt8} {pm : ℕ} (hkey : pending.pendingMessages[msgNr]? = some pm)
    {record filled : PendingMsg} (hread : pending.records.read pm = some record)
    (hfilled : FilledIn record msgNr bytes filled) (hcomplete : ∀ key, ¬ Waits filled key)
    (key : UInt64) (pm' : ℕ) :
    (pending.pendingMessages.erase msgNr)[key]? = some pm' ↔
      pending.pendingMessages[key]? = some pm' ∧ pm' ∉ [pm] := by
  rw [Std.ExtTreeMap.getElem?_erase]
  constructor
  · intro hentry
    split_ifs at hentry with hequal
    refine ⟨hentry, fun hmem ↦ ?_⟩
    obtain rfl := List.mem_singleton.mp hmem
    -- another key of the record would be one that it still waits for
    have hother := (h.lookup hentry hread).2
    exact hcomplete key
      ((hfilled.waits_iff key).mpr ⟨hother, fun hsame ↦ hequal (by simp [hsame])⟩)
  · rintro ⟨hentry, hne⟩
    rw [if_neg, hentry]
    intro hequal
    have hsame : msgNr = key := by simpa using hequal
    rw [← hsame, hkey] at hentry
    exact hne (List.mem_singleton.mpr (Option.some.inj hentry).symm)

/-- The record whose last answer came is dropped. -/
theorem PendingInvariant.send (h : PendingInvariant trace pending) {reply : ResolverReply}
    {bytes : List UInt8} {pm : ℕ} (hkey : pending.pendingMessages[reply.msgNr]? = some pm)
    {record filled : PendingMsg} (hread : pending.records.read pm = some record)
    (hfilled : FilledIn record reply.msgNr bytes filled) (hcomplete : ∀ key, ¬ Waits filled key)
    {fromMac toMac : List UInt8} {sent : List OutEffect} (hsent : SentFor pm fromMac toMac sent) :
    PendingInvariant (trace ++ [(.reply reply, sent ++ [.release pm])])
      ⟨pending.pendingMessages.erase reply.msgNr, (pending.records.write pm filled).free pm,
        pending.messages.free pm⟩ := by
  have hmessage : pending.messages.read pm ≠ none := by
    have hlive := (h.lookup hkey hread).1.2
    rwa [h.own pm record hread] at hlive
  refine h.drop [pm] (by simpa using hmessage) (by simp) ?_ ?_ ?_
    (h.keys_erase hkey hread hfilled hcomplete) ?_ ?_ ?_ ?_
  · intro pm' record' hafter
    dsimp only at hafter
    rw [Heap.read_free, Heap.read_write hread] at hafter
    split_ifs at hafter with hequal
    exact hafter
  · intro pm' hne
    dsimp only
    rw [Heap.read_free, Heap.read_write hread]
    simp [List.mem_singleton.not.mp hne]
  · intro message
    dsimp only
    rw [Heap.read_free]
    simp
  · intro pm' record' hother hne key hstill
    exact h.answerTo_other hkey hother (List.mem_singleton.not.mp hne) hstill
  · intro pm' message fromNr toNr hmem
    have hmem' : OutEffect.queued pm' message fromNr toNr ∈ sent := by simpa using hmem
    obtain ⟨packets, hpackets⟩ := hsent.only _ hmem'
    exact absurd hpackets (by simp)
  · intro message
    rw [List.count_append, hsent.count_release, Nat.zero_add, List.count_singleton]
    by_cases hequal : message = pm
    · simp [hequal]
    · simp [hequal, Ne.symm hequal]
  · intro message
    have hnow := hsent.once message
    rw [List.countP_append, List.count_append, hsent.count_release]
    by_cases hequal : message = pm
    · simpa [hequal, transmits] using hnow
    · simpa [hequal, Ne.symm hequal, transmits] using hnow

/-- The last answer of a record. -/
theorem sendPending_step (hhistory : HistoryInvariant trace) (h : PendingInvariant trace pending)
    (config : OutConfig) {reply : ResolverReply} {bytes : List UInt8}
    (hanswer : macAnswer reply = .mac bytes) {pm : ℕ}
    (hkey : pending.pendingMessages[reply.msgNr]? = some pm) {record filled : PendingMsg}
    (hread : pending.records.read pm = some record)
    (hfilled : FilledIn record reply.msgNr bytes filled) {fromMac toMac : List UInt8}
    (hfrom : filled.fromMac = some fromMac) (hto : filled.toMac = some toMac) :
    let result := sendPending config reply pm filled fromMac toMac
      { pending with records := pending.records.write pm filled }
    OutInvariant (trace ++ [(.reply reply, result.2)]) result.1 := by
  intro result
  have hown := h.own pm record hread
  obtain ⟨m, hmessage⟩ := Option.ne_none_iff_exists'.mp (h.lookup hkey hread).1.2
  rw [hown] at hmessage
  have hsent := sentFor_transmitMsg config reply pm m fromMac toMac
  simp only [result, sendPending, hfilled.queuedMsg_eq, hown, hmessage]
  generalize transmitMsg config reply pm m fromMac toMac = sent at hsent
  by_cases hhangs : hangs sent = true
  · -- the loop does not come to an end, and neither does the hold of the lock
    rw [if_pos hhangs]
    have hafter := hhistory.send h hanswer hkey hread hfilled hfrom hto hsent
      (List.forall_mem_nil _)
    rw [List.append_nil] at hafter
    refine ⟨hafter, fun message ↦ ?_⟩
    have hbefore := h.once message
    have hle := h.transmitted_le message
    have hnow := hsent.once message
    dsimp only
    rw [effectsIn_snoc, List.countP_append, List.count_append, hsent.count_release]
    split_ifs at hnow with hequal
    · have hunsent : (effectsIn trace).count (.release message) = 0 := by
        rw [h.released, if_neg]
        rw [hequal, hmessage]
        simp
      omega
    · omega
  · rw [if_neg hhangs]
    refine ⟨hhistory.send h hanswer hkey hread hfilled hfrom hto hsent (by simp), ?_⟩
    exact h.send hkey hread hfilled (fun key ↦ by simp [Waits, hfrom, hto]) hsent

/-- A reply of the resolver. -/
theorem resolverReply_step (hhistory : HistoryInvariant trace) (h : PendingInvariant trace pending)
    (config : OutConfig) (reply : ResolverReply) :
    OutInvariant (trace ++ [(.reply reply, (resolverReply config reply pending).2)])
      (resolverReply config reply pending).1 := by
  have hnothing : HistoryInvariant (trace ++ [(OutEvent.reply reply, [])]) :=
    hhistory.requests onlyRequests_nil
  unfold resolverReply
  cases hkey : pending.pendingMessages[reply.msgNr]? with
  | none =>
    refine ⟨hnothing, h.idle (fun pm record hlive key hwaits ↦ ?_) onlyRequests_nil⟩
    have hdiffers : reply.msgNr ≠ key := by
      rintro rfl
      have hlisted := (h.keys reply.msgNr pm).mpr ⟨record, hlive, hwaits⟩
      exact absurd (hkey.symm.trans hlisted) (by simp)
    simp [answerTo, hdiffers]
  | some pm =>
    dsimp only
    cases hanswer : macAnswer reply with
    | invalid =>
      exact ⟨hnothing, h.idle (fun _ _ _ key _ ↦ by simp [answerTo, hanswer]) onlyRequests_nil⟩
    | exception =>
      refine ⟨hnothing, fun message ↦ ?_⟩
      rw [effectsIn_snoc, List.append_nil]
      exact h.once message
    | mac bytes =>
      obtain ⟨record, hlive, hwaits⟩ := (h.keys reply.msgNr pm).mp hkey
      obtain ⟨filled, hfill, hfilled⟩ :=
        fillIn_spec (h.record pm record hlive).numbers_ne hwaits bytes
      simp only [hlive.1, hfill]
      cases hfrom : filled.fromMac with
      | none =>
        exact ⟨hnothing, h.fill hanswer hkey hlive.1 hfilled
          ⟨filled.fromNr, Or.inl ⟨rfl, hfrom⟩⟩⟩
      | some fromMac =>
        cases hto : filled.toMac with
        | none =>
          exact ⟨hnothing, h.fill hanswer hkey hlive.1 hfilled ⟨filled.toNr, Or.inr ⟨rfl, hto⟩⟩⟩
        | some toMac =>
          exact sendPending_step hhistory h config hanswer hkey hlive.1 hfilled hfrom hto

/-- A message of an upper layer. -/
theorem newPacket_step (hhistory : HistoryInvariant trace) (h : PendingInvariant trace pending)
    (config : OutConfig) (m : DownMessage) (fromMsgNr toMsgNr : Option UInt64) (now : UInt64)
    (hfresh : FreshNumbers (some pending) (.packet m fromMsgNr toMsgNr now)) :
    let result := newPacket config now m fromMsgNr toMsgNr pending
    OutInvariant (trace ++ [(.packet m fromMsgNr toMsgNr now, result.2)]) (some result.1) := by
  intro result
  have hidle : ∀ effects, OnlyRequests effects →
      OutInvariant (trace ++ [(.packet m fromMsgNr toMsgNr now, effects)]) (some pending) :=
    fun effects heffects ↦ ⟨hhistory.requests heffects, h.idle (fun _ _ _ _ _ ↦ rfl) heffects⟩
  simp only [result, newPacket]
  cases hqueued : queuedMsg m with
  | none => exact hidle [] onlyRequests_nil
  | some queued =>
    dsimp only
    have hrequests : OnlyRequests (startResolve queued.source fromMsgNr ++
        startResolve (via config queued.destination) toMsgNr) :=
      List.forall_mem_append.mpr
        ⟨onlyRequests_startResolve _ fromMsgNr, onlyRequests_startResolve _ toMsgNr⟩
    cases hfromNr : fromMsgNr with
    | none =>
      rw [hfromNr] at hidle hrequests
      exact hidle _ hrequests
    | some fromNr =>
      cases htoNr : toMsgNr with
      | none =>
        rw [hfromNr, htoNr] at hidle hrequests
        exact hidle _ hrequests
      | some toNr =>
        rw [hfromNr, htoNr] at hfresh hrequests
        refine ⟨hhistory.quiet ?_ fun message ↦ ?_,
          h.enqueue (fun _ ↦ rfl) hfresh.1 hfresh.2 hrequests⟩
        · rw [List.mem_append, not_or]
          exact ⟨hrequests.not_mem (by simp), by simp [enqueue]⟩
        · exact countP_enqueue hrequests (by simp [transmits]) (by simp [transmits])

/-- Every step keeps the invariant. -/
theorem outStep_invariant (config : OutConfig) {state : Option Pending}
    (h : OutInvariant trace state) {event : OutEvent} (hfresh : FreshNumbers state event) :
    OutInvariant (trace ++ [(event, (outStep config state event).2)])
      (outStep config state event).1 := by
  cases state with
  | none =>
    refine ⟨h.1.quiet (by simp [outStep]) (by simp [outStep]), fun message ↦ ?_⟩
    rw [effectsIn_snoc]
    simpa [outStep] using h.2 message
  | some pending =>
    cases event with
    | packet m fromMsgNr toMsgNr now =>
      exact newPacket_step h.1 h.2 config m fromMsgNr toMsgNr now hfresh
    | reply reply => exact resolverReply_step h.1 h.2 config reply
    | cleaner now =>
      obtain ⟨hfault, hsilent, hclean⟩ := PendingInvariant.clean h.2 now
      simp only [outStep, if_neg hfault]
      exact ⟨h.1.quiet hfault hsilent, hclean⟩

end Runs

/-! ### The bookkeeping -/

/-- What is promised of the packets that wait for addresses, after a run. Nothing is used after its
release. A packet is sent at most once, between the MAC addresses of the first answers to its two
requests, and its message is released at most once. While the run lasts, a message is released
exactly when no key of its record is left, and a record is listed exactly under the numbers of its
requests without an answer. -/
structure Bookkeeping (trace : OutTrace) (state : Option Pending) : Prop where
  no_fault : .fault ∉ effectsIn trace
  transmitted_once : ∀ message, (effectsIn trace).countP (transmits message) ≤ 1
  transmitted : ∀ message fromMac toMac packets,
    .transmit message fromMac toMac packets ∈ effectsIn trace →
      ∃ pm fromNr toNr, .queued pm message fromNr toNr ∈ effectsIn trace ∧
        (answers pm fromNr trace).head? = some fromMac ∧
        (answers pm toNr trace).head? = some toMac
  released_once : ∀ message, (effectsIn trace).count (.release message) ≤ 1
  released_iff : ∀ pending, state = some pending → ∀ pm message fromNr toNr,
    .queued pm message fromNr toNr ∈ effectsIn trace →
      (.release message ∈ effectsIn trace ↔
        ∀ key : UInt64, pending.pendingMessages[key]? ≠ some pm)
  keys : ∀ pending, state = some pending → ∀ (key : UInt64) pm,
    pending.pendingMessages[key]? = some pm ↔
      ∃ message fromNr toNr, .queued pm message fromNr toNr ∈ effectsIn trace ∧
        .release message ∉ effectsIn trace ∧
        ((key = fromNr ∧ answers pm fromNr trace = []) ∨
          (key = toNr ∧ answers pm toNr trace = []))

/-- A queued message is released or its record is live. -/
theorem PendingInvariant.release_mem_iff {trace : OutTrace} {pending : Pending}
    (h : PendingInvariant trace pending) {pm message : ℕ} {fromNr toNr : UInt64}
    (hqueued : .queued pm message fromNr toNr ∈ effectsIn trace) :
    .release message ∈ effectsIn trace ↔ ∀ record, ¬ pending.Live pm record := by
  obtain ⟨rfl, hlt⟩ := h.queued pm message fromNr toNr hqueued
  have hcount := h.released pm
  rw [← List.count_pos_iff, hcount]
  constructor
  · rintro hpos record ⟨hread, hmessage⟩
    rw [h.own pm record hread] at hmessage
    simp [hmessage] at hpos
  · intro hdead
    have hnone : pending.messages.read pm = none := by
      by_contra hsome
      obtain ⟨record, hread⟩ := h.kept pm hsome
      exact hdead record ⟨hread, by rwa [h.own pm record hread]⟩
    rw [if_pos ⟨h.paired ▸ hlt, hnone⟩]
    exact Nat.one_pos

/-- The requests that a live record waits for are those without an answer. -/
theorem RecordInvariant.waits_iff {trace : OutTrace} {pm : ℕ} {record : PendingMsg}
    (h : RecordInvariant trace pm record) (key : UInt64) :
    Waits record key ↔ (key = record.fromNr ∧ answers pm record.fromNr trace = []) ∨
      (key = record.toNr ∧ answers pm record.toNr trace = []) := by
  rw [Waits, h.fromMac_eq, h.toMac_eq, List.head?_eq_none_iff, List.head?_eq_none_iff]

theorem OutInvariant.bookkeeping {trace : OutTrace} {state : Option Pending}
    (h : OutInvariant trace state) : Bookkeeping trace state := by
  have honce : ∀ message, (effectsIn trace).countP (transmits message) ≤ 1 ∧
      (effectsIn trace).count (.release message) ≤ 1 := by
    cases state with
    | none => exact h.2
    | some pending => exact PendingInvariant.once h.2
  refine ⟨h.1.no_fault, fun message ↦ (honce message).1, h.1.transmitted,
    fun message ↦ (honce message).2, ?_, ?_⟩
  · rintro pending rfl pm message fromNr toNr hqueued
    have hinv : PendingInvariant trace pending := h.2
    rw [hinv.release_mem_iff hqueued]
    constructor
    · intro hdead key hkey
      obtain ⟨record, hlive, -⟩ := (hinv.keys key pm).mp hkey
      exact hdead record hlive
    · intro hunlisted record hlive
      obtain ⟨key, hwaits⟩ := (hinv.record pm record hlive).waiting
      exact hunlisted key ((hinv.keys key pm).mpr ⟨record, hlive, hwaits⟩)
  · rintro pending rfl key pm
    have hinv : PendingInvariant trace pending := h.2
    rw [hinv.keys]
    constructor
    · rintro ⟨record, hlive, hwaits⟩
      have hrecord := hinv.record pm record hlive
      refine ⟨record.queuedMsg, record.fromNr, record.toNr, hrecord.queued, ?_,
        (hrecord.waits_iff key).mp hwaits⟩
      rw [hinv.release_mem_iff hrecord.queued]
      exact fun hdead ↦ hdead record hlive
    · rintro ⟨message, fromNr, toNr, hqueued, hunreleased, hunanswered⟩
      rw [hinv.release_mem_iff hqueued] at hunreleased
      obtain ⟨record, hlive⟩ := not_forall.mp hunreleased
      have hlive := not_not.mp hlive
      have hrecord := hinv.record pm record hlive
      obtain ⟨rfl, rfl⟩ := hinv.queued_unique pm message fromNr toNr _ _ _ hqueued hrecord.queued
      exact ⟨record, hlive, (hrecord.waits_iff key).mpr hunanswered⟩

/-- The bookkeeping of the packets that wait for addresses. Assumes: a packet's two requests get
numbers that differ and that are not those of a packet that still waits. -/
theorem pending_bookkeeping (config : OutConfig) {events : List OutEvent}
    (hfresh : Along (traced (outStep config)) FreshNumbers (some Pending.start) events) :
    Bookkeeping (run (traced (outStep config)) (some Pending.start) events).2
      (run (traced (outStep config)) (some Pending.start) events).1 := by
  have hrun : OutInvariant (run (traced (outStep config)) (some Pending.start) events).2
      (run (traced (outStep config)) (some Pending.start) events).1 := by
    refine run_induction (P := fun _ state trace ↦ OutInvariant trace state) ?_ ?_ hfresh
    · refine ⟨⟨?_, ?_⟩, pendingInvariant_start⟩
      · simp [effectsIn]
      · simp [effectsIn]
    · intro _ state trace event h hnumbers
      exact outStep_invariant config h hnumbers
  exact hrun.bookkeeping

theorem length_sampleListen : ([192, 168, 1, 1] : List UInt8).length = 4 := rfl

/-- A server on a network of 24 bits, whose link takes packets of 1500 bytes. -/
def sampleOutConfig : OutConfig where
  listenAddr := ⟨[192, 168, 1, 1], length_sampleListen⟩
  prefixLength := 24
  behindMasks _ := 0
  defaultGwAddr := ⟨[192, 168, 1, 254], rfl⟩
  mappingsOut sender := if sender = ascii "udp" then some 17 else none
  mtuSize := 1500

/-- A reply with a MAC address. -/
def sampleReply (msgNr : UInt64) (text : String) : OutEvent :=
  .reply ⟨msgNr, ascii text, fun _ ↦ 0, 7, fun _ ↦ true, 100⟩

/-- A packet whose second request is answered first, and the first one after a pass of the
cleaner, twice. -/
def sampleOutEvents : List OutEvent := [
  .packet ⟨ascii "udp", [192, 168, 1, 1], [192, 168, 1, 2], [1, 2, 3]⟩ (some 5) (some 6) 0,
  sampleReply 6 "ip4:192.168.1.2=mac:02:00:00:00:00:02", .cleaner 1000000,
  sampleReply 5 "ip4:192.168.1.1=mac:02:00:00:00:00:01",
  sampleReply 5 "ip4:192.168.1.1=mac:02:00:00:00:00:01"]

/-- The run of the three threads over these events. -/
def sampleOutRun : Option Pending × OutTrace :=
  run (traced (outStep sampleOutConfig)) (some Pending.start) sampleOutEvents

/-- The packet is sent once and its message released once. -/
theorem pending_bookkeeping_out_of_order :
    Bookkeeping sampleOutRun.2 sampleOutRun.1 ∧
      (effectsIn sampleOutRun.2).countP (transmits 0) = 1 ∧
      (effectsIn sampleOutRun.2).count (.release 0) = 1 := by
  have hfresh : Along (traced (outStep sampleOutConfig)) FreshNumbers (some Pending.start)
      sampleOutEvents := by
    refine ⟨⟨by decide, fun pm record hlive ↦ ?_⟩, ?_, ?_, ?_, ?_, trivial⟩
    · simp [Pending.Live, Pending.start] at hlive
    all_goals
      unfold FreshNumbers
      split
      · simp_all [sampleReply]
      · trivial
  exact ⟨pending_bookkeeping sampleOutConfig hfresh, by decide +kernel, by decide +kernel⟩

end MyIPNG.Ip4
