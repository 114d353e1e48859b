import MyIPNG.Ip4.Pending

/-!
# The packets that are sent, and from what they were made

The bookkeeping of the packets that wait for addresses says that each is sent at most once. Here is
the other half: what is sent are the fragments of a message that an upper layer handed over, under
the protocol of its sender, and every message is sent whose two addresses were answered before the
cleaner found it too old (`answered_packets_are_sent`).

`Provenance` ties the objects and the effects to the event that queued them. A message is released
for one of three reasons: its sender has no protocol, it was sent, or the cleaner found it too old.
-/

set_option autoImplicit false
set_option relaxedAutoImplicit false

namespace MyIPNG.Ip4

open Base Utils

/-! ### Where the packets come from -/

/-- The event of a history that queued a record with its message. -/
def QueuedBy (trace : OutTrace) (message : ℕ) (m : DownMessage) (fromNr toNr now : UInt64) : Prop :=
  ∃ effects, (.packet m (some fromNr) (some toNr) now, effects) ∈ trace ∧
    .queued message message fromNr toNr ∈ effects

/-- The packets are the fragments of a message that was handed over, or none when the loop does not
come to an end. -/
def SentAs (config : OutConfig) (trace : OutTrace) (reply : ResolverReply) (message : ℕ)
    (packets : Option (List (List UInt8))) : Prop :=
  ∃ m fromNr toNr now queued protocol, QueuedBy trace message m fromNr toNr now ∧
    queuedMsg m = some queued ∧ config.mappingsOut m.sender = some protocol ∧
    packets = fragmentLoop reply.accepts config.mtuSize
      ⟨reply.packetsId, protocol, queued.source, queued.destination, queued.pl⟩ reply.turns 0 0

/-- Why a message was released. -/
def ReleasedFor (config : OutConfig) (trace : OutTrace) (message : ℕ) : Prop :=
  ∃ m fromNr toNr now, QueuedBy trace message m fromNr toNr now ∧
    (config.mappingsOut m.sender = none ∨
      (∃ fromMac toMac packets, .transmit message fromMac toMac packets ∈ effectsIn trace) ∨
      ∃ later cleaned, (.cleaner later, cleaned) ∈ sinceQueued message trace ∧
        arpTimeout ≤ later - now)

/-- What the objects and the effects have to do with the events that queued them. -/
structure Provenance (config : OutConfig) (trace : OutTrace) (state : Option Pending) : Prop where
  unique : ∀ message m fromNr toNr now m' fromNr' toNr' now',
    QueuedBy trace message m fromNr toNr now → QueuedBy trace message m' fromNr' toNr' now' →
      m = m' ∧ now = now'
  content : ∀ pending, state = some pending → ∀ message queued,
    pending.messages.read message = some queued →
      ∃ m fromNr toNr now, QueuedBy trace message m fromNr toNr now ∧ queuedMsg m = some queued
  time : ∀ pending, state = some pending → ∀ pm record, pending.records.read pm = some record →
    ∃ m fromNr toNr, QueuedBy trace pm m fromNr toNr record.ts
  sent : ∀ entry ∈ trace, ∀ message fromMac toMac packets,
    .transmit message fromMac toMac packets ∈ entry.2 →
      ∃ reply, entry.1 = .reply reply ∧ SentAs config trace reply message packets
  ended : ∀ message fromMac toMac, .transmit message fromMac toMac none ∈ effectsIn trace →
    state = none
  released : ∀ message, .release message ∈ effectsIn trace → ReleasedFor config trace message

section Trace

variable {config : OutConfig} {trace : OutTrace} {state : Option Pending} {event : OutEvent}
  {effects : List OutEffect} {message : ℕ}

theorem QueuedBy.mem {m : DownMessage} {fromNr toNr now : UInt64}
    (h : QueuedBy trace message m fromNr toNr now) :
    .queued message message fromNr toNr ∈ effectsIn trace := by
  obtain ⟨effects, hentry, hqueued⟩ := h
  exact List.mem_flatMap.mpr ⟨_, hentry, hqueued⟩

theorem QueuedBy.snoc {m : DownMessage} {fromNr toNr now : UInt64}
    (h : QueuedBy trace message m fromNr toNr now) (entry : OutEvent × List OutEffect) :
    QueuedBy (trace ++ [entry]) message m fromNr toNr now := by
  obtain ⟨effects, hentry, hqueued⟩ := h
  exact ⟨effects, List.mem_append_left _ hentry, hqueued⟩

/-- A message that was queued was queued before, or is being queued. -/
theorem QueuedBy.of_snoc {m : DownMessage} {fromNr toNr now : UInt64}
    (h : QueuedBy (trace ++ [(event, effects)]) message m fromNr toNr now) :
    QueuedBy trace message m fromNr toNr now ∨
      event = .packet m (some fromNr) (some toNr) now ∧
        .queued message message fromNr toNr ∈ effects := by
  obtain ⟨found, hentry, hqueued⟩ := h
  rcases List.mem_append.mp hentry with hold | hnew
  · exact Or.inl ⟨found, hold, hqueued⟩
  · obtain ⟨rfl, rfl⟩ := Prod.mk.inj (List.mem_singleton.mp hnew)
    exact Or.inr ⟨rfl, hqueued⟩

theorem SentAs.snoc {reply : ResolverReply} {packets : Option (List (List UInt8))}
    (h : SentAs config trace reply message packets) (entry : OutEvent × List OutEffect) :
    SentAs config (trace ++ [entry]) reply message packets := by
  obtain ⟨m, fromNr, toNr, now, queued, protocol, hqueued, hrest⟩ := h
  exact ⟨m, fromNr, toNr, now, queued, protocol, hqueued.snoc entry, hrest⟩

/-- What came after a record was queued stays behind it. -/
theorem sinceQueued_snoc_of_queued {m : DownMessage} {fromNr toNr now : UInt64}
    (h : QueuedBy trace message m fromNr toNr now) (entry : OutEvent × List OutEffect) :
    sinceQueued message (trace ++ [entry]) = sinceQueued message trace ++ [entry] := by
  rw [sinceQueued_snoc, if_pos (any_queues_iff.mpr ⟨message, fromNr, toNr, h.mem⟩)]

theorem ReleasedFor.snoc (h : ReleasedFor config trace message)
    (entry : OutEvent × List OutEffect) : ReleasedFor config (trace ++ [entry]) message := by
  obtain ⟨m, fromNr, toNr, now, hqueued, hreason⟩ := h
  refine ⟨m, fromNr, toNr, now, hqueued.snoc entry, ?_⟩
  rcases hreason with hunmapped | ⟨fromMac, toMac, packets, hsent⟩ | ⟨later, cleaned, hmem, hold⟩
  · exact Or.inl hunmapped
  · refine Or.inr (Or.inl ⟨fromMac, toMac, packets, ?_⟩)
    rw [effectsIn_snoc]
    exact List.mem_append_left _ hsent
  · refine Or.inr (Or.inr ⟨later, cleaned, ?_, hold⟩)
    rw [sinceQueued_snoc_of_queued hqueued]
    exact List.mem_append_left _ hmem

/-! ### Steps -/

/-- The objects of a state are objects of another one, with the same time. -/
structure Inherits (before : Pending) (after : Option Pending) : Prop where
  messages : ∀ pending, after = some pending → ∀ message queued,
    pending.messages.read message = some queued → before.messages.read message = some queued
  records : ∀ pending, after = some pending → ∀ pm record,
    pending.records.read pm = some record →
      ∃ old, before.records.read pm = some old ∧ old.ts = record.ts

theorem inherits_none (before : Pending) : Inherits before none := by
  constructor <;> simp

theorem inherits_of_eq {before after : Pending} (hmessages : after.messages = before.messages)
    (hrecords : after.records = before.records) : Inherits before (some after) := by
  constructor
  · rintro pending hequal message queued hread
    obtain rfl := Option.some.inj hequal
    rwa [hmessages] at hread
  · rintro pending hequal pm record hread
    obtain rfl := Option.some.inj hequal
    exact ⟨record, hrecords ▸ hread, rfl⟩

/-- A step that queues nothing. Assumes: what it sends and what it releases is accounted for. -/
theorem Provenance.extend {pending : Pending} (h : Provenance config trace (some pending))
    {next : Option Pending} (hnext : Inherits pending next)
    (hqueued : ∀ pm message fromNr toNr, .queued pm message fromNr toNr ∉ effects)
    (hsent : ∀ message fromMac toMac packets, .transmit message fromMac toMac packets ∈ effects →
      (∃ reply, event = .reply reply ∧ SentAs config trace reply message packets) ∧
        (packets = none → next = none))
    (hreleased : ∀ message, .release message ∈ effects →
      ReleasedFor config (trace ++ [(event, effects)]) message) :
    Provenance config (trace ++ [(event, effects)]) next := by
  have hbefore : ∀ {message : ℕ} {m : DownMessage} {fromNr toNr now : UInt64},
      QueuedBy (trace ++ [(event, effects)]) message m fromNr toNr now →
        QueuedBy trace message m fromNr toNr now := fun hby ↦
    hby.of_snoc.resolve_right fun hnow ↦ hqueued _ _ _ _ hnow.2
  refine ⟨?_, ?_, ?_, ?_, ?_, ?_⟩
  · intro message m fromNr toNr now m' fromNr' toNr' now' hfirst hsecond
    exact h.unique _ _ _ _ _ _ _ _ _ (hbefore hfirst) (hbefore hsecond)
  · intro after hafter message queued hread
    obtain ⟨m, fromNr, toNr, now, hby, hcontent⟩ :=
      h.content pending rfl message queued (hnext.messages after hafter message queued hread)
    exact ⟨m, fromNr, toNr, now, hby.snoc _, hcontent⟩
  · intro after hafter pm record hread
    obtain ⟨old, hold, hts⟩ := hnext.records after hafter pm record hread
    obtain ⟨m, fromNr, toNr, hby⟩ := h.time pending rfl pm old hold
    exact ⟨m, fromNr, toNr, hts ▸ hby.snoc _⟩
  · intro entry hentry message fromMac toMac packets hmem
    rcases List.mem_append.mp hentry with hold | hnew
    · obtain ⟨reply, hreply, hsentAs⟩ := h.sent entry hold message fromMac toMac packets hmem
      exact ⟨reply, hreply, hsentAs.snoc _⟩
    · obtain rfl := List.mem_singleton.mp hnew
      obtain ⟨⟨reply, hreply, hsentAs⟩, -⟩ := hsent message fromMac toMac packets hmem
      exact ⟨reply, hreply, hsentAs.snoc _⟩
  · intro message fromMac toMac hmem
    rw [effectsIn_snoc] at hmem
    rcases List.mem_append.mp hmem with hold | hnew
    · exact absurd (h.ended message fromMac toMac hold) (by simp)
    · exact (hsent message fromMac toMac none hnew).2 rfl
  · intro message hmem
    rw [effectsIn_snoc] at hmem
    rcases List.mem_append.mp hmem with hold | hnew
    · exact (h.released message hold).snoc _
    · exact hreleased message hnew

/-- A step that does nothing that counts. -/
theorem Provenance.quiet {pending : Pending} (h : Provenance config trace (some pending))
    {next : Option Pending} (hnext : Inherits pending next)
    (heffects : ∀ effect ∈ effects, effect = .fault ∨ ∃ text, effect = .startResolve text) :
    Provenance config (trace ++ [(event, effects)]) next := by
  refine h.extend hnext ?_ ?_ ?_
  · intro pm message fromNr toNr hmem
    simpa using heffects _ hmem
  · intro message fromMac toMac packets hmem
    simpa using heffects _ hmem
  · intro message hmem
    simpa using heffects _ hmem

end Trace

/-! ### The threads -/

section Threads

variable {config : OutConfig} {trace : OutTrace} {pending : Pending}

/-- A packet that is being queued. -/
theorem Provenance.enqueue (h : Provenance config trace (some pending))
    (hpending : PendingInvariant trace pending) {m : DownMessage} {queued : QueuedMsg}
    (hqueued : queuedMsg m = some queued) (fromNr toNr now : UInt64) {requests : List OutEffect}
    (hrequests : OnlyRequests requests) :
    let next := enqueue now queued fromNr toNr pending
    Provenance config
      (trace ++ [(.packet m (some fromNr) (some toNr) now, requests ++ next.2)]) (some next.1) := by
  intro next
  have hnew : QueuedBy (trace ++ [(.packet m (some fromNr) (some toNr) now, requests ++ next.2)])
      pending.records.next m fromNr toNr now := by
    refine ⟨_, List.mem_append_right _ List.mem_cons_self, List.mem_append_right _ ?_⟩
    change _ ∈ [OutEffect.queued pending.records.next pending.messages.next fromNr toNr]
    rw [hpending.paired]
    exact List.mem_cons_self
  have hbefore : ∀ {message : ℕ} {m' : DownMessage} {fromNr' toNr' now' : UInt64},
      QueuedBy (trace ++ [(.packet m (some fromNr) (some toNr) now, requests ++ next.2)]) message m'
        fromNr' toNr' now' → (QueuedBy trace message m' fromNr' toNr' now' ∧
          message < pending.records.next) ∨
        (message = pending.records.next ∧ m' = m ∧ now' = now) := by
    intro message m' fromNr' toNr' now' hby
    rcases hby.of_snoc with hold | ⟨hevent, hmem⟩
    · exact Or.inl ⟨hold, (hpending.queued _ _ _ _ hold.mem).2⟩
    · simp only [OutEvent.packet.injEq] at hevent
      obtain ⟨rfl, -, -, rfl⟩ := hevent
      rcases List.mem_append.mp hmem with hrequest | hlast
      · exact absurd hrequest (hrequests.not_mem (by simp))
      · have hequal := List.mem_singleton.mp hlast
        simp only [OutEffect.queued.injEq] at hequal
        exact Or.inr ⟨hequal.1, rfl, rfl⟩
  refine ⟨?_, ?_, ?_, ?_, ?_, ?_⟩
  · intro message m' fromNr' toNr' now' m'' fromNr'' toNr'' now'' hfirst hsecond
    rcases hbefore hfirst with ⟨hold, hlt⟩ | ⟨rfl, rfl, rfl⟩
    · rcases hbefore hsecond with ⟨hold', -⟩ | ⟨rfl, -, -⟩
      · exact h.unique _ _ _ _ _ _ _ _ _ hold hold'
      · exact absurd hlt (lt_irrefl _)
    · rcases hbefore hsecond with ⟨-, hlt⟩ | ⟨-, rfl, rfl⟩
      · exact absurd hlt (lt_irrefl _)
      · exact ⟨rfl, rfl⟩
  · intro after hafter message content hread
    obtain rfl := Option.some.inj hafter
    simp only [next, Ip4.enqueue, Heap.read_alloc] at hread
    split_ifs at hread with hequal
    · rw [hequal, ← hpending.paired, ← Option.some.inj hread]
      exact ⟨m, fromNr, toNr, now, hnew, hqueued⟩
    · obtain ⟨m', fromNr', toNr', now', hby, hcontent⟩ :=
        h.content pending rfl message content hread
      exact ⟨m', fromNr', toNr', now', hby.snoc _, hcontent⟩
  · intro after hafter pm record hread
    obtain rfl := Option.some.inj hafter
    simp only [next, Ip4.enqueue, Heap.read_alloc] at hread
    split_ifs at hread with hequal
    · rw [hequal, ← Option.some.inj hread]
      exact ⟨m, fromNr, toNr, hnew⟩
    · obtain ⟨m', fromNr', toNr', hby⟩ := h.time pending rfl pm record hread
      exact ⟨m', fromNr', toNr', hby.snoc _⟩
  · intro entry hentry message fromMac toMac packets hmem
    rcases List.mem_append.mp hentry with hold | hlast
    · obtain ⟨reply, hreply, hsentAs⟩ := h.sent entry hold message fromMac toMac packets hmem
      exact ⟨reply, hreply, hsentAs.snoc _⟩
    · rw [List.mem_singleton.mp hlast] at hmem
      rcases List.mem_append.mp hmem with hrequest | hqueue
      · exact absurd hrequest (hrequests.not_mem (by simp))
      · simp [next, Ip4.enqueue] at hqueue
  · intro message fromMac toMac hmem
    rw [effectsIn_snoc] at hmem
    rcases List.mem_append.mp hmem with hold | hlast
    · exact absurd (h.ended message fromMac toMac hold) (by simp)
    · rcases List.mem_append.mp hlast with hrequest | hqueue
      · exact absurd hrequest (hrequests.not_mem (by simp))
      · simp [next, Ip4.enqueue] at hqueue
  · intro message hmem
    rw [effectsIn_snoc] at hmem
    rcases List.mem_append.mp hmem with hold | hlast
    · exact (h.released message hold).snoc _
    · rcases List.mem_append.mp hlast with hrequest | hqueue
      · exact absurd hrequest (hrequests.not_mem (by simp))
      · simp [next, Ip4.enqueue] at hqueue

/-- A message of an upper layer. -/
theorem Provenance.newPacket (h : Provenance config trace (some pending))
    (hpending : PendingInvariant trace pending) (m : DownMessage)
    (fromMsgNr toMsgNr : Option UInt64) (now : UInt64) :
    let next := newPacket config now m fromMsgNr toMsgNr pending
    Provenance config (trace ++ [(.packet m fromMsgNr toMsgNr now, next.2)]) (some next.1) := by
  intro next
  have hidle : ∀ effects, OnlyRequests effects →
      Provenance config (trace ++ [(.packet m fromMsgNr toMsgNr now, effects)]) (some pending) :=
    fun effects heffects ↦ h.quiet (inherits_of_eq rfl rfl) fun effect heffect ↦
      Or.inr (heffects effect heffect)
  simp only [next, Ip4.newPacket]
  cases hqueued : queuedMsg m with
  | none => exact hidle [] onlyRequests_nil
  | some queued =>
    dsimp only
    have hrequests : OnlyRequests (startResolve queued.source fromMsgNr ++
        startResolve (via config queued.destination) toMsgNr) :=
      List.forall_mem_append.mpr
        ⟨onlyRequests_startResolve _ fromMsgNr, onlyRequests_startResolve _ toMsgNr⟩
    cases fromMsgNr with
    | none => exact hidle _ hrequests
    | some fromNr =>
      cases toMsgNr with
      | none => exact hidle _ hrequests
      | some toNr => exact h.enqueue hpending hqueued fromNr toNr now hrequests

/-- Filling in an answer keeps the time and the message of a record. -/
theorem fillIn_keeps {record filled : PendingMsg} {msgNr : UInt64} {mac : List UInt8}
    (h : fillIn record msgNr mac = some filled) :
    filled.ts = record.ts ∧ filled.queuedMsg = record.queuedMsg := by
  unfold fillIn at h
  split_ifs at h
  · rw [← Option.some.inj h]
    exact ⟨rfl, rfl⟩
  · rw [← Option.some.inj h]
    exact ⟨rfl, rfl⟩

/-- The objects with an answer filled in. -/
theorem inherits_filled {pm : ℕ} {record filled : PendingMsg}
    (hread : pending.records.read pm = some record) (hts : filled.ts = record.ts)
    (table : Std.ExtTreeMap UInt64 ℕ) :
    Inherits pending (some ⟨table, pending.records.write pm filled, pending.messages⟩) := by
  constructor
  · rintro after hafter message queued hmessage
    obtain rfl := Option.some.inj hafter
    exact hmessage
  · rintro after hafter other found hfound
    obtain rfl := Option.some.inj hafter
    dsimp only at hfound
    rw [Heap.read_write hread] at hfound
    split_ifs at hfound with hequal
    · exact ⟨record, hequal ▸ hread, by rw [← hts, Option.some.inj hfound]⟩
    · exact ⟨found, hfound, rfl⟩

/-- The objects with a record and its message deleted. -/
theorem inherits_deleted {pm message : ℕ} {record filled : PendingMsg}
    (hread : pending.records.read pm = some record) (table : Std.ExtTreeMap UInt64 ℕ) :
    Inherits pending (some ⟨table, (pending.records.write pm filled).free pm,
      pending.messages.free message⟩) := by
  constructor
  · rintro after hafter other queued hmessage
    obtain rfl := Option.some.inj hafter
    dsimp only at hmessage
    rw [Heap.read_free] at hmessage
    split_ifs at hmessage
    exact hmessage
  · rintro after hafter other found hfound
    obtain rfl := Option.some.inj hafter
    dsimp only at hfound
    rw [Heap.read_free, Heap.read_write hread] at hfound
    split_ifs at hfound with hequal
    exact ⟨found, hfound, rfl⟩

/-- The last answer of a record: what is sent are the fragments of its message. -/
theorem Provenance.sendPending (h : Provenance config trace (some pending))
    (reply : ResolverReply) {pm : ℕ} {record filled : PendingMsg}
    (hread : pending.records.read pm = some record) (fromMac toMac : List UInt8) :
    let result := sendPending config reply pm filled fromMac toMac
      { pending with records := pending.records.write pm filled }
    Provenance config (trace ++ [(.reply reply, result.2)]) result.1 := by
  intro result
  simp only [result, Ip4.sendPending]
  cases hmessage : pending.messages.read filled.queuedMsg with
  | none => exact h.quiet (inherits_none pending) (by simp)
  | some content =>
    obtain ⟨m, fromNr, toNr, now, hby, hcontent⟩ :=
      h.content pending rfl filled.queuedMsg content hmessage
    have hsender : m.sender = content.sender := by
      unfold queuedMsg at hcontent
      split_ifs at hcontent
      rw [← Option.some.inj hcontent]
    -- every effect of sending is the transmission of this message
    have hmade : ∀ message sentFrom sentTo packets,
        .transmit message sentFrom sentTo packets ∈
          transmitMsg config reply filled.queuedMsg content fromMac toMac →
        SentAs config trace reply message packets := by
      intro message sentFrom sentTo packets hmem
      unfold transmitMsg at hmem
      cases hprotocol : config.mappingsOut content.sender with
      | none => simp [hprotocol] at hmem
      | some protocol =>
        simp only [hprotocol, List.mem_singleton, OutEffect.transmit.injEq] at hmem
        obtain ⟨rfl, -, -, rfl⟩ := hmem
        exact ⟨m, fromNr, toNr, now, content, protocol, hby, hcontent, hsender ▸ hprotocol, rfl⟩
    have hnot : ∀ effect ∈ transmitMsg config reply filled.queuedMsg content fromMac toMac,
        ∃ packets, effect = .transmit filled.queuedMsg fromMac toMac packets :=
      (sentFor_transmitMsg config reply filled.queuedMsg content fromMac toMac).only
    dsimp only
    by_cases hhangs : hangs (transmitMsg config reply filled.queuedMsg content fromMac toMac) = true
    · rw [if_pos hhangs]
      refine h.extend (inherits_none pending) ?_ ?_ ?_
      · intro pm' message fromNr' toNr' hmem
        obtain ⟨packets, hpackets⟩ := hnot _ hmem
        exact absurd hpackets (by simp)
      · exact fun message sentFrom sentTo packets hmem ↦
          ⟨⟨reply, rfl, hmade message sentFrom sentTo packets hmem⟩, fun _ ↦ rfl⟩
      · intro message hmem
        obtain ⟨packets, hpackets⟩ := hnot _ hmem
        exact absurd hpackets (by simp)
    · rw [if_neg hhangs]
      refine h.extend (inherits_deleted hread _) ?_ ?_ ?_
      · intro pm' message fromNr' toNr' hmem
        rcases List.mem_append.mp hmem with hsent | hlast
        · obtain ⟨packets, hpackets⟩ := hnot _ hsent
          exact absurd hpackets (by simp)
        · simp at hlast
      · intro message sentFrom sentTo packets hmem
        have hsent := (List.mem_append.mp hmem).resolve_right (by simp)
        refine ⟨⟨reply, rfl, hmade message sentFrom sentTo packets hsent⟩, ?_⟩
        rintro rfl
        exact absurd (List.any_eq_true.mpr ⟨_, hsent, rfl⟩) hhangs
      · intro message hmem
        rcases List.mem_append.mp hmem with hsent | hlast
        · obtain ⟨packets, hpackets⟩ := hnot _ hsent
          exact absurd hpackets (by simp)
        obtain rfl : message = filled.queuedMsg := by simpa using hlast
        refine ⟨m, fromNr, toNr, now, hby.snoc _, ?_⟩
        cases hprotocol : config.mappingsOut m.sender with
        | none => exact Or.inl rfl
        | some protocol =>
          refine Or.inr (Or.inl ⟨fromMac, toMac, fragmentLoop reply.accepts config.mtuSize
            ⟨reply.packetsId, protocol, content.source, content.destination, content.pl⟩
            reply.turns 0 0, ?_⟩)
          rw [effectsIn_snoc]
          refine List.mem_append_right _ (List.mem_append_left _ ?_)
          rw [transmitMsg, ← hsender, hprotocol]
          exact List.mem_cons_self

/-- A reply of the resolver. -/
theorem Provenance.resolverReply (h : Provenance config trace (some pending))
    (reply : ResolverReply) :
    Provenance config (trace ++ [(.reply reply, (resolverReply config reply pending).2)])
      (resolverReply config reply pending).1 := by
  have hsame : Provenance config (trace ++ [(.reply reply, [])]) (some pending) :=
    h.quiet (inherits_of_eq rfl rfl) (List.forall_mem_nil _)
  unfold Ip4.resolverReply
  cases pending.pendingMessages[reply.msgNr]? with
  | none => exact hsame
  | some pm =>
    dsimp only
    cases macAnswer reply with
    | invalid => exact hsame
    | exception => exact h.quiet (inherits_none pending) (List.forall_mem_nil _)
    | mac bytes =>
      cases hread : pending.records.read pm with
      | none => exact h.quiet (inherits_none pending) (by simp)
      | some record =>
        dsimp only
        cases hfill : fillIn record reply.msgNr bytes with
        | none => exact h.quiet (inherits_of_eq rfl rfl) (List.forall_mem_nil _)
        | some filled =>
          have hts := (fillIn_keeps hfill).1
          dsimp only
          cases filled.fromMac with
          | none => exact h.quiet (inherits_filled hread hts _) (List.forall_mem_nil _)
          | some fromMac =>
            cases filled.toMac with
            | none => exact h.quiet (inherits_filled hread hts _) (List.forall_mem_nil _)
            | some toMac => exact h.sendPending reply hread fromMac toMac

/-- What the cleaner's loop over entries of the table releases: messages of records that are too
old. -/
theorem cleanEntry_releases (now : UInt64) (records : Heap PendingMsg)
    (entries : List (UInt64 × ℕ)) (cleaning : Cleaning)
    (hbefore : ∀ effect ∈ cleaning.effects, effect = .fault ∨ ∃ pm record,
      effect = .release record.queuedMsg ∧ records.read pm = some record ∧
        arpTimeout ≤ now - record.ts) :
    let cleaned := entries.foldl (cleanEntry now records) cleaning
    (∀ effect ∈ cleaned.effects, effect = .fault ∨ ∃ pm record,
      effect = .release record.queuedMsg ∧ records.read pm = some record ∧
        arpTimeout ≤ now - record.ts) ∧
      ∀ message queued, cleaned.messages.read message = some queued →
        cleaning.messages.read message = some queued := by
  induction entries generalizing cleaning with
  | nil => exact ⟨hbefore, fun _ _ hread ↦ hread⟩
  | cons entry rest ih =>
    dsimp only
    rw [List.foldl_cons]
    have hstep : (∀ effect ∈ (cleanEntry now records cleaning entry).effects, effect = .fault ∨
        ∃ pm record, effect = .release record.queuedMsg ∧ records.read pm = some record ∧
          arpTimeout ≤ now - record.ts) ∧
        ∀ message queued, (cleanEntry now records cleaning entry).messages.read message =
          some queued → cleaning.messages.read message = some queued := by
      unfold cleanEntry
      split_ifs with hskip
      · exact ⟨hbefore, fun _ _ hread ↦ hread⟩
      · cases hrecord : records.read entry.2 with
        | none =>
          refine ⟨?_, fun _ _ hread ↦ hread⟩
          exact List.forall_mem_append.mpr ⟨hbefore, by simp⟩
        | some record =>
          dsimp only
          split_ifs with hold hsome
          · refine ⟨List.forall_mem_append.mpr ⟨hbefore, ?_⟩, ?_⟩
            · simp only [List.forall_mem_singleton]
              exact Or.inr ⟨entry.2, record, rfl, hrecord, hold⟩
            · intro message queued hread
              dsimp only at hread
              rw [Heap.read_free] at hread
              split_ifs at hread
              exact hread
          · refine ⟨List.forall_mem_append.mpr ⟨hbefore, by simp⟩, ?_⟩
            intro message queued hread
            dsimp only at hread
            rw [Heap.read_free] at hread
            split_ifs at hread
            exact hread
          · exact ⟨hbefore, fun _ _ hread ↦ hread⟩
    obtain ⟨heffects, hmessages⟩ := ih _ hstep.1
    exact ⟨heffects, fun message queued hread ↦ hstep.2 _ _ (hmessages message queued hread)⟩

/-- A pass of the cleaner. -/
theorem Provenance.cleanPending (h : Provenance config trace (some pending))
    (hpending : PendingInvariant trace pending) (now : UInt64) :
    Provenance config (trace ++ [(.cleaner now, (cleanPending now pending).2)])
      (if .fault ∈ (cleanPending now pending).2 then none
        else some (cleanPending now pending).1) := by
  obtain ⟨heffects, hmessages⟩ := cleanEntry_releases now pending.records
    pending.pendingMessages.toList ⟨[], pending.messages, []⟩ (List.forall_mem_nil _)
  have hinherits : Inherits pending (some (Ip4.cleanPending now pending).1) := by
    constructor
    · rintro after hafter message queued hread
      obtain rfl := Option.some.inj hafter
      exact hmessages message queued hread
    · rintro after hafter pm record hread
      obtain rfl := Option.some.inj hafter
      exact ⟨record, hread, rfl⟩
  have hnext : Inherits pending (if .fault ∈ (Ip4.cleanPending now pending).2 then none
      else some (Ip4.cleanPending now pending).1) := by
    split_ifs
    · exact inherits_none pending
    · exact hinherits
  refine h.extend hnext ?_ ?_ ?_
  · intro pm message fromNr toNr hmem
    simpa using heffects _ hmem
  · intro message fromMac toMac packets hmem
    simpa using heffects _ hmem
  · intro message hmem
    obtain ⟨pm, record, hequal, hread, hold⟩ := (heffects _ hmem).resolve_left (by simp)
    obtain ⟨m, fromNr, toNr, hby⟩ := h.time pending rfl pm record hread
    obtain rfl : message = pm := by
      have hown := hpending.own pm record hread
      simpa [hown] using hequal
    refine ⟨m, fromNr, toNr, record.ts, hby.snoc _,
      Or.inr (Or.inr ⟨now, (Ip4.cleanPending now pending).2, ?_, hold⟩)⟩
    rw [sinceQueued_snoc_of_queued hby]
    exact List.mem_append_right _ List.mem_cons_self

/-- Every step keeps what the objects have to do with the events. -/
theorem provenance_step {state : Option Pending} (h : Provenance config trace state)
    (hinvariant : OutInvariant trace state) (event : OutEvent) :
    Provenance config (trace ++ [(event, (outStep config state event).2)])
      (outStep config state event).1 := by
  cases state with
  | none =>
    -- nothing follows the end of the run
    have hbefore : ∀ {message : ℕ} {m : DownMessage} {fromNr toNr now : UInt64},
        QueuedBy (trace ++ [(event, [])]) message m fromNr toNr now →
          QueuedBy trace message m fromNr toNr now := fun hby ↦
      hby.of_snoc.resolve_right fun hnow ↦ absurd hnow.2 List.not_mem_nil
    have heffects : effectsIn (trace ++ [(event, [])]) = effectsIn trace := by
      rw [effectsIn_snoc, List.append_nil]
    change Provenance config (trace ++ [(event, [])]) none
    refine ⟨?_, by simp, by simp, ?_, fun _ _ _ _ ↦ rfl, ?_⟩
    · intro message m fromNr toNr now m' fromNr' toNr' now' hfirst hsecond
      exact h.unique _ _ _ _ _ _ _ _ _ (hbefore hfirst) (hbefore hsecond)
    · intro entry hentry message fromMac toMac packets hmem
      rcases List.mem_append.mp hentry with hold | hnew
      · obtain ⟨reply, hreply, hsentAs⟩ := h.sent entry hold message fromMac toMac packets hmem
        exact ⟨reply, hreply, hsentAs.snoc _⟩
      · rw [List.mem_singleton.mp hnew] at hmem
        exact absurd hmem List.not_mem_nil
    · intro message hmem
      rw [heffects] at hmem
      exact (h.released message hmem).snoc _
  | some pending =>
    cases event with
    | packet m fromMsgNr toMsgNr now => exact h.newPacket hinvariant.2 m fromMsgNr toMsgNr now
    | reply reply => exact h.resolverReply reply
    | cleaner now => exact h.cleanPending hinvariant.2 now

end Threads

/-! ### Answered packets -/

/-- What a run has done: the bookkeeping of the packets that wait, and what was sent of what. -/
theorem run_provenance (config : OutConfig) {events : List OutEvent}
    (hfresh : Along (traced (outStep config)) FreshNumbers (some Pending.start) events) :
    let final := run (traced (outStep config)) (some Pending.start) events
    OutInvariant final.2 final.1 ∧ Provenance config final.2 final.1 := by
  refine run_induction
    (P := fun _ state trace ↦ OutInvariant trace state ∧ Provenance config trace state) ?_ ?_ hfresh
  · refine ⟨⟨⟨by simp [effectsIn], by simp [effectsIn]⟩, pendingInvariant_start⟩, ?_⟩
    refine ⟨by simp [QueuedBy], ?_, ?_, by simp, by simp [effectsIn], by simp [effectsIn]⟩
    · rintro pending hpending message queued hread
      obtain rfl := Option.some.inj hpending
      simp [Pending.start] at hread
    · rintro pending hpending pm record hread
      obtain rfl := Option.some.inj hpending
      simp [Pending.start] at hread
  · rintro _ state trace event ⟨hinvariant, hprovenance⟩ hnumbers
    exact ⟨outStep_invariant config hinvariant hnumbers,
      provenance_step hprovenance hinvariant event⟩

/-- A packet whose two addresses were answered is sent. Assumes: a packet's two requests get numbers
that differ and that are not those of a packet that still waits, the run goes on, the sender has a
protocol, both requests were answered, and every pass of the cleaner since the packet was queued
came within `arp_timeout`. The packet is sent exactly once, by a reply of the resolver, between the
first answers to its requests; what is sent are the fragments of what the upper layer handed over,
between its addresses and under the protocol of its sender. -/
theorem answered_packets_are_sent (config : OutConfig) {events : List OutEvent}
    (hfresh : Along (traced (outStep config)) FreshNumbers (some Pending.start) events)
    (hgoes : (run (traced (outStep config)) (some Pending.start) events).1.isSome = true)
    {trace : OutTrace}
    (htrace : (run (traced (outStep config)) (some Pending.start) events).2 = trace)
    {m : DownMessage} {fromNr toNr now : UInt64} {effects : List OutEffect} {message : ℕ}
    (hpacket : (.packet m (some fromNr) (some toNr) now, effects) ∈ trace)
    (hqueued : .queued message message fromNr toNr ∈ effects)
    (hmapped : config.mappingsOut m.sender ≠ none) (hfrom : answers message fromNr trace ≠ [])
    (hto : answers message toNr trace ≠ [])
    (htime : ∀ later cleaned, (.cleaner later, cleaned) ∈ sinceQueued message trace →
      later - now < arpTimeout) :
    (effectsIn trace).countP (transmits message) = 1 ∧
    ∃ reply sent fromMac toMac packets source destination protocol,
      (.reply reply, sent) ∈ trace ∧ .transmit message fromMac toMac (some packets) ∈ sent ∧
      (answers message fromNr trace).head? = some fromMac ∧
      (answers message toNr trace).head? = some toMac ∧
      source.bytes = m.fromAddr ∧ destination.bytes = m.toAddr ∧
      config.mappingsOut m.sender = some protocol ∧
      fragmentLoop reply.accepts config.mtuSize
        ⟨reply.packetsId, protocol, source, destination, m.pl⟩ reply.turns 0 0 = some packets := by
  obtain ⟨hinvariant, hprovenance⟩ := run_provenance config hfresh
  obtain ⟨pending, hstate⟩ := Option.isSome_iff_exists.mp hgoes
  rw [hstate, htrace] at hinvariant hprovenance
  obtain ⟨hhistory, hpending⟩ : HistoryInvariant trace ∧ PendingInvariant trace pending :=
    hinvariant
  have hby : QueuedBy trace message m fromNr toNr now := ⟨effects, hpacket, hqueued⟩
  -- a record that is still there waits for an answer
  have hreleased : .release message ∈ effectsIn trace := by
    rw [hpending.release_mem_iff hby.mem]
    intro record hlive
    have hrecord := hpending.record message record hlive
    have hnumbers := hrecord.queued
    rw [hpending.own message record hlive.1] at hnumbers
    obtain ⟨hsameFrom, hsameTo⟩ :=
      hpending.queued_unique _ _ _ _ _ _ _ hby.mem hnumbers
    obtain ⟨key, hwaits⟩ := hrecord.waiting
    rcases (hrecord.waits_iff key).mp hwaits with ⟨-, hnone⟩ | ⟨-, hnone⟩
    · exact hfrom (hsameFrom ▸ hnone)
    · exact hto (hsameTo ▸ hnone)
  obtain ⟨m', fromNr', toNr', now', hby', hreason⟩ := hprovenance.released message hreleased
  obtain ⟨rfl, rfl⟩ := hprovenance.unique _ _ _ _ _ _ _ _ _ hby hby'
  obtain ⟨fromMac, toMac, packets, hsent⟩ : ∃ fromMac toMac packets,
      .transmit message fromMac toMac packets ∈ effectsIn trace := by
    rcases hreason with hunmapped | hsent | ⟨later, cleaned, hmem, hold⟩
    · exact absurd hunmapped hmapped
    · exact hsent
    · exact absurd hold (UInt64.not_le.mpr (htime later cleaned hmem))
  obtain ⟨pm, sentFromNr, sentToNr, hsentQueued, hfirst, hsecond⟩ :=
    hhistory.transmitted message fromMac toMac packets hsent
  obtain ⟨rfl, -⟩ := hpending.queued _ _ _ _ hsentQueued
  obtain ⟨rfl, rfl⟩ := hpending.queued_unique _ _ _ _ _ _ _ hby.mem hsentQueued
  obtain ⟨entry, hentry, hmem⟩ := List.mem_flatMap.mp hsent
  obtain ⟨reply, hreply, m', fromNr', toNr', now', queued, protocol, hby', hcontent, hprotocol,
    hpackets⟩ := hprovenance.sent entry hentry _ fromMac toMac packets hmem
  obtain ⟨rfl, rfl⟩ := hprovenance.unique _ _ _ _ _ _ _ _ _ hby hby'
  have honce := (hpending.once pm).1
  have hpositive : 0 < (effectsIn trace).countP (transmits pm) :=
    List.countP_pos_iff.mpr ⟨_, hsent, beq_self_eq_true pm⟩
  refine ⟨by omega, ?_⟩
  cases packets with
  | none => exact absurd (hprovenance.ended pm fromMac toMac hsent) (by simp)
  | some packets =>
    unfold queuedMsg at hcontent
    split_ifs at hcontent with hlengths
    obtain rfl := Option.some.inj hcontent
    obtain ⟨event, sent⟩ := entry
    obtain rfl : event = .reply reply := hreply
    exact ⟨reply, sent, fromMac, toMac, packets, _, _, protocol, hentry, hmem, hfirst, hsecond, rfl,
      rfl, hprotocol, hpackets.symm⟩

/-- The entry is no pass of the cleaner that is late for a packet of the time zero. -/
def cleansEarly (entry : OutEvent × List OutEffect) : Bool :=
  match entry.1 with
  | .cleaner later => decide (later - 0 < arpTimeout)
  | _ => true

/-- A packet whose second request is answered first, and the first one after a pass of the cleaner,
twice. -/
theorem answered_packets_are_sent_out_of_order :
    let events : List OutEvent := [
      .packet ⟨ascii "udp", [192, 168, 1, 1], [192, 168, 1, 2], [1, 2, 3]⟩ (some 5) (some 6) 0,
      sampleReply 6 "ip4:192.168.1.2=mac:02:00:00:00:00:02", .cleaner 1000000,
      sampleReply 5 "ip4:192.168.1.1=mac:02:00:00:00:00:01",
      sampleReply 5 "ip4:192.168.1.1=mac:02:00:00:00:00:01"]
    (effectsIn (run (traced (outStep sampleOutConfig)) (some Pending.start) events).2).countP
      (transmits 0) = 1 := by
  intro events
  have hfresh : Along (traced (outStep sampleOutConfig)) FreshNumbers (some Pending.start)
      events := by
    refine ⟨⟨by decide, fun pm record hlive ↦ ?_⟩, ?_, ?_, ?_, ?_, trivial⟩
    · simp [Pending.Live, Pending.start] at hlive
    all_goals
      unfold FreshNumbers
      split
      · simp_all [sampleReply]
      · trivial
  have htime : ((sinceQueued 0 (run (traced (outStep sampleOutConfig)) (some Pending.start)
      events).2).all cleansEarly) = true := by
    decide +kernel
  exact (answered_packets_are_sent sampleOutConfig hfresh (by decide +kernel) rfl
    (m := ⟨ascii "udp", [192, 168, 1, 1], [192, 168, 1, 2], [1, 2, 3]⟩) List.mem_cons_self
    (by decide +kernel) (by decide +kernel) (by decide +kernel) (by decide +kernel)
    (fun later cleaned hmem ↦ by
      simpa [cleansEarly] using List.all_eq_true.mp htime _ hmem)).1

end MyIPNG.Ip4
