import MyIPNG.Tcp.Connection

/-!
# What is outstanding between two servers

`Direction` says what the two ends of a connection agree on. To see that a connection can always go
on, one has to know in addition what is still on its way. `Outstanding` says so for a sender whose
application does not end the stream and whose numbers do not run over: what is in flight is a
segment that the network has, no segment from the front of the buffer is longer than that one, and
whatever the receiver has got beyond the front came in one segment from the front. So every
acknowledgement that the receiver can still send is either old, or it acknowledges at most what is
in flight.
-/

set_option autoImplicit false
set_option relaxedAutoImplicit false

namespace MyIPNG.Tcp

open Base Utils

/-! ### Numbers that do not run over -/

section Numbers

variable {start : UInt32} {first second : ℕ}

theorem toNat_number (h : start.toNat + first < 2 ^ 32) :
    (start + UInt32.ofNat first).toNat = start.toNat + first := by
  rw [UInt32.toNat_add, UInt32.toNat_ofNat', Nat.mod_eq_of_lt (by omega : first < 2 ^ 32)]
  exact Nat.mod_eq_of_lt h

theorem number_le_iff (hfirst : start.toNat + first < 2 ^ 32)
    (hsecond : start.toNat + second < 2 ^ 32) :
    start + UInt32.ofNat first ≤ start + UInt32.ofNat second ↔ first ≤ second := by
  rw [UInt32.le_iff_toNat_le, toNat_number hfirst, toNat_number hsecond]
  exact Nat.add_le_add_iff_left

/-- The distance between two numbers is that of their positions. -/
theorem offset_numbers (h : first ≤ second) (hsecond : start.toNat + second < 2 ^ 32) :
    offset (start + UInt32.ofNat first) (start + UInt32.ofNat second) = second - first := by
  have hsplit : start + UInt32.ofNat second =
      start + UInt32.ofNat first + UInt32.ofNat (second - first) := by
    rw [add_ofNat_add, Nat.add_sub_cancel' h]
  rw [hsplit]
  exact offset_add _ (by omega)

end Numbers

/-! ### The invariant -/

/-- The network can carry the segment: the addresses have four bytes, and it is not too long. -/
structure Sendable (out : OutSegment) : Prop where
  fromAddr : out.fromAddr.length = 4
  toAddr : out.toAddr.length = 4
  short : out.payload.length ≤ 65536

/-- What is outstanding when the front of the buffer is at the position `acked`. -/
structure Outstanding (start : UInt32) (sender : Session) (sent got : Trace) (acked : ℕ) :
    Prop where
  addresses : sender.localAddr.length = 4 ∧ sender.peerAddr.length = 4
  notEnded : sender.l7SendFin = false ∧ sender.finSent = false
  room : start.toNat + (writtenIn sent).length < 2 ^ 32
  number : sender.localSeq = start + UInt32.ofNat acked
  data_eq : sender.l7ToTcp.data = (writtenIn sent).drop acked
  handed_le : (handedBytes got).length ≤ (writtenIn sent).length
  acked_le : acked ≤ (handedBytes got).length
  offers : ∀ out ∈ emittedIn sent, out.payload ≠ [] →
    ∃ position ≤ acked, out.seqNr = start + UInt32.ofNat position
  front : ∀ out ∈ emittedIn sent, out.payload ≠ [] → out.seqNr = sender.localSeq →
    out.payload.length ≤ (visitPayload sender).length ∧
      (sender.inFlight ≠ 0 → out.payload.length ≤ sender.inFlight)
  flying : sender.inFlight ≠ 0 → ∃ out ∈ emittedIn sent, Sendable out ∧
    out.seqNr = sender.localSeq ∧ out.payload.length = sender.inFlight ∧
      hasFlag out.flags flagAck = true
  edge : (handedBytes got).length = acked ∨ ∃ out ∈ emittedIn sent, out.payload ≠ [] ∧
    out.seqNr = sender.localSeq ∧ acked + out.payload.length = (handedBytes got).length
  acks : ∀ out ∈ emittedIn got, ∃ count, out.ackNr = start + UInt32.ofNat count ∧
    (count ≤ acked ∨ count = (handedBytes got).length)

section Sender

variable {start : UInt32} {sender next : Session} {sent got : Trace} {acked : ℕ}

theorem visitPayload_eq {session next : Session} (h : SameSending session next) :
    visitPayload next = visitPayload session := by
  rw [visitPayload, h.l7ToTcp_eq, h.mss_eq, visitPayload]

/-- The invariant reads the sending side and the addresses. -/
theorem Outstanding.same (h : Outstanding start sender sent got acked)
    (hsame : SameSending sender next)
    (haddresses : next.localAddr = sender.localAddr ∧ next.peerAddr = sender.peerAddr) :
    Outstanding start next sent got acked := by
  refine ⟨?_, ?_, h.room, ?_, ?_, h.handed_le, h.acked_le, h.offers, ?_, ?_, ?_, h.acks⟩
  · rw [haddresses.1, haddresses.2]
    exact h.addresses
  · rw [hsame.l7SendFin_eq, hsame.finSent_eq]
    exact h.notEnded
  · rw [hsame.localSeq_eq]
    exact h.number
  · rw [hsame.l7ToTcp_eq]
    exact h.data_eq
  · rw [hsame.localSeq_eq, hsame.inFlight_eq, visitPayload_eq hsame]
    exact h.front
  · rw [hsame.localSeq_eq, hsame.inFlight_eq]
    exact h.flying
  · rw [hsame.localSeq_eq]
    exact h.edge

/-- The history of the sender goes on with nothing written and only replies put out. -/
theorem Outstanding.extend (h : Outstanding start sender sent got acked) {more : Trace}
    (hwritten : writtenIn more = []) (hempty : ∀ out ∈ emittedIn more, out.payload = []) :
    Outstanding start sender (sent ++ more) got acked := by
  have hsame : writtenIn (sent ++ more) = writtenIn sent := by
    rw [writtenIn_append, hwritten, List.append_nil]
  have hold {out : OutSegment} (hout : out ∈ emittedIn (sent ++ more)) (hdata : out.payload ≠ []) :
      out ∈ emittedIn sent := by
    rw [emittedIn_append] at hout
    exact (List.mem_append.mp hout).resolve_right fun hnew ↦ hdata (hempty out hnew)
  have hkept {out : OutSegment} (hout : out ∈ emittedIn sent) :
      out ∈ emittedIn (sent ++ more) := by
    rw [emittedIn_append]
    exact List.mem_append_left _ hout
  refine ⟨h.addresses, h.notEnded, by rw [hsame]; exact h.room, h.number,
    by rw [hsame]; exact h.data_eq, by rw [hsame]; exact h.handed_le, h.acked_le,
    fun out hout hdata ↦ h.offers out (hold hout hdata) hdata,
    fun out hout hdata ↦ h.front out (hold hout hdata) hdata, ?_, ?_, h.acks⟩
  · intro hinFlight
    obtain ⟨out, hout, hflying⟩ := h.flying hinFlight
    exact ⟨out, hkept hout, hflying⟩
  · apply h.edge.imp_right
    rintro ⟨out, hout, hedge⟩
    exact ⟨out, hkept hout, hedge⟩

/-- The sender waits for nothing any more, at the same place. -/
theorem Outstanding.rest (h : Outstanding start sender sent got acked) :
    Outstanding start { sender with inFlight := 0 } sent got acked :=
  ⟨h.addresses, h.notEnded, h.room, h.number, h.data_eq, h.handed_le, h.acked_le, h.offers,
    fun out hout hdata hnumber ↦ ⟨(h.front out hout hdata hnumber).1, fun hne ↦ absurd rfl hne⟩,
    fun hne ↦ absurd rfl hne, h.edge, h.acks⟩

/-- The sender forgets what the receiver has got. -/
theorem Outstanding.forget (h : Outstanding start sender sent got acked)
    (hahead : acked < (handedBytes got).length) :
    Outstanding start { sender with
        l7ToTcp := sender.l7ToTcp.forget ((handedBytes got).length - acked)
        localSeq := start + UInt32.ofNat (handedBytes got).length
        inFlight := 0 } sent got (handedBytes got).length := by
  have hroom := h.room
  have hhanded := h.handed_le
  have hdata : (sender.l7ToTcp.forget ((handedBytes got).length - acked)).data =
      (writtenIn sent).drop (handedBytes got).length := by
    show sender.l7ToTcp.data.drop (min ((handedBytes got).length - acked)
      sender.l7ToTcp.data.length) = _
    have hlength : sender.l7ToTcp.data.length = (writtenIn sent).length - acked := by
      rw [h.data_eq, List.length_drop]
    rw [min_eq_left (by omega), h.data_eq, List.drop_drop,
      Nat.add_sub_cancel' (Nat.le_of_lt hahead)]
  refine ⟨h.addresses, h.notEnded, h.room, rfl, hdata, h.handed_le, le_refl _, ?_, ?_,
    fun hne ↦ absurd rfl hne, Or.inl rfl, ?_⟩
  · intro out hout hsome
    obtain ⟨position, hposition, hnumber⟩ := h.offers out hout hsome
    exact ⟨position, hposition.trans h.acked_le, hnumber⟩
  · -- nothing was sent from the new front
    intro out hout hsome hfront
    obtain ⟨position, hposition, hnumber⟩ := h.offers out hout hsome
    have hsame := (add_ofNat_inj start (by omega) (by omega)).mp (hnumber.symm.trans hfront)
    omega
  · intro out hout
    obtain ⟨count, hnumber, hcount⟩ := h.acks out hout
    refine ⟨count, hnumber, Or.inl ?_⟩
    rcases hcount with hcount | hcount
    · exact hcount.trans h.acked_le
    · exact hcount.le

/-- An acknowledgement that the receiver has sent. -/
theorem Outstanding.ackPending (h : Outstanding start sender sent got acked) {ackSeqNr : UInt32}
    (hack : ∃ out ∈ emittedIn got, out.ackNr = ackSeqNr) :
    ∃ acked', Outstanding start (ackPending sender ackSeqNr).1 sent got acked' := by
  obtain ⟨out, hout, rfl⟩ := hack
  obtain ⟨count, hnumber, hcount⟩ := h.acks out hout
  have hroom := h.room
  have hhanded := h.handed_le
  have hacked := h.acked_le
  rw [hnumber]
  rcases ackPending_cases sender (start + UInt32.ofNat count) with
    ⟨hle, -, heq⟩ | ⟨-, -, heq⟩ | ⟨-, heq⟩
  · rw [h.number, number_le_iff (by omega) (by omega)] at hle
    rw [h.number, offset_numbers hle (by omega)] at heq
    rw [heq]
    by_cases hsame : count = acked
    · refine ⟨acked, ?_⟩
      have hnothing : sender.l7ToTcp.forget (count - acked) = sender.l7ToTcp := by
        rw [hsame, Nat.sub_self]
        simp [TcpData.forget]
      rw [hnothing, hsame, ← h.number]
      exact h.rest
    · obtain rfl : count = (handedBytes got).length := by omega
      exact ⟨_, h.forget (by omega)⟩
  · rw [heq]
    exact ⟨acked, h⟩
  · rw [heq]
    exact ⟨acked, h.rest⟩

/-- A segment without SYN and RST leaves the addresses of an open session alone. -/
theorem addresses_segment (config : Config) (environment : Environment) (sessionId : UInt64)
    {segment : Segment} (hplain : Plain segment) {session : Session}
    (hopen : session.state ≠ .closed) {outputs : List Output}
    (h : sessionStep config sessionId (some session) (.segment environment segment) =
      (some next, outputs)) :
    next.localAddr = session.localAddr ∧ next.peerAddr = session.peerAddr := by
  have hsession := (runInSession_plain config environment sessionId hplain hopen).1
  have hnext : (runInSession config environment sessionId segment session).session = some next :=
    congrArg Prod.fst h
  rw [← Option.some.inj (hsession.symm.trans hnext), afterAck_touched]
  unfold afterAck
  split_ifs
  · rcases ackPending_cases session segment.ackSeqNr with ⟨-, -, heq⟩ | ⟨-, -, heq⟩ | ⟨-, heq⟩
    · rw [heq]
      exact ⟨rfl, rfl⟩
    · rw [heq]
      exact ⟨rfl, rfl⟩
    · rw [heq]
      exact ⟨rfl, rfl⟩
  · exact ⟨rfl, rfl⟩

/-- A packet of the receiver at the sender. -/
theorem Outstanding.sender_segment (h : Outstanding start sender sent got acked)
    {environment : Environment} {segment : Segment} {outputs : List Output}
    (heffect : SegmentEffect environment segment sender next outputs)
    (haddresses : next.localAddr = sender.localAddr ∧ next.peerAddr = sender.peerAddr)
    (hread : ReadFrom got segment) :
    ∃ acked', Outstanding start next (sent ++ [(.segment environment segment, outputs)]) got
      acked' := by
  obtain ⟨out, hout, hdecoded⟩ := hread
  obtain ⟨-, hackNr, -, -⟩ := decodeSegment_fields hdecoded
  have hextended : ∀ {session : Session} {place : ℕ}, Outstanding start session sent got place →
      Outstanding start session (sent ++ [(.segment environment segment, outputs)]) got place := by
    intro session place hplace
    apply hplace.extend rfl
    rw [emittedIn_single]
    exact fun reply hreply ↦ (heffect.outputs.acks reply hreply).1.1
  have hkept : (afterAck segment sender).1.localAddr = sender.localAddr ∧
      (afterAck segment sender).1.peerAddr = sender.peerAddr := by
    unfold afterAck Tcp.ackPending
    dsimp only
    split_ifs <;> exact ⟨rfl, rfl⟩
  by_cases hack : hasFlag segment.flags flagAck = true
  · obtain ⟨acked', hacked⟩ := h.ackPending ⟨out, hout, hackNr.symm⟩
    have hafter : (afterAck segment sender).1 = (Tcp.ackPending sender segment.ackSeqNr).1 := by
      simp [afterAck, hack]
    rw [← hafter] at hacked
    exact ⟨acked', (hextended hacked).same heffect.sending
      ⟨haddresses.1.trans hkept.1.symm, haddresses.2.trans hkept.2.symm⟩⟩
  · have hafter : (afterAck segment sender).1 = sender := by simp [afterAck, hack]
    have hsending := heffect.sending
    rw [hafter] at hsending
    exact ⟨acked, (hextended h).same hsending haddresses⟩

/-- What a write without the FIN flag does. -/
theorem addFromL7_plain {flags : UInt32} (hflags : flags &&& 1 = 0) (session : Session)
    (what : List UInt8) : addFromL7 session flags what = { session with
      l7ToTcp := ⟨session.l7ToTcp.tcpSequenceNr, session.l7ToTcp.data ++ what⟩ } := by
  unfold addFromL7
  rw [if_neg (not_not.mpr hflags)]
  by_cases hempty : what = []
  · rw [if_neg (not_not.mpr hempty), hempty, List.append_nil]
  · rw [if_pos hempty]
    rfl

/-- A write adds to the end of the stream. -/
theorem Outstanding.sender_write (h : Outstanding start sender sent got acked) {flags : UInt32}
    (hflags : flags &&& 1 = 0) {what : List UInt8}
    (hroom : start.toNat + (writtenIn sent).length + what.length < 2 ^ 32) :
    Outstanding start (addFromL7 sender flags what) (sent ++ [(.write flags what, [])]) got
      acked := by
  have hwritten := writtenIn_write sent flags what []
  have hemitted : emittedIn (sent ++ [(.write flags what, [])]) = emittedIn sent := by
    rw [emittedIn_append, emittedIn_single, emitted_nil, List.append_nil]
  have hle := h.acked_le.trans h.handed_le
  rw [addFromL7_plain hflags]
  refine ⟨h.addresses, h.notEnded, ?_, h.number, ?_, ?_, h.acked_le, ?_, ?_, ?_, ?_, h.acks⟩
  · rw [hwritten, List.length_append]
    omega
  · rw [hwritten, List.drop_append_of_le_length hle, ← h.data_eq]
  · rw [hwritten, List.length_append]
    exact h.handed_le.trans (Nat.le_add_right _ _)
  · rw [hemitted]
    exact h.offers
  · rw [hemitted]
    intro out hout hsome hfront
    obtain ⟨hlength, hinFlight⟩ := h.front out hout hsome hfront
    refine ⟨hlength.trans ?_, hinFlight⟩
    simp only [visitPayload, List.length_take, List.length_append]
    omega
  · rw [hemitted]
    exact h.flying
  · rw [hemitted]
    exact h.edge

/-- A visit sends the front of the buffer, and all that was sent from there before is not longer. -/
theorem Outstanding.sender_visit (h : Outstanding start sender sent got acked)
    {accepts : ℕ → Bool} (haccepted : accepts 0 = true) :
    Outstanding start (senderVisit accepts sender).session
      (sent ++ [(.visit accepts, (senderVisit accepts sender).outputs)]) got acked := by
  have hwritten := writtenIn_visit sent accepts (senderVisit accepts sender).outputs
  have hnoFin : visitFin sender = false := by simp [visitFin, h.notEnded.1]
  rw [senderVisit_eq] at hwritten ⊢
  by_cases hsends : Sends sender
  · have hdata : visitPayload sender ≠ [] :=
      hsends.2.resolve_right (by simp [hnoFin])
    rw [if_pos hsends, if_neg (by simp [haccepted]), if_pos haccepted, hnoFin] at hwritten ⊢
    have hemitted : emittedIn (sent ++ [(.visit accepts,
        [.toIp (senderHeader sender (visitPayload sender) false)])]) =
        emittedIn sent ++ [senderHeader sender (visitPayload sender) false] := by
      rw [emittedIn_append, emittedIn_single]
      rfl
    have hlocalSeq : (visited sender).localSeq = sender.localSeq := by simp [visited, hnoFin]
    refine ⟨h.addresses, ⟨h.notEnded.1, hnoFin⟩, by rw [hwritten]; exact h.room,
      hlocalSeq.trans h.number, by rw [hwritten]; exact h.data_eq,
      by rw [hwritten]; exact h.handed_le, h.acked_le, ?_, ?_, ?_, ?_, h.acks⟩
    · rw [hemitted]
      intro out hout hsome
      rcases List.mem_append.mp hout with hold | hnew
      · exact h.offers out hold hsome
      · rw [List.mem_singleton.mp hnew]
        exact ⟨acked, le_refl _, h.number⟩
    · rw [hemitted, hlocalSeq]
      intro out hout hsome hfront
      show out.payload.length ≤ (visitPayload sender).length ∧ _
      rcases List.mem_append.mp hout with hold | hnew
      · have hlength := (h.front out hold hsome hfront).1
        exact ⟨hlength, fun _ ↦ hlength⟩
      · rw [List.mem_singleton.mp hnew]
        exact ⟨le_refl _, fun _ ↦ le_refl _⟩
    · rw [hemitted, hlocalSeq]
      intro _
      refine ⟨_, List.mem_append_right _ (List.mem_singleton_self _),
        ⟨h.addresses.1, h.addresses.2, ?_⟩, rfl, rfl, ?_⟩
      · simp only [senderHeader, visitPayload, List.length_take]
        omega
      · show hasFlag ((if false then flagFin else 0) ||| flagAck ||| flagPsh) flagAck = true
        decide
    · rw [hemitted, hlocalSeq]
      apply h.edge.imp_right
      rintro ⟨out, hout, hedge⟩
      exact ⟨out, List.mem_append_left _ hout, hedge⟩
  · rw [if_neg hsends]
    exact h.extend rfl (List.forall_mem_nil _)

end Sender

section Receiver

variable {start : UInt32} {mss : Mss} {sender receiver next : Session} {sent got : Trace}
  {acked : ℕ}

/-- The receiver of a stream that is not ended expects the byte behind those it has handed over. -/
theorem Outstanding.expects (h : Outstanding start sender sent got acked)
    (hdirection : Direction start mss sender receiver sent got) :
    receiver.peerSeq = start + UInt32.ofNat (handedBytes got).length := by
  have hopen : receiver.halfClosed = false := by
    by_contra hclosed
    have hsent := hdirection.closed (by simpa using hclosed)
    exact absurd (hsent.symm.trans h.notEnded.2) (by simp)
  simpa [hopen] using hdirection.counted

/-- The history of the receiver goes on with nothing handed over. -/
theorem Outstanding.receive (h : Outstanding start sender sent got acked) {more : Trace}
    (hhanded : handedBytes more = []) (hacks : ∀ out ∈ emittedIn more,
      out.ackNr = start + UInt32.ofNat (handedBytes got).length) :
    Outstanding start sender sent (got ++ more) acked := by
  have hsame : handedBytes (got ++ more) = handedBytes got := by
    rw [handedBytes_append, hhanded, List.append_nil]
  refine ⟨h.addresses, h.notEnded, h.room, h.number, h.data_eq, by rw [hsame]; exact h.handed_le,
    by rw [hsame]; exact h.acked_le, h.offers, h.front, h.flying, by rw [hsame]; exact h.edge, ?_⟩
  rw [hsame, emittedIn_append]
  intro out hout
  rcases List.mem_append.mp hout with hold | hnew
  · exact h.acks out hold
  · exact ⟨_, hacks out hnew, Or.inr rfl⟩

/-- A packet of the sender at the receiver. Only a segment from the front of the buffer is handed
over, and only when the receiver has got nothing from there yet. -/
theorem Outstanding.receiver_segment (h : Outstanding start sender sent got acked)
    (hdirection : Direction start mss sender receiver sent got)
    {environment : Environment} {segment : Segment} {outputs : List Output}
    (heffect : SegmentEffect environment segment receiver next outputs)
    (hread : ReadFrom sent segment)
    (hafter : Direction start mss sender next sent
      (got ++ [(.segment environment segment, outputs)])) :
    Outstanding start sender sent (got ++ [(.segment environment segment, outputs)]) acked := by
  obtain ⟨out, hout, hdecoded⟩ := hread
  obtain ⟨hseqNr, -, hflags, hpayload⟩ := decodeSegment_fields hdecoded
  have hexpects := h.expects hdirection
  have hnoFin : hasFlag segment.flags flagFin = false := by
    by_contra hfin
    obtain ⟨dropped, hstream, -⟩ := hdirection.stream
    have hsent := hstream.fin out hout (by simpa [hflags] using hfin)
    exact absurd (hsent.symm.trans h.notEnded.2) (by simp)
  have hnew : handedBytes [(.segment environment segment, outputs)] =
      if handsOver environment segment receiver then segment.payload else [] := by
    rw [handedBytes, handedIn_segment heffect.outputs]
    split_ifs <;> simp
  by_cases hhands : handsOver environment segment receiver = true
  · rw [if_pos hhands] at hnew
    have hsome : out.payload ≠ [] := by
      simp only [handsOver, Bool.and_eq_true, bne_iff_ne] at hhands
      exact hpayload ▸ hhands.1.2
    have hroom := h.room
    have hhanded := h.handed_le
    have hacked := h.acked_le
    obtain ⟨position, hposition, hnumber⟩ := h.offers out hout hsome
    -- the segment begins behind what was handed over, so that is the front
    have hplace : position = (handedBytes got).length :=
      (add_ofNat_inj start (by omega) (by omega)).mp
        (hnumber.symm.trans (hseqNr.symm.trans ((peerSeqNr_of_handsOver hhands).trans hexpects)))
    have hfront : (handedBytes got).length = acked := by omega
    have hgrown : (handedBytes (got ++ [(.segment environment segment, outputs)])).length =
        acked + out.payload.length := by
      rw [handedBytes_append, List.length_append, hnew, hfront, hpayload]
    refine ⟨h.addresses, h.notEnded, h.room, h.number, h.data_eq, hafter.isPrefix.length_le,
      by rw [hgrown]; exact Nat.le_add_right _ _, h.offers, h.front, h.flying, Or.inr ?_, ?_⟩
    · exact ⟨out, hout, hsome, by rw [hnumber, hplace, hfront, h.number], hgrown.symm⟩
    · rw [emittedIn_append, emittedIn_single, hgrown]
      intro ack hack
      rcases List.mem_append.mp hack with hold | hnow
      · obtain ⟨count, hcounted, hcount⟩ := h.acks ack hold
        exact ⟨count, hcounted, Or.inl (by omega)⟩
      · rcases (heffect.outputs.acks ack hnow).2 with hold | ⟨-, hahead⟩ | ⟨⟨hflag, -⟩, -⟩
        · exact ⟨acked, by rw [hold, hexpects, hfront], Or.inl (le_refl _)⟩
        · refine ⟨acked + out.payload.length, ?_, Or.inr rfl⟩
          rw [hahead, hexpects, hfront, hpayload, add_ofNat_add]
        · exact absurd hflag (by simp [hnoFin])
  · rw [if_neg hhands] at hnew
    apply h.receive hnew
    rw [emittedIn_single]
    intro ack hack
    rcases (heffect.outputs.acks ack hack).2 with hold | ⟨hhands', -⟩ | ⟨⟨hflag, -⟩, -⟩
    · rw [hold, hexpects]
    · exact absurd hhands' hhands
    · exact absurd hflag (by simp [hnoFin])

theorem Outstanding.receiver_write (h : Outstanding start sender sent got acked)
    (flags : UInt32) (what : List UInt8) :
    Outstanding start sender sent (got ++ [(.write flags what, [])]) acked :=
  h.receive rfl (List.forall_mem_nil _)

/-- A visit of the receiver acknowledges what is handed over. -/
theorem Outstanding.receiver_visit (h : Outstanding start sender sent got acked)
    (hdirection : Direction start mss sender receiver sent got) (accepts : ℕ → Bool) :
    Outstanding start sender sent
      (got ++ [(.visit accepts, (senderVisit accepts receiver).outputs)]) acked := by
  apply h.receive rfl
  rw [emittedIn_single]
  intro out hout
  rw [(visit_receiving accepts receiver).2.2.2.2 out hout, h.expects hdirection]

end Receiver

end MyIPNG.Tcp
