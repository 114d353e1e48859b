import MyIPNG.Tcp.RequestText
import MyIPNG.Tcp.Threads

/-!
# An open is rejected or carried out as it is written

A message that asks `run_meta` to open a session goes through several steps: the lines are read, the
SYN and the reply are queued, and the session is put in the map. In between, the other threads run.
`OpenedAsWritten` compares the handling of such a message with the run in which it never came:
either the maps are the same and there is no reply, or there is one more session, that of a client,
which is as the text asks, and one reply, under the number of the message.

The text is read without looking at what the numbers mean. A port is cut to 16 bits, an address may
have any number of bytes (none fails an assertion, and fewer than four are read behind their end for
the checksum of the SYN), a name of 32 bytes has no end in `shm_peer` and a longer one is written
behind it, and the reply has no number. `opened_as_written_iff` says for which messages none of that
shows.
-/

set_option autoImplicit false
set_option relaxedAutoImplicit false

namespace MyIPNG.Tcp

open Base Utils

/-! ### The handling of a message -/

/-- A step of another thread than `run_meta`. -/
def OtherThread : ThreadEvent → Prop
  | .data _ => True
  | .cleanClock _ => True
  | .cleanCollect => True
  | .cleanDelete => True
  | _ => False

/-- The steps of `run_meta` for a message to open a session, with those of the other threads before
and behind the reply. -/
def openEvents (environment : MetaEnvironment) (message : MetaMessage) (accepted : Bool)
    (before behind : List ThreadEvent) : List ThreadEvent :=
  .metaRequest environment message ::
    (before ++ .metaReply accepted :: (behind ++ [.metaInsert]))

/-- The replies of `run_meta`: to whom, under which number, and the text. -/
def replies (outputs : List ServerOutput) : List (List UInt8 × UInt64 × List UInt8) :=
  outputs.filterMap fun
    | .send _ => none
    | .reply receiver msgNr text => some (receiver, msgNr, text)

/-- `shm_peer` of a session: the bytes of the name and zeros. -/
def shmPeerBuffer (session : Session) : List UInt8 :=
  session.shmPeer ++ List.replicate (maxIdLength - session.shmPeer.length) 0

/-- The bytes up to the first zero of the buffer are the text. -/
def HoldsString (buffer text : List UInt8) : Prop :=
  buffer.length = maxIdLength ∧ 0 ∈ buffer ∧ buffer.takeWhile (· ≠ 0) = text

def Item.openOrClose : Item → Option Action
  | .action wanted => some wanted
  | _ => none

def Item.portText : Item → Option (List UInt8)
  | .dstPort value => some value
  | _ => none

def Item.addrText : Item → Option (List UInt8)
  | .dstAddr value => some value
  | _ => none

def Item.nameText : Item → Option (List UInt8)
  | .shmDataAddress value => some value
  | _ => none

/-- The text asks for an open. -/
def AsksToOpen (data : List UInt8) : Prop :=
  lastItem Item.openOrClose (requestLines data) = some .open

/-- One session is added, of a client and as the text asks, and the reply with its id goes to the
sender under the number of the message. -/
def CarriedOut (message : MetaMessage) (without final : Server) (outputs : List ServerOutput) :
    Prop :=
  ∃ (sessionId : UInt64) (session : Session) (portText nameText : List UInt8),
    without.sessions[sessionId]? = none ∧
    (∀ other : UInt64, final.sessions[other]? =
      if other = sessionId then some session else without.sessions[other]?) ∧
    session.isClient = true ∧
    session.peerAddr.length = 4 ∧
    lastItem Item.portText (requestLines message.data) = some portText ∧
    numberOf 10 portText = some (session.peerPort.toNat : ℤ) ∧
    lastItem Item.nameText (requestLines message.data) = some nameText ∧
    HoldsString (shmPeerBuffer session) nameText ∧
    replies outputs = [(message.sender, message.msgNr, sessionIdText sessionId)]

/-- The message is rejected or carried out as it is written. The server without the message is the
one that only the other threads have changed. -/
def OpenedAsWritten (config : ServerConfig) (environment : MetaEnvironment) (message : MetaMessage)
    (accepted : Bool) (before behind : List ThreadEvent) (server : Server) : Prop :=
  let handled := run (threadStep config) (some server)
    (openEvents environment message accepted before behind)
  ∃ without final, (run (threadStep config) (some server) (before ++ behind)).1 = some without ∧
    handled.1 = some final ∧
    (final.sessions = without.sessions ∧
        final.localAllocatedPorts = without.localAllocatedPorts ∧ replies handled.2 = [] ∨
      CarriedOut message without final handled.2)

/-! ### Which messages -/

/-- The values of the text fit where they are put: the number of the port in 16 bits, the address in
4 bytes, the name with its end in `shm_peer`, the number of the message in a reply that has none,
and the id in the map `found`. -/
structure Representable (config : ServerConfig) (message : MetaMessage) (found : Sessions)
    (port : ℤ) (addrText dstAddr nameText : List UInt8) (srcPort : UInt16) : Prop where
  msgNr : message.msgNr = 0
  port_nonneg : 0 ≤ port
  port_lt : port < 2 ^ 16
  address : (addrParts addrText).length = 4
  ends : nameText.length < maxIdLength
  plain : 0 ∉ nameText
  free : found[sessionIdOf (UInt16.ofInt port) srcPort dstAddr config.fromAddr]? = none

/-- The first of the random ports that is free. -/
def chosenPort (environment : MetaEnvironment) (server : Server) : Option UInt16 :=
  environment.srcPorts.find? fun port ↦ !server.localAllocatedPorts.contains port

/-- What the open reads and writes is there: four bytes of both addresses for the checksum of the
SYN, and the room of `shm_peer` for the name. -/
structure StaysInside (config : ServerConfig) (addrText nameText : List UInt8) : Prop where
  destination : 4 ≤ (addrParts addrText).length
  source : 4 ≤ config.fromAddr.length
  name : nameText.length ≤ maxIdLength

/-- What the text asks for when it names a port, an address and a name: the open stays inside of the
addresses and of `shm_peer`, and when the SYN and the reply are taken all values are representable.
`found` is the map that the other threads leave. -/
def FitsWhenOpened (config : ServerConfig) (environment : MetaEnvironment)
    (message : MetaMessage) (accepted : Bool) (server : Server) (found : Sessions) : Prop :=
  ∀ portText port addrText dstAddr nameText srcPort,
    lastItem Item.portText (requestLines message.data) = some portText →
    numberOf 10 portText = some port →
    lastItem Item.addrText (requestLines message.data) = some addrText →
    addrOfText environment.freshBytes addrText ⟨ascii ".", ascii_dot_nonempty⟩ false =
      some dstAddr →
    lastItem Item.nameText (requestLines message.data) = some nameText →
    chosenPort environment server = some srcPort →
    StaysInside config addrText nameText ∧ (environment.synOk = true → accepted = true →
      Representable config message found port addrText dstAddr nameText srcPort)

/-- The message is rejected for its text, or its text is read and fits. -/
def WrittenAsHandled (config : ServerConfig) (environment : MetaEnvironment)
    (message : MetaMessage) (accepted : Bool) (server : Server) (found : Sessions) : Prop :=
  (requestLines message.data).length < 2 ∨ Refused (requestLines message.data) ∨
    (Readable (requestLines message.data) ∧
      FitsWhenOpened config environment message accepted server found)

/-! ### The other threads -/

/-- The server with `run_meta` at another place. -/
def Server.withThread (server : Server) (thread : MetaThread) : Server :=
  { server with metaThread := thread }

section OtherThreads

variable (config : ServerConfig)

@[simp] theorem replies_append (first second : List ServerOutput) :
    replies (first ++ second) = replies first ++ replies second :=
  List.filterMap_append

theorem replies_map_send (outputs : List Output) : replies (outputs.map .send) = [] := by
  induction outputs with
  | nil => rfl
  | cons output rest ih => exact ih

theorem cleanStep_withThread (server : Server) (event : ThreadEvent) (thread : MetaThread) :
    cleanStep (server.withThread thread) event = (cleanStep server event).withThread thread := by
  obtain ⟨sessions, ports, metaThread, cleanThread⟩ := server
  cases cleanThread <;> cases event <;> rfl

/-- A step of another thread leaves the server running, no one gets a reply, and where `run_meta` is
makes no difference. -/
theorem threadStep_other {event : ThreadEvent} (h : OtherThread event) (server : Server) :
    ∃ next outputs, threadStep config (some server) event = (some next, outputs) ∧
      replies outputs = [] ∧ ∀ thread,
        threadStep config (some (server.withThread thread)) event =
          (some (next.withThread thread), outputs) := by
  have hclean : ∀ thread, (some (cleanStep (server.withThread thread) event),
      ([] : List ServerOutput)) = (some ((cleanStep server event).withThread thread), []) := by
    intro thread
    rw [cleanStep_withThread]
  cases event with
  | data event => exact ⟨_, _, rfl, replies_map_send _, fun _ ↦ rfl⟩
  | cleanClock now => exact ⟨_, _, rfl, rfl, hclean⟩
  | cleanCollect => exact ⟨_, _, rfl, rfl, hclean⟩
  | cleanDelete => exact ⟨_, _, rfl, rfl, hclean⟩
  | metaRequest environment message => exact h.elim
  | metaReply accepted => exact h.elim
  | metaInsert => exact h.elim
  | metaFin accepted => exact h.elim

/-- The same for a run of the other threads. -/
theorem run_others {events : List ThreadEvent} (h : ∀ event ∈ events, OtherThread event)
    (server : Server) :
    ∃ next outputs, run (threadStep config) (some server) events = (some next, outputs) ∧
      replies outputs = [] ∧ ∀ thread,
        run (threadStep config) (some (server.withThread thread)) events =
          (some (next.withThread thread), outputs) := by
  induction events generalizing server with
  | nil => exact ⟨server, [], rfl, rfl, fun _ ↦ rfl⟩
  | cons event rest ih =>
    obtain ⟨hevent, hrest⟩ := List.forall_mem_cons.mp h
    obtain ⟨mid, first, hfirst, hsilent, hmoved⟩ := threadStep_other config hevent server
    obtain ⟨next, outputs, hrun, hsilent', hmoved'⟩ := ih hrest mid
    refine ⟨next, first ++ outputs, ?_, ?_, fun thread ↦ ?_⟩
    · rw [run_cons, hfirst, hrun]
    · rw [replies_append, hsilent, hsilent', List.append_nil]
    · rw [run_cons, hmoved, hmoved']

/-- Where `run_meta` is behind the reply, and the reply. -/
def replied (accepted : Bool) : MetaThread → MetaThread × List ServerOutput
  | .opening sender sessionId session =>
    if accepted then
      (.opened sessionId { session with localSeq := session.localSeq + 1 },
        [.reply sender 0 (sessionIdText sessionId)])
    else (.waiting, [])
  | thread => (thread, [])

theorem metaReply_eq (accepted : Bool) (server : Server) (thread : MetaThread) :
    metaReply accepted (server.withThread thread) =
      (server.withThread (replied accepted thread).1, (replied accepted thread).2) := by
  cases thread <;> cases accepted <;> rfl

/-- The whole handling of a message whose first step leaves the maps alone: the insertion takes
place on the server that the other threads leave. -/
theorem run_openEvents {environment : MetaEnvironment} {message : MetaMessage}
    {before behind : List ThreadEvent} (hbefore : ∀ event ∈ before, OtherThread event)
    (hbehind : ∀ event ∈ behind, OtherThread event) {server : Server} {thread : MetaThread}
    {first : List ServerOutput}
    (hfirst : threadStep config (some server) (.metaRequest environment message) =
      (some (server.withThread thread), first)) (hsilent : replies first = []) (accepted : Bool) :
    ∃ without outputs,
      (run (threadStep config) (some server) (before ++ behind)).1 = some without ∧
      run (threadStep config) (some server)
        (openEvents environment message accepted before behind) =
          (some (metaInsert (without.withThread (replied accepted thread).1)), outputs) ∧
      replies outputs = replies (replied accepted thread).2 := by
  obtain ⟨mid, outputs, hmid, hquiet, hmoved⟩ := run_others config hbefore server
  obtain ⟨without, outputs', hwithout, hquiet', hmoved'⟩ := run_others config hbehind mid
  have hreply : threadStep config (some (mid.withThread thread)) (.metaReply accepted) =
      (some (mid.withThread (replied accepted thread).1), (replied accepted thread).2) := by
    change (some (metaReply accepted (mid.withThread thread)).1,
      (metaReply accepted (mid.withThread thread)).2) = _
    rw [metaReply_eq]
  have hlast : run (threadStep config) (some (without.withThread (replied accepted thread).1))
      [.metaInsert] = (some (metaInsert (without.withThread (replied accepted thread).1)), []) :=
    rfl
  refine ⟨without, first ++ (outputs ++ ((replied accepted thread).2 ++ (outputs' ++ []))), ?_,
    ?_, ?_⟩
  · rw [run_append, hmid, hwithout]
  · rw [openEvents, run_cons, hfirst, run_append, hmoved, run_cons, hreply, run_append, hmoved',
      hlast]
  · simp only [replies_append, hsilent, hquiet, hquiet', List.nil_append, List.append_nil]

/-- A server that stops at the first step stays so. -/
theorem run_openEvents_none {environment : MetaEnvironment} {message : MetaMessage}
    {before behind : List ThreadEvent} {server : Server} {first : List ServerOutput}
    (hfirst : threadStep config (some server) (.metaRequest environment message) = (none, first))
    (accepted : Bool) :
    (run (threadStep config) (some server)
      (openEvents environment message accepted before behind)).1 = none := by
  have hnone : ∀ events, (run (threadStep config) none events).1 = none := by
    intro events
    induction events with
    | nil => rfl
    | cons event rest ih => exact ih
  rw [openEvents, run_cons, hfirst]
  exact hnone _

end OtherThreads

/-! ### What a message that asks for an open does first -/

section FirstStep

variable (config : ServerConfig) (environment : MetaEnvironment) {message : MetaMessage}

/-- The fields of a request are those of the last lines. -/
theorem parseMeta_of_readable (hlines : ¬ (requestLines message.data).length < 2)
    (hread : Readable (requestLines message.data)) :
    ∃ request, parseMeta environment.freshBytes message.data = .request request ∧
      request.action = (lastItem Item.openOrClose (requestLines message.data)).getD .close ∧
      request.dstPort = (lastItem Item.portText (requestLines message.data)).bind
        (fun text ↦ (numberOf 10 text).map UInt16.ofInt) ∧
      request.dstAddr = (lastItem Item.addrText (requestLines message.data)).bind
        (fun text ↦
          addrOfText environment.freshBytes text ⟨ascii ".", ascii_dot_nonempty⟩ false) ∧
      request.shmDataAddress = lastItem Item.nameText (requestLines message.data) := by
  let request := ((requestLines message.data).filterMap item).foldl
    (Item.setIn environment.freshBytes) .initial
  refine ⟨request, ?_, ?_, ?_, ?_, ?_⟩
  · change (if (requestLines message.data).length < 2 then Parsed.invalid else
      parseLines environment.freshBytes (requestLines message.data) .initial) = _
    rw [if_neg hlines, parseLines_of_readable environment.freshBytes hread]
  · refine (field_foldl_setIn environment.freshBytes MetaRequest.action Item.openOrClose id
      ?_ _ _).trans ?_
    · rintro request (_ | _ | _ | _ | _) <;> rfl
    · rw [lastItem]
      cases (List.filterMap Item.openOrClose _).getLast? <;> rfl
  · refine (field_foldl_setIn environment.freshBytes MetaRequest.dstPort Item.portText
      (fun text ↦ (numberOf 10 text).map UInt16.ofInt) ?_ _ _).trans ?_
    · rintro request (_ | _ | _ | _ | _) <;> rfl
    · rw [lastItem]
      cases (List.filterMap Item.portText _).getLast? <;> rfl
  · refine (field_foldl_setIn environment.freshBytes MetaRequest.dstAddr Item.addrText
      (fun text ↦ addrOfText environment.freshBytes text ⟨ascii ".", ascii_dot_nonempty⟩ false)
      ?_ _ _).trans ?_
    · rintro request (_ | _ | _ | _ | _) <;> rfl
    · rw [lastItem]
      cases (List.filterMap Item.addrText _).getLast? <;> rfl
  · refine (field_foldl_setIn environment.freshBytes MetaRequest.shmDataAddress Item.nameText some
      ?_ _ _).trans ?_
    · rintro request (_ | _ | _ | _ | _) <;> rfl
    · rw [lastItem]
      cases (List.filterMap Item.nameText _).getLast? <;> rfl

/-- A message without a full request to open is rejected. -/
theorem metaRequest_of_invalid (server : Server)
    (h : (requestLines message.data).length < 2 ∨ Refused (requestLines message.data)) :
    metaRequest config environment message server = (some server, []) := by
  have hparse : parseMeta environment.freshBytes message.data = .invalid := by
    change (if (requestLines message.data).length < 2 then Parsed.invalid else
      parseLines environment.freshBytes (requestLines message.data) .initial) = _
    split_ifs with hlines
    · rfl
    · exact parseLines_of_refused environment.freshBytes (h.resolve_left hlines) _
  rw [metaRequest, hparse]

/-- A number that is out of range before a line is refused ends the server. -/
theorem metaRequest_of_throws (server : Server)
    (hlines : ¬ (requestLines message.data).length < 2)
    (hrefused : ¬ Refused (requestLines message.data))
    (hread : ¬ Readable (requestLines message.data)) :
    metaRequest config environment message server = (none, []) := by
  have hparse : parseMeta environment.freshBytes message.data = .throws := by
    change (if (requestLines message.data).length < 2 then Parsed.invalid else
      parseLines environment.freshBytes (requestLines message.data) .initial) = _
    rw [if_neg hlines]
    exact parseLines_of_neither environment.freshBytes hread hrefused _
  rw [metaRequest, hparse]

/-- A message that is read and asks for an open begins one when it names a port, an address and a
name. -/
theorem metaRequest_of_readable (server : Server)
    (hlines : ¬ (requestLines message.data).length < 2)
    (hread : Readable (requestLines message.data)) (hopen : AsksToOpen message.data) :
    metaRequest config environment message server =
      ((lastItem Item.portText (requestLines message.data)).bind (numberOf 10)).elim
        (some server, []) fun port ↦
      ((lastItem Item.addrText (requestLines message.data)).bind fun text ↦
          addrOfText environment.freshBytes text ⟨ascii ".", ascii_dot_nonempty⟩ false).elim
        (some server, []) fun dstAddr ↦
      (lastItem Item.nameText (requestLines message.data)).elim (some server, []) fun nameText ↦
        openRequest config environment message.sender dstAddr (UInt16.ofInt port) nameText
          server := by
  obtain ⟨request, hparse, haction, hport, haddr, hname⟩ :=
    parseMeta_of_readable environment hlines hread
  have hport' : request.dstPort =
      ((lastItem Item.portText (requestLines message.data)).bind (numberOf 10)).map
        UInt16.ofInt := by
    rw [hport, Option.map_bind]
    rfl
  rw [show lastItem Item.openOrClose _ = _ from hopen, Option.getD_some] at haction
  rw [metaRequest, hparse]
  simp only [haction, hport', haddr, hname]
  cases (lastItem Item.portText (requestLines message.data)).bind (numberOf 10) with
  | none => rfl
  | some port =>
    cases (lastItem Item.addrText (requestLines message.data)).bind _ with
    | none => rfl
    | some dstAddr => cases lastItem Item.nameText (requestLines message.data) <;> rfl

/-- An open up to the SYN. -/
theorem openRequest_eq (sender dstAddr nameText : List UInt8) (dstPort : UInt16)
    (server : Server) :
    openRequest config environment sender dstAddr dstPort nameText server =
      (chosenPort environment server).elim (some server, []) fun srcPort ↦
        let session := openSession config.fromAddr dstAddr srcPort dstPort nameText
          environment.localSeq
        if dstAddr.length < 4 ∨ config.fromAddr.length < 4 ∨ maxIdLength < nameText.length then
          (none, [])
        else if environment.synOk then
          (some (server.withThread (.opening sender
            (sessionIdOf dstPort srcPort dstAddr config.fromAddr) session)),
            [.send (.toIp (metaHeader session flagSyn))])
        else (some server, []) := by
  unfold openRequest chosenPort
  cases environment.srcPorts.find? _ with
  | none => rfl
  | some srcPort =>
    dsimp only [Option.elim_some]
    rw [sendTcpPacket_empty _ _ _ rfl]
    by_cases houtside : dstAddr.length < 4 ∨ config.fromAddr.length < 4 ∨
      maxIdLength < nameText.length
    · rw [if_pos houtside]
      unfold calcSessionId
      split_ifs <;> first | rfl | omega
    · have hempty : ¬ (dstAddr.length = 0 ∨ config.fromAddr.length = 0) := by omega
      have hlong : ¬ maxIdLength < nameText.length := by omega
      have hshort : ¬ (dstAddr.length < 4 ∨ config.fromAddr.length < 4) := by omega
      rw [if_neg houtside, calcSessionId, if_neg hempty]
      dsimp only
      rw [if_neg hlong, if_neg hshort]
      cases environment.synOk <;> rfl

end FirstStep

/-! ### The outcome -/

section Outcome

variable {config : ServerConfig} {environment : MetaEnvironment} {message : MetaMessage}
  {before behind : List ThreadEvent} {server without : Server} {accepted : Bool}

/-- A name is held as a string when there is room for its end and no zero before it. -/
theorem holdsString_iff {session : Session} (h : session.shmPeer.length ≤ maxIdLength) :
    HoldsString (shmPeerBuffer session) session.shmPeer ↔
      session.shmPeer.length < maxIdLength ∧ 0 ∉ session.shmPeer := by
  have hlength : (shmPeerBuffer session).length = maxIdLength := by
    rw [shmPeerBuffer, List.length_append, List.length_replicate]
    omega
  constructor
  · rintro ⟨-, hzero, htext⟩
    have hplain : 0 ∉ session.shmPeer := by
      rw [← htext]
      intro hmem
      simpa using List.all_eq_true.mp List.all_takeWhile 0 hmem
    refine ⟨lt_of_le_of_ne h fun hfull ↦ ?_, hplain⟩
    rw [shmPeerBuffer, hfull, Nat.sub_self, List.replicate_zero, List.append_nil] at hzero
    exact hplain hzero
  · rintro ⟨hroom, hplain⟩
    obtain ⟨more, hmore⟩ : ∃ more, maxIdLength - session.shmPeer.length = more + 1 :=
      Nat.exists_eq_add_of_lt (by omega) |>.imp fun _ h ↦ by omega
    have hall : ∀ c ∈ session.shmPeer, (decide (c ≠ 0)) = true := by
      intro c hc
      exact decide_eq_true fun hzero ↦ hplain (hzero ▸ hc)
    refine ⟨hlength, ?_, ?_⟩
    · rw [shmPeerBuffer, hmore, List.replicate_succ]
      exact List.mem_append_right _ List.mem_cons_self
    · rw [shmPeerBuffer, List.takeWhile_append_of_pos hall, hmore, List.replicate_succ,
        List.takeWhile_cons_of_neg (by simp), List.append_nil]

theorem toNat_ofInt_iff (port : ℤ) :
    port = ((UInt16.ofInt port).toNat : ℤ) ↔ 0 ≤ port ∧ port < 2 ^ 16 := by
  have hvalue : (UInt16.ofInt port).toNat = (port % 2 ^ 16).toNat := by
    rw [UInt16.ofInt, UInt16.toNat_ofNat']
    omega
  rw [hvalue]
  omega

/-- A server that has put a session of an open in the map, and has replied, has carried out the
message exactly when all values are representable. -/
theorem carriedOut_iff {without final : Server} {outputs : List ServerOutput}
    {portText addrText dstAddr nameText : List UInt8} {port : ℤ} {srcPort : UInt16}
    {session : Session}
    (hfinal : final.sessions = without.sessions.insertIfNew
      (sessionIdOf (UInt16.ofInt port) srcPort dstAddr config.fromAddr) session)
    (hsent : replies outputs = [(message.sender, 0,
      sessionIdText (sessionIdOf (UInt16.ofInt port) srcPort dstAddr config.fromAddr))])
    (hclient : session.isClient = true) (hpeerName : session.shmPeer = nameText)
    (hpeerAddr : session.peerAddr = dstAddr) (hpeerPort : session.peerPort = UInt16.ofInt port)
    (hport : lastItem Item.portText (requestLines message.data) = some portText)
    (hnumber : numberOf 10 portText = some port)
    (haddr : dstAddr.length = (addrParts addrText).length)
    (hname : lastItem Item.nameText (requestLines message.data) = some nameText)
    (hshort : nameText.length ≤ maxIdLength) :
    CarriedOut message without final outputs ↔
      Representable config message without.sessions port addrText dstAddr nameText srcPort := by
  subst hpeerName
  constructor
  · rintro ⟨other, added, portText', nameText', hnew, hadded, -, hfour, hport', hnumber', hname',
      hholds, hreply⟩
    have hentry := hadded other
    rw [if_pos rfl, hfinal] at hentry
    obtain ⟨rfl, rfl⟩ := eq_of_getElem?_insertIfNew hnew hentry
    obtain rfl : portText = portText' := Option.some.inj (hport.symm.trans hport')
    obtain rfl : session.shmPeer = nameText' := Option.some.inj (hname.symm.trans hname')
    have hfits : port = ((UInt16.ofInt port).toNat : ℤ) := by
      rw [hnumber, hpeerPort] at hnumber'
      exact Option.some.inj hnumber'
    obtain ⟨hnonneg, hlt⟩ := (toNat_ofInt_iff port).mp hfits
    obtain ⟨hends, hplain⟩ := (holdsString_iff hshort).mp hholds
    have hmsgNr : message.msgNr = 0 := by
      have hequal := hsent.symm.trans hreply
      simp only [List.cons.injEq, Prod.mk.injEq, and_true, true_and] at hequal
      exact hequal.symm
    rw [hpeerAddr, haddr] at hfour
    exact ⟨hmsgNr, hnonneg, hlt, hfour, hends, hplain, hnew⟩
  · intro h
    refine ⟨_, session, portText, session.shmPeer, h.free, fun other ↦ ?_, hclient, ?_, hport, ?_,
      hname, (holdsString_iff hshort).mpr ⟨h.ends, h.plain⟩, ?_⟩
    · rw [hfinal]
      split_ifs with hother
      · rw [hother]
        exact getElem?_insertIfNew_of_none h.free session
      · exact getElem?_insertIfNew_other (Ne.symm hother) session
    · rw [hpeerAddr, haddr]
      exact h.address
    · rw [hnumber, hpeerPort, ← (toNat_ofInt_iff port).mpr ⟨h.port_nonneg, h.port_lt⟩]
    · rw [h.msgNr]
      exact hsent

theorem threadStep_metaRequest (hwaiting : server.metaThread = .waiting) :
    threadStep config (some server) (.metaRequest environment message) =
      metaRequest config environment message server := by
  simp only [threadStep, hwaiting]

theorem not_opened_of_none (hwaiting : server.metaThread = .waiting)
    (hfirst : metaRequest config environment message server = (none, [])) :
    ¬ OpenedAsWritten config environment message accepted before behind server := by
  rintro ⟨_, final, -, hfinal, -⟩
  rw [← threadStep_metaRequest hwaiting] at hfirst
  rw [run_openEvents_none config hfirst] at hfinal
  exact absurd hfinal (by simp)

/-- The text of a message decides its values. -/
theorem fitsWhenOpened_iff {found : Sessions} {portText addrText dstAddr nameText : List UInt8}
    {port : ℤ} {srcPort : UInt16}
    (hportText : lastItem Item.portText (requestLines message.data) = some portText)
    (hnumber : numberOf 10 portText = some port)
    (haddrText : lastItem Item.addrText (requestLines message.data) = some addrText)
    (hbytes : addrOfText environment.freshBytes addrText ⟨ascii ".", ascii_dot_nonempty⟩ false =
      some dstAddr)
    (hname : lastItem Item.nameText (requestLines message.data) = some nameText)
    (hchosen : chosenPort environment server = some srcPort) :
    FitsWhenOpened config environment message accepted server found ↔
      StaysInside config addrText nameText ∧ (environment.synOk = true → accepted = true →
        Representable config message found port addrText dstAddr nameText srcPort) := by
  constructor
  · intro h
    exact h portText port addrText dstAddr nameText srcPort hportText hnumber haddrText hbytes
      hname hchosen
  · intro h portText' port' addrText' dstAddr' nameText' srcPort' hportText' hnumber' haddrText'
      hbytes' hname' hchosen'
    obtain rfl := Option.some.inj (hportText.symm.trans hportText')
    obtain rfl := Option.some.inj (hnumber.symm.trans hnumber')
    obtain rfl := Option.some.inj (haddrText.symm.trans haddrText')
    obtain rfl := Option.some.inj (hbytes.symm.trans hbytes')
    obtain rfl := Option.some.inj (hname.symm.trans hname')
    obtain rfl := Option.some.inj (hchosen.symm.trans hchosen')
    exact h

variable (hwaiting : server.metaThread = .waiting)
  (hbefore : ∀ event ∈ before, OtherThread event) (hbehind : ∀ event ∈ behind, OtherThread event)

include hwaiting hbefore hbehind

/-- The handling is as written when `run_meta` waits again behind the reply, without one. -/
theorem opened_of_waiting {thread : MetaThread} {first : List ServerOutput}
    (hfirst : metaRequest config environment message server =
      (some (server.withThread thread), first)) (hsilent : replies first = [])
    (hreplied : replied accepted thread = (.waiting, [])) :
    OpenedAsWritten config environment message accepted before behind server := by
  rw [← threadStep_metaRequest hwaiting] at hfirst
  obtain ⟨without, outputs, hwithout, hrun, hreplies⟩ :=
    run_openEvents config hbefore hbehind hfirst hsilent accepted
  rw [hreplied] at hrun hreplies
  refine ⟨without, _, hwithout, congrArg Prod.fst hrun, Or.inl ⟨rfl, rfl, ?_⟩⟩
  rw [hrun]
  exact hreplies

/-- A message without effect on the server is handled as written. -/
theorem opened_of_same
    (hfirst : metaRequest config environment message server = (some server, [])) :
    OpenedAsWritten config environment message accepted before behind server := by
  have hself : server.withThread .waiting = server := by
    rw [← hwaiting]
    rfl
  have hmoved : metaRequest config environment message server =
      (some (server.withThread .waiting), []) := by
    rw [hfirst, hself]
  exact opened_of_waiting hwaiting hbefore hbehind hmoved rfl rfl

variable (hwithout : (run (threadStep config) (some server) (before ++ behind)).1 = some without)

include hwithout

/-- A session that is put in the map is as written exactly when all its values are representable. -/
theorem opened_iff_of_opening {portText addrText dstAddr nameText : List UInt8} {port : ℤ}
    {srcPort : UInt16} {first : List ServerOutput}
    (hfirst : metaRequest config environment message server =
      (some (server.withThread (.opening message.sender
        (sessionIdOf (UInt16.ofInt port) srcPort dstAddr config.fromAddr)
        (openSession config.fromAddr dstAddr srcPort (UInt16.ofInt port) nameText
          environment.localSeq))), first)) (hsilent : replies first = [])
    (hport : lastItem Item.portText (requestLines message.data) = some portText)
    (hnumber : numberOf 10 portText = some port)
    (haddr : dstAddr.length = (addrParts addrText).length)
    (hname : lastItem Item.nameText (requestLines message.data) = some nameText)
    (hshort : nameText.length ≤ maxIdLength) :
    OpenedAsWritten config environment message true before behind server ↔
      Representable config message without.sessions port addrText dstAddr nameText srcPort := by
  rw [← threadStep_metaRequest hwaiting] at hfirst
  obtain ⟨found, outputs, hfound, hrun, hreplies⟩ :=
    run_openEvents config hbefore hbehind hfirst hsilent true
  obtain rfl : found = without := Option.some.inj (hfound.symm.trans hwithout)
  generalize hopened : openSession config.fromAddr dstAddr srcPort (UInt16.ofInt port) nameText
    environment.localSeq = opened at hrun hreplies
  have hpeer : opened.isClient = true ∧ opened.shmPeer = nameText ∧ opened.peerAddr = dstAddr ∧
      opened.peerPort = UInt16.ofInt port := by
    rw [← hopened]
    exact ⟨rfl, rfl, rfl, rfl⟩
  obtain ⟨hclient, hpeerName, hpeerAddr, hpeerPort⟩ := hpeer
  generalize hdone : metaInsert _ = final at hrun
  have hfinal : final.sessions = found.sessions.insertIfNew
      (sessionIdOf (UInt16.ofInt port) srcPort dstAddr config.fromAddr)
      { opened with localSeq := opened.localSeq + 1 } := by
    rw [← hdone]
    rfl
  rw [← carriedOut_iff hfinal hreplies hclient hpeerName hpeerAddr hpeerPort hport hnumber haddr
    hname hshort]
  constructor
  · rintro ⟨found', final', hfound', hlast, hcase⟩
    obtain rfl : found' = found := Option.some.inj (hfound'.symm.trans hwithout)
    rw [hrun] at hlast hcase
    obtain rfl := Option.some.inj hlast
    refine hcase.resolve_left ?_
    rintro ⟨-, -, hnone⟩
    exact absurd (hreplies.symm.trans hnone) (List.cons_ne_nil _ _)
  · intro h
    refine ⟨found, _, hwithout, congrArg Prod.fst hrun, Or.inr ?_⟩
    rw [hrun]
    exact h

/-- The handling of a message that names all values and finds a free port. -/
theorem opened_iff_of_values {portText addrText dstAddr nameText : List UInt8} {port : ℤ}
    {srcPort : UInt16}
    (hportText : lastItem Item.portText (requestLines message.data) = some portText)
    (hnumber : numberOf 10 portText = some port)
    (haddrText : lastItem Item.addrText (requestLines message.data) = some addrText)
    (hbytes : addrOfText environment.freshBytes addrText ⟨ascii ".", ascii_dot_nonempty⟩ false =
      some dstAddr)
    (hname : lastItem Item.nameText (requestLines message.data) = some nameText)
    (hchosen : chosenPort environment server = some srcPort)
    (hfirst : metaRequest config environment message server =
      openRequest config environment message.sender dstAddr (UInt16.ofInt port) nameText server) :
    OpenedAsWritten config environment message accepted before behind server ↔
      FitsWhenOpened config environment message accepted server without.sessions := by
  rw [fitsWhenOpened_iff hportText hnumber haddrText hbytes hname hchosen]
  rw [openRequest_eq, hchosen, Option.elim_some] at hfirst
  dsimp only at hfirst
  have hlength : dstAddr.length = (addrParts addrText).length := length_of_addrLoop hbytes
  by_cases houtside : dstAddr.length < 4 ∨ config.fromAddr.length < 4 ∨
    maxIdLength < nameText.length
  · rw [if_pos houtside] at hfirst
    refine iff_of_false (not_opened_of_none hwaiting hfirst) ?_
    rintro ⟨⟨hdestination, hsource, hfits⟩, -⟩
    omega
  · have hinside : StaysInside config addrText nameText := ⟨by omega, by omega, by omega⟩
    rw [if_neg houtside] at hfirst
    rw [and_iff_right hinside]
    cases hsyn : environment.synOk with
    | false =>
      rw [hsyn, if_neg Bool.false_ne_true] at hfirst
      exact iff_of_true (opened_of_same hwaiting hbefore hbehind hfirst)
        (fun h ↦ absurd h Bool.false_ne_true)
    | true =>
      rw [hsyn, if_pos rfl] at hfirst
      cases accepted with
      | false =>
        refine iff_of_true (opened_of_waiting hwaiting hbefore hbehind hfirst rfl rfl) ?_
        exact fun _ h ↦ absurd h Bool.false_ne_true
      | true =>
        refine (opened_iff_of_opening hwaiting hbefore hbehind hwithout hfirst rfl hportText hnumber
          hlength hname hinside.name).trans ?_
        exact ⟨fun h _ _ ↦ h, fun h ↦ h rfl rfl⟩

/-- The handling of a message that is read. -/
theorem opened_iff_of_readable (hlines : ¬ (requestLines message.data).length < 2)
    (hread : Readable (requestLines message.data)) (hopen : AsksToOpen message.data) :
    OpenedAsWritten config environment message accepted before behind server ↔
      FitsWhenOpened config environment message accepted server without.sessions := by
  have hrejected : metaRequest config environment message server = (some server, []) →
      OpenedAsWritten config environment message accepted before behind server :=
    opened_of_same hwaiting hbefore hbehind
  have hfirst := metaRequest_of_readable config environment server hlines hread hopen
  cases hport : (lastItem Item.portText (requestLines message.data)).bind (numberOf 10) with
  | none =>
    rw [hport] at hfirst
    refine iff_of_true (hrejected hfirst) ?_
    intro portText port _ _ _ _ htext hnumber
    rw [htext, Option.bind_some, hnumber] at hport
    exact absurd hport (by simp)
  | some port =>
    obtain ⟨portText, hportText, hnumber⟩ := Option.bind_eq_some_iff.mp hport
    cases haddr : (lastItem Item.addrText (requestLines message.data)).bind fun text ↦
        addrOfText environment.freshBytes text ⟨ascii ".", ascii_dot_nonempty⟩ false with
    | none =>
      rw [hport, Option.elim_some, haddr] at hfirst
      refine iff_of_true (hrejected hfirst) ?_
      intro _ _ addrText dstAddr _ _ _ _ htext hbytes
      rw [htext, Option.bind_some, hbytes] at haddr
      exact absurd haddr (by simp)
    | some dstAddr =>
      obtain ⟨addrText, haddrText, hbytes⟩ := Option.bind_eq_some_iff.mp haddr
      cases hname : lastItem Item.nameText (requestLines message.data) with
      | none =>
        rw [hport, Option.elim_some, haddr, Option.elim_some, hname] at hfirst
        refine iff_of_true (hrejected hfirst) ?_
        intro _ _ _ _ nameText _ _ _ _ _ htext
        exact absurd (hname.symm.trans htext) (by simp)
      | some nameText =>
        rw [hport, Option.elim_some, haddr, Option.elim_some, hname, Option.elim_some] at hfirst
        cases hchosen : chosenPort environment server with
        | none =>
          rw [openRequest_eq, hchosen] at hfirst
          refine iff_of_true (hrejected hfirst) ?_
          intro _ _ _ _ _ srcPort _ _ _ _ _ hsrcPort
          exact absurd (hchosen.symm.trans hsrcPort) (by simp)
        | some srcPort =>
          exact opened_iff_of_values hwaiting hbefore hbehind hwithout hportText hnumber haddrText
            hbytes hname hchosen hfirst

end Outcome

/-- An open is rejected or carried out as it is written exactly when its text is refused, or is
read and leaves out a field or asks only for what the server can keep. Assumes: `run_meta` takes the
message while it waits, other threads make the steps before and behind the reply, and the text asks
for an open. -/
theorem opened_as_written_iff (config : ServerConfig) (environment : MetaEnvironment)
    (message : MetaMessage) (accepted : Bool) {before behind : List ThreadEvent}
    {server without : Server} (hwaiting : server.metaThread = .waiting)
    (hbefore : ∀ event ∈ before, OtherThread event)
    (hbehind : ∀ event ∈ behind, OtherThread event)
    (hwithout : (run (threadStep config) (some server) (before ++ behind)).1 = some without)
    (hopen : AsksToOpen message.data) :
    OpenedAsWritten config environment message accepted before behind server ↔
      WrittenAsHandled config environment message accepted server without.sessions := by
  by_cases hinvalid : (requestLines message.data).length < 2 ∨ Refused (requestLines message.data)
  · refine iff_of_true (opened_of_same hwaiting hbefore hbehind
      (metaRequest_of_invalid config environment server hinvalid)) ?_
    exact hinvalid.imp_right Or.inl
  obtain ⟨hlines, hrefused⟩ := not_or.mp hinvalid
  by_cases hread : Readable (requestLines message.data)
  · refine (opened_iff_of_readable hwaiting hbefore hbehind hwithout hlines hread hopen).trans ?_
    exact ((or_iff_right hlines).trans ((or_iff_right hrefused).trans (and_iff_right hread))).symm
  · refine iff_of_false (not_opened_of_none hwaiting
      (metaRequest_of_throws config environment server hlines hrefused hread)) ?_
    rintro (hshort | hline | ⟨hall, -⟩)
    · exact hlines hshort
    · exact hrefused hline
    · exact hread hall

/-- A request to open a session to a port of `10.0.0.2`. -/
def sampleOpenText (port : String) : List UInt8 :=
  ascii "action=open\ndst-addr-ip4=10.0.0.2\ndst-port=" ++ ascii port ++
    ascii "\nshm-data-address=app"

/-- The message with this request, under a number. -/
def sampleOpenMessage (msgNr : UInt64) (port : String) : MetaMessage :=
  ⟨ascii "client", msgNr, sampleOpenText port⟩

/-- The memory and the random numbers of a request, with a queue that takes the SYN. -/
def sampleMetaEnvironment : MetaEnvironment := ⟨fun _ ↦ 0, [40000], 100, true⟩

/-- The server of `10.0.0.1`. -/
def sampleServerConfig : ServerConfig := ⟨⟨fun _ ↦ none, []⟩, [10, 0, 0, 1]⟩

/-- What the two requests for the ports 80 and 65616 say: the text of the port apart, the same. -/
theorem sampleOpenText_values (port : String) (h : port = "80" ∨ port = "65616") :
    lastItem Item.portText (requestLines (sampleOpenText port)) = some (ascii port) ∧
      lastItem Item.addrText (requestLines (sampleOpenText port)) = some (ascii "10.0.0.2") ∧
      lastItem Item.nameText (requestLines (sampleOpenText port)) = some (ascii "app") ∧
      lastItem Item.openOrClose (requestLines (sampleOpenText port)) = some .open ∧
      (requestLines (sampleOpenText port)).length = 4 ∧
      Readable (requestLines (sampleOpenText port)) := by
  rcases h with rfl | rfl
  · decide +kernel
  · decide +kernel

theorem addrOfText_sample :
    addrOfText sampleMetaEnvironment.freshBytes (ascii "10.0.0.2")
      ⟨ascii ".", ascii_dot_nonempty⟩ false = some [10, 0, 0, 2] := by
  decide +kernel

theorem chosenPort_sample : chosenPort sampleMetaEnvironment .start = some 40000 := by
  decide +kernel

/-- The request for port 80 under the number 0, while `run_clean` reads the clock. -/
theorem opened_as_written_port_80 :
    OpenedAsWritten sampleServerConfig sampleMetaEnvironment (sampleOpenMessage 0 "80") true
      [.cleanClock 5] [] .start := by
  obtain ⟨hport, haddr, hname, hopen, -, hread⟩ := sampleOpenText_values "80" (Or.inl rfl)
  have hnumber : numberOf 10 (ascii "80") = some 80 := by decide +kernel
  refine (opened_as_written_iff sampleServerConfig sampleMetaEnvironment
    (sampleOpenMessage 0 "80") true rfl (by simp [OtherThread]) (by simp) rfl hopen).mpr
      (Or.inr (Or.inr ⟨hread, ?_⟩))
  rw [fitsWhenOpened_iff hport hnumber haddr addrOfText_sample hname chosenPort_sample]
  refine ⟨⟨by decide +kernel, by decide, by decide +kernel⟩, fun _ _ ↦ ?_⟩
  exact ⟨rfl, by decide, by decide, by decide +kernel, by decide +kernel, by decide +kernel, rfl⟩

/-- The request for port 65616 under the number 1 opens a session to port 80, and the reply has the
number 0. -/
theorem port_65616_is_not_as_written :
    AsksToOpen (sampleOpenText "65616") ∧
      ¬ OpenedAsWritten sampleServerConfig sampleMetaEnvironment (sampleOpenMessage 1 "65616") true
        [] [] .start := by
  obtain ⟨hport, haddr, hname, hopen, hlength, hread⟩ :=
    sampleOpenText_values "65616" (Or.inr rfl)
  have hnumber : numberOf 10 (ascii "65616") = some 65616 := by decide +kernel
  refine ⟨hopen, fun hwritten ↦ ?_⟩
  have hlines : ¬ (requestLines (sampleOpenMessage 1 "65616").data).length < 2 := by
    simp [sampleOpenMessage, hlength]
  have hiff : OpenedAsWritten sampleServerConfig sampleMetaEnvironment
      (sampleOpenMessage 1 "65616") true [] [] .start ↔
      FitsWhenOpened sampleServerConfig sampleMetaEnvironment
        (sampleOpenMessage 1 "65616") true .start ∅ :=
    opened_iff_of_readable rfl (List.forall_mem_nil _) (List.forall_mem_nil _) rfl hlines hread
      hopen
  rw [hiff, fitsWhenOpened_iff hport hnumber haddr addrOfText_sample hname chosenPort_sample]
    at hwritten
  have hlt := (hwritten.2 rfl rfl).port_lt
  exact absurd hlt (by decide)

-- the session of that request, as it stands in the map
example : ((run (threadStep sampleServerConfig) (some .start)
    (openEvents sampleMetaEnvironment (sampleOpenMessage 1 "65616") true [] [])).1.map
      fun server ↦ server.sessions.toList.map fun entry ↦ entry.2.peerPort) = some [80] := by
  decide +kernel

end MyIPNG.Tcp
