import MyIPNG.Tcp.Established
import Mathlib.Data.List.Permutation

/-!
# The order of the steps of an open

`run_meta` queues the SYN, then queues the reply with the id of the session, and puts the session in
the map at last. The answer of the peer and the first data of the application can come in between,
when there is no session that they could find: the SYN/ACK is answered with an RST and the data is
dropped.

`Progress` is an open as an observer sees it, who knows only the order of the steps. The server
follows it (`followsOpen_run`), and so the answers are kept exactly in the orders in which the
session is put in the map first (`answers_kept_iff`).
-/

set_option autoImplicit false
set_option relaxedAutoImplicit false

namespace MyIPNG.Tcp

open Base Utils

/-! ### Orders of the steps -/

/-- The steps after the SYN was queued: the reply is queued, the session is put in the map, `run_in`
takes the SYN/ACK, and `run_out` takes the data. -/
inductive OpenStep
  | reply
  | insert
  | synAck
  | data
deriving DecidableEq, Repr

/-- An interleaving of the steps. `run_meta` replies before it puts the session in the map, and the
application can only send data when it has the id of the session. -/
structure Interleaving (steps : List OpenStep) : Prop where
  once : steps.Perm [.reply, .insert, .synAck, .data]
  program : [.reply, .insert].Sublist steps
  causal : [.reply, .data].Sublist steps

/-- The session is put in the map before the SYN/ACK and the data come. -/
def InsertedFirst (steps : List OpenStep) : Prop :=
  [.insert, .synAck].Sublist steps ∧ [.insert, .data].Sublist steps

instance (steps : List OpenStep) : Decidable (InsertedFirst steps) :=
  inferInstanceAs (Decidable (_ ∧ _))

/-- How far an open is: whether the reply was sent, the session is in the map, a SYN/ACK found it
and one did not, and how often data found it. -/
structure Progress where
  replied : Bool
  inserted : Bool
  matched : Bool
  refused : Bool
  appended : ℕ
deriving DecidableEq, Repr

/-- An open whose SYN was queued. -/
def Progress.initial : Progress := ⟨false, false, false, false, 0⟩

/-- One more step of an open. -/
def Progress.advance (progress : Progress) : OpenStep → Progress
  | .reply => { progress with replied := true }
  | .insert => { progress with inserted := progress.replied }
  | .synAck =>
    if progress.inserted then { progress with matched := true }
    else { progress with refused := true }
  | .data =>
    if progress.inserted then { progress with appended := progress.appended + 1 } else progress

/-- How far an open is after some steps. -/
def progressOf (steps : List OpenStep) : Progress := steps.foldl Progress.advance .initial

theorem progressOf_snoc (steps : List OpenStep) (step : OpenStep) :
    progressOf (steps ++ [step]) = (progressOf steps).advance step := by
  rw [progressOf, List.foldl_append]
  rfl

/-- Both answers find the session exactly in the orders in which it is put in the map first, and
data is then appended once. -/
theorem progressOf_interleaving {steps : List OpenStep} (h : Interleaving steps) :
    ((progressOf steps).inserted = true) ∧
      (((progressOf steps).matched = true ∧ (progressOf steps).appended ≠ 0) ↔
        InsertedFirst steps) ∧
      (InsertedFirst steps →
        (progressOf steps).refused = false ∧ (progressOf steps).appended = 1) := by
  have hmem : steps ∈ [OpenStep.reply, .insert, .synAck, .data].permutations' :=
    List.mem_permutations'.mpr h.once
  have hprogram := h.program
  have hcausal := h.causal
  clear h
  revert steps
  decide

/-! ### The server follows -/

/-- The SYN/ACK of the peer to the SYN of a session. -/
structure AnswersSyn (session : Session) (synAck : Segment) : Prop where
  sourcePort : synAck.sourcePort = session.peerPort
  destinationPort : synAck.destinationPort = session.localPort
  fromAddr : synAck.fromAddr = session.peerAddr
  toAddr : synAck.toAddr = session.localAddr
  synFlag : hasFlag synAck.flags flagSyn = true
  ackFlag : hasFlag synAck.flags flagAck = true
  rstFlag : hasFlag synAck.flags flagRst = false
  number : synAck.ackSeqNr = session.localSeq + 1

/-- The SYN/ACK belongs to the session that is being opened. -/
theorem AnswersSyn.segmentId_eq {sessionId : UInt64} {session : Session} {synAck : Segment}
    (h : AnswersSyn session synAck) (hopens : Opens (sessionId, session)) :
    segmentId synAck = sessionId := by
  obtain ⟨fromAddr, dstAddr, srcPort, dstPort, shmDataAddress, localSeq, hid, hsession⟩ := hopens
  dsimp only at hid hsession
  rw [segmentId, h.sourcePort, h.destinationPort, h.fromAddr, h.toAddr, hsession, hid]
  rfl

/-- The step of the server for a step of an open. -/
def openEvent (environment : Environment) (synAck : Segment) (message : List UInt8) :
    OpenStep → ThreadEvent
  | .reply => .metaReply true
  | .insert => .metaInsert
  | .synAck => .data (.segment environment synAck)
  | .data => .data (.message message)

/-- The session of an open in the map, as far as the open is. -/
structure OpenedSession (synAck : Segment) (what : List UInt8) (progress : Progress)
    (current : Session) : Prop where
  client : current.isClient = true
  state_eq : current.state = if progress.matched then .established else .synSent
  peer : progress.matched = true → current.startPeerSeq = synAck.peerSeqNr
  data_eq : current.l7ToTcp.data = (List.replicate progress.appended what).flatten

/-- The server is as far as the open is. -/
structure FollowsOpen (sender : List UInt8) (sessionId : UInt64) (session : Session)
    (synAck : Segment) (what : List UInt8) (progress : Progress) (server : Server)
    (outputs : List ServerOutput) : Prop where
  thread : server.metaThread = if progress.inserted then .waiting
    else if progress.replied then
      .opened sessionId { session with localSeq := session.localSeq + 1 }
    else .opening sender sessionId session
  order : progress.inserted = true → progress.replied = true
  before : progress.inserted = false → progress.matched = false ∧ progress.appended = 0 ∧
    server.sessions[sessionId]? = none
  behind : progress.inserted = true → ∃ current,
    server.sessions[sessionId]? = some current ∧ OpenedSession synAck what progress current
  unrefused : progress.refused = false →
    ∀ out ∈ emitted (sends outputs), hasFlag out.flags flagRst = false

section Follow

variable {config : ServerConfig} {sender : List UInt8} {sessionId : UInt64} {session : Session}
  {synAck : Segment} {what : List UInt8} {progress : Progress} {server : Server}
  {outputs : List ServerOutput}

/-- What a SYN/ACK does to the session of a client in the map. -/
theorem openedSession_synAck {current : Session} (h : OpenedSession synAck what progress current)
    (config : Config) (environment : Environment) (sessionId : UInt64)
    (hsyn : hasFlag synAck.flags flagSyn = true) (hack : hasFlag synAck.flags flagAck = true)
    (hrst : hasFlag synAck.flags flagRst = false) :
    (∃ next, (runInSession config environment sessionId synAck current).session = some next ∧
      OpenedSession synAck what { progress with matched := true } next) ∧
      ∀ out ∈ emitted (runInSession config environment sessionId synAck current).outputs,
        out.flags = flagAck := by
  have hopen : current.state ≠ .closed := by
    rw [h.state_eq]
    cases progress.matched <;> simp
  have hacked : OpenedSession synAck what { progress with matched := true }
      (synAcked synAck (touched environment synAck current)) := by
    have hclient := h.client
    have hdata := h.data_eq
    unfold synAcked
    dsimp only
    by_cases hstate : (touched environment synAck current).state = .established
    · have hmatched : progress.matched = true := by
        by_contra hnot
        have hsent := h.state_eq
        rw [if_neg hnot] at hsent
        exact absurd (hsent.symm.trans hstate) (by decide)
      simp only [if_pos hstate]
      exact ⟨hclient, hstate, fun _ ↦ h.peer hmatched, hdata⟩
    · simp only [if_neg hstate]
      exact ⟨hclient, rfl, fun _ ↦ rfl, hdata⟩
  rw [runInSession_syn config environment sessionId synAck hopen (by simp [hrst]) hsyn]
  obtain ⟨hsession, -, hacks⟩ := synKnown_synAck config environment sessionId synAck
    (show (touched environment synAck current).isClient = true from h.client) hack
  refine ⟨?_, hacks⟩
  rcases hsession with hkept | hreceived
  · exact ⟨_, hkept, hacked⟩
  · exact ⟨_, hreceived, hacked.client, hacked.state_eq, hacked.peer, hacked.data_eq⟩

/-- What a write does to the session of a client in the map. -/
theorem openedSession_addFromL7 {current : Session}
    (h : OpenedSession synAck what progress current) (flags : UInt32) :
    OpenedSession synAck what { progress with appended := progress.appended + 1 }
      (addFromL7 current flags what) := by
  have hdata : (addFromL7 current flags what).l7ToTcp.data = current.l7ToTcp.data ++ what := by
    unfold addFromL7 TcpData.add
    by_cases hwhat : what = []
    · simp only [hwhat, ne_eq, not_true_eq_false, if_false, List.append_nil]
      split_ifs <;> rfl
    · simp only [hwhat, ne_eq, not_false_eq_true, if_true]
      split_ifs <;> rfl
  have hrest : (addFromL7 current flags what).isClient = current.isClient ∧
      (addFromL7 current flags what).startPeerSeq = current.startPeerSeq := by
    unfold addFromL7
    dsimp only
    split_ifs <;> exact ⟨rfl, rfl⟩
  refine ⟨hrest.1.trans h.client, (addFromL7_receiving _ _ _).2.2.trans h.state_eq,
    fun hmatched ↦ hrest.2.trans (h.peer hmatched), ?_⟩
  rw [hdata, h.data_eq, List.replicate_succ', List.flatten_append]
  simp

/-- The step lemma for the reply. -/
theorem followsOpen_reply
    (h : FollowsOpen sender sessionId session synAck what progress server outputs) :
    FollowsOpen sender sessionId session synAck what (progress.advance .reply)
      (metaReply true server).1 (outputs ++ (metaReply true server).2) := by
  by_cases hreplied : progress.replied = true
  · -- `run_meta` is past the reply
    have hsame : progress.advance .reply = progress := by
      rw [Progress.advance, ← hreplied]
    have hidle : metaReply true server = (server, []) := by
      have hthread := h.thread
      rw [if_pos hreplied] at hthread
      unfold metaReply
      cases hinserted : progress.inserted <;> simp [hthread, hinserted]
    rw [hsame, hidle, List.append_nil]
    exact h
  · have hinserted : progress.inserted = false := by
      by_contra hnot
      exact hreplied (h.order (by simpa using hnot))
    have hthread : server.metaThread = .opening sender sessionId session := by
      have hthread := h.thread
      rwa [hinserted, if_neg (by decide), if_neg hreplied] at hthread
    have hreply : metaReply true server =
        ({ server with
          metaThread := .opened sessionId { session with localSeq := session.localSeq + 1 } },
        [.reply sender 0 (sessionIdText sessionId)]) := by
      simp [metaReply, hthread]
    rw [hreply]
    refine ⟨?_, fun hnot ↦ absurd (hinserted.symm.trans hnot) (by decide), h.before,
      fun hnot ↦ absurd (hinserted.symm.trans hnot) (by decide), ?_⟩
    · simp [Progress.advance, hinserted]
    · have hsilent : sends [ServerOutput.reply sender 0 (sessionIdText sessionId)] = [] := rfl
      intro hrefused
      rw [sends_append, hsilent, List.append_nil]
      exact h.unrefused hrefused

/-- The step lemma for the insertion. -/
theorem followsOpen_insert (hopens : Opens (sessionId, session))
    (h : FollowsOpen sender sessionId session synAck what progress server outputs) :
    FollowsOpen sender sessionId session synAck what (progress.advance .insert)
      (metaInsert server) outputs := by
  by_cases hready : progress.replied = true ∧ progress.inserted = false
  · obtain ⟨hreplied, hinserted⟩ := hready
    obtain ⟨hmatched, happended, hnone⟩ := h.before hinserted
    have hthread : server.metaThread =
        .opened sessionId { session with localSeq := session.localSeq + 1 } := by
      have hthread := h.thread
      rwa [hinserted, if_neg (by decide), if_pos hreplied] at hthread
    unfold metaInsert
    rw [hthread]
    refine ⟨by simp [Progress.advance, hreplied], fun _ ↦ hreplied,
      fun hnot ↦ absurd (hreplied.symm.trans hnot) (by decide), fun _ ↦ ?_, h.unrefused⟩
    refine ⟨{ session with localSeq := session.localSeq + 1 }, ?_, ?_⟩
    · exact getElem?_insertIfNew_of_none hnone _
    · obtain ⟨_, _, _, _, _, _, -, hsession⟩ := hopens
      dsimp only at hsession
      rw [hsession]
      refine ⟨rfl, ?_, fun hnot ↦ absurd (hmatched.symm.trans hnot) (by decide), ?_⟩
      · simp [Progress.advance, hmatched, openSession]
      · simp [Progress.advance, happended, openSession]
  · -- the session is in the map, or `run_meta` is before the reply
    have hequal : progress.replied = progress.inserted := by
      rw [Bool.eq_iff_iff]
      refine ⟨fun hreplied ↦ ?_, h.order⟩
      by_contra hinserted
      exact hready ⟨hreplied, by simpa using hinserted⟩
    have hsame : progress.advance .insert = progress :=
      congrArg (fun inserted ↦ { progress with inserted := inserted }) hequal
    have hidle : metaInsert server = server := by
      have hthread := h.thread
      unfold metaInsert
      split
      · next opened current hopened =>
        rw [hthread] at hopened
        split_ifs at hopened with hinserted hreplied
        exact absurd ⟨hreplied, by simpa using hinserted⟩ hready
      · rfl
    rw [hsame, hidle]
    exact h

/-- The step lemma for the SYN/ACK. -/
theorem followsOpen_synAck (config : ServerConfig) (environment : Environment)
    (hid : segmentId synAck = sessionId) (hsyn : hasFlag synAck.flags flagSyn = true)
    (hack : hasFlag synAck.flags flagAck = true) (hrst : hasFlag synAck.flags flagRst = false)
    (h : FollowsOpen sender sessionId session synAck what progress server outputs) :
    let result := runIn config.toConfig environment synAck server.sessions
    FollowsOpen sender sessionId session synAck what (progress.advance .synAck)
      { server with sessions := result.1 } (outputs ++ result.2.map .send) := by
  intro result
  subst hid
  cases hinserted : progress.inserted with
  | true =>
    obtain ⟨current, hentry, hcurrent⟩ := h.behind hinserted
    obtain ⟨⟨next, hnext, hfollows⟩, hacks⟩ := openedSession_synAck hcurrent config.toConfig
      environment (segmentId synAck) hsyn hack hrst
    obtain ⟨hafter, houtputs⟩ := runIn_known config.toConfig environment synAck hentry
    have hprogress : progress.advance .synAck = { progress with matched := true } := by
      rw [Progress.advance, if_pos hinserted]
    rw [hprogress]
    refine ⟨h.thread, h.order, fun hnot ↦ absurd (hinserted.symm.trans hnot) (by decide),
      fun _ ↦ ⟨next, hafter.trans hnext, hfollows⟩, fun hrefused out hout ↦ ?_⟩
    rw [sends_append, sends_map_send, emitted_append] at hout
    rcases List.mem_append.mp hout with hearlier | hlast
    · exact h.unrefused hrefused out hearlier
    · simp only [result, houtputs] at hlast
      rw [hacks out hlast]
      decide
  | false =>
    obtain ⟨hmatched, happended, hnone⟩ := h.before hinserted
    have hafter : (runIn config.toConfig environment synAck server.sessions).1[segmentId synAck]? =
        none := by
      rw [(runIn_unknown config.toConfig environment synAck hnone).1]
      refine (runInNew_other fun shmPeer hcompletes ↦ ?_).1
      exact absurd (hsyn.symm.trans hcompletes.syn) (by decide)
    have hprogress : progress.advance .synAck = { progress with refused := true } := by
      rw [Progress.advance, if_neg (by simp [hinserted])]
    rw [hprogress]
    exact ⟨h.thread, h.order, fun _ ↦ ⟨hmatched, happended, hafter⟩,
      fun hnot ↦ absurd (hinserted.symm.trans hnot) (by decide), fun hnot ↦ absurd hnot (by simp)⟩

/-- The step lemma for the data. -/
theorem followsOpen_data {message : List UInt8} (hlong : 12 ≤ message.length)
    (hid : messageId message = sessionId)
    (h : FollowsOpen sender sessionId session synAck (message.drop 12) progress server outputs) :
    FollowsOpen sender sessionId session synAck (message.drop 12) (progress.advance .data)
      { server with sessions := runOut message server.sessions } outputs := by
  subst hid
  rw [runOut, if_neg (by omega), ← messageId, ← messageFlags]
  cases hinserted : progress.inserted with
  | true =>
    obtain ⟨current, hentry, hcurrent⟩ := h.behind hinserted
    simp only [hentry, Progress.advance, if_pos hinserted]
    exact ⟨h.thread, h.order, fun hnot ↦ absurd (hinserted.symm.trans hnot) (by decide),
      fun _ ↦ ⟨_, Std.ExtTreeMap.getElem?_insert_self,
        openedSession_addFromL7 hcurrent (messageFlags message)⟩, h.unrefused⟩
  | false =>
    obtain ⟨hmatched, happended, hnone⟩ := h.before hinserted
    simp only [hnone]
    rw [Progress.advance, if_neg (by simp [hinserted])]
    exact h

/-- The run lemma: after any steps, the server is as far as the open is. Assumes: the SYN was
queued, and the map has no session with the id. -/
theorem followsOpen_run (config : ServerConfig) (environment : Environment)
    {message : List UInt8} (hlong : 12 ≤ message.length) (hid : messageId message = sessionId)
    (hopening : server.metaThread = .opening sender sessionId session)
    (hopens : Opens (sessionId, session)) (hfree : server.sessions[sessionId]? = none)
    (hsynAck : AnswersSyn session synAck) (steps : List OpenStep) :
    let final := run (threadStep config) (some server)
      (steps.map (openEvent environment synAck message))
    ∃ last, final.1 = some last ∧ FollowsOpen sender sessionId session synAck (message.drop 12)
      (progressOf steps) last final.2 := by
  intro final
  have hstart : FollowsOpen sender sessionId session synAck (message.drop 12) .initial server [] :=
    ⟨hopening, by simp [Progress.initial], fun _ ↦ ⟨rfl, rfl, hfree⟩,
      by simp [Progress.initial], by simp [sends]⟩
  simp only [final, run_map]
  refine run_induction (P := fun done state outputs ↦ ∃ last, state = some last ∧
    FollowsOpen sender sessionId session synAck (message.drop 12) (progressOf done) last outputs)
    ⟨server, rfl, hstart⟩ ?_ (along_true _ _ _)
  rintro done _ outputs step ⟨current, rfl, hcurrent⟩ -
  rw [progressOf_snoc]
  cases step with
  | reply => exact ⟨_, rfl, followsOpen_reply hcurrent⟩
  | insert =>
    have hsilent : (threadStep config (some current)
        (openEvent environment synAck message .insert)).2 = [] := rfl
    rw [hsilent, List.append_nil]
    exact ⟨_, rfl, followsOpen_insert hopens hcurrent⟩
  | synAck =>
    exact ⟨_, rfl, followsOpen_synAck config environment (hsynAck.segmentId_eq hopens)
      hsynAck.synFlag hsynAck.ackFlag hsynAck.rstFlag hcurrent⟩
  | data =>
    have hsilent : (threadStep config (some current)
        (openEvent environment synAck message .data)).2 = [] := rfl
    rw [hsilent, List.append_nil]
    exact ⟨_, rfl, followsOpen_data hlong hid hcurrent⟩

end Follow

/-! ### The answers -/

/-- No answer to the open is lost: the SYN/ACK has established the session, it was not answered with
an RST, and the data is in the buffer of the session. -/
def AnswersKept (config : ServerConfig) (environment : Environment) (server : Server)
    (sessionId : UInt64) (synAck : Segment) (message : List UInt8) (steps : List OpenStep) : Prop :=
  let final := run (threadStep config) (some server)
    (steps.map (openEvent environment synAck message))
  (∃ last current, final.1 = some last ∧ last.sessions[sessionId]? = some current ∧
    current.state = .established ∧ current.startPeerSeq = synAck.peerSeqNr ∧
    current.l7ToTcp.data = message.drop 12) ∧
    ∀ out ∈ emitted (sends final.2), hasFlag out.flags flagRst = false

/-- When no answer to an open is lost. Assumes: `run_meta` has queued the SYN, the map has no
session with the id of the new one, `synAck` answers the SYN, and `message` brings data for the
session. In every interleaving, the answers are kept exactly when the session is put in the map
before they come. -/
theorem answers_kept_iff (config : ServerConfig) (environment : Environment) (server : Server)
    (sender : List UInt8) (sessionId : UInt64) (session : Session) (synAck : Segment)
    (message : List UInt8) (steps : List OpenStep)
    (hopening : server.metaThread = .opening sender sessionId session)
    (hopens : Opens (sessionId, session)) (hfree : server.sessions[sessionId]? = none)
    (hsynAck : AnswersSyn session synAck) (hid : messageId message = sessionId)
    (hdata : message.drop 12 ≠ []) (hsteps : Interleaving steps) :
    AnswersKept config environment server sessionId synAck message steps ↔
      InsertedFirst steps := by
  have hlong : 12 ≤ message.length := by
    by_contra hshort
    exact hdata (List.drop_eq_nil_of_le (by omega))
  obtain ⟨last, hlast, hfollows⟩ := followsOpen_run config environment hlong hid hopening hopens
    hfree hsynAck steps
  obtain ⟨hinserted, hprogress, honce⟩ := progressOf_interleaving hsteps
  obtain ⟨current, hentry, hcurrent⟩ := hfollows.behind hinserted
  constructor
  · rintro ⟨⟨last', current', hlast', hentry', hstate, -, hbuffer⟩, -⟩
    obtain rfl : last = last' := Option.some.inj (hlast.symm.trans hlast')
    obtain rfl : current = current' := Option.some.inj (hentry.symm.trans hentry')
    refine hprogress.mp ⟨?_, ?_⟩
    · by_contra hunmatched
      have hwaits := hcurrent.state_eq
      rw [if_neg hunmatched, hstate] at hwaits
      exact absurd hwaits (by decide)
    · intro hnone
      have hempty := hcurrent.data_eq
      rw [hnone, hbuffer] at hempty
      exact hdata hempty
  · intro hfirst
    obtain ⟨hmatched, -⟩ := hprogress.mpr hfirst
    obtain ⟨hunrefused, happended⟩ := honce hfirst
    refine ⟨⟨last, current, hlast, hentry, ?_, hcurrent.peer hmatched, ?_⟩,
      hfollows.unrefused hunrefused⟩
    · rw [hcurrent.state_eq, if_pos hmatched]
    · rw [hcurrent.data_eq, happended]
      simp

/-- The session of the request of `tcp_test.cpp`. -/
def sampleClient : Session :=
  openSession [10, 0, 0, 1] [192, 168, 1, 1] 40000 2500 (ascii "local-pl-tcp") 100

/-- The sample server after it has queued the SYN. -/
def sampleOpening : Server :=
  { Server.start with metaThread := .opening (ascii "test") sampleClientId sampleClient }

/-- The SYN/ACK of the peer. -/
def sampleSynAckIn : Segment :=
  ⟨[192, 168, 1, 1], [10, 0, 0, 1], 2500, 40000, 900, 101, flagSyn ||| flagAck, 1024, 1, [],
    length_nil_lt⟩

/-- The session is put in the map first, and both answers are kept. -/
theorem answers_kept_behind_insertion :
    AnswersKept sampleServer (sampleAt 10) sampleOpening sampleClientId sampleSynAckIn
      (l7Write sampleClientId 0 [104, 105]) [.reply, .insert, .synAck, .data] :=
  (answers_kept_iff sampleServer (sampleAt 10) sampleOpening (ascii "test") sampleClientId
    sampleClient sampleSynAckIn (l7Write sampleClientId 0 [104, 105])
    [.reply, .insert, .synAck, .data] rfl ⟨_, _, _, _, _, _, rfl, rfl⟩
    Std.ExtTreeMap.getElem?_empty
    ⟨rfl, rfl, rfl, rfl, by decide, by decide, by decide, by decide⟩ (by decide +kernel)
    (by decide +kernel) ⟨List.Perm.refl _, by decide, by decide⟩).mpr (by decide)

/-- The peer and the application are faster than `run_meta`: the SYN/ACK is answered with an RST,
the data is dropped, and the session waits for a SYN/ACK. -/
theorem answers_lost_before_insertion :
    Interleaving [.reply, .synAck, .data, .insert] ∧
      (metaRequest sampleServer sampleMeta sampleOpen .start).1.map Server.metaThread =
        some sampleOpening.metaThread ∧
      let final := run (threadStep sampleServer) (some sampleOpening)
        ([.reply, .synAck, .data, .insert].map (openEvent (sampleAt 10) sampleSynAckIn
          (l7Write sampleClientId 0 [104, 105])))
      (emitted (sends final.2)).map OutSegment.flags = [flagRst] ∧
        (final.1.bind fun last ↦ last.sessions[sampleClientId]?).map (fun current ↦
          (current.state, current.l7ToTcp.data)) = some (.synSent, []) :=
  ⟨⟨by decide, by decide, by decide⟩, by decide +kernel, by decide +kernel⟩

end MyIPNG.Tcp
