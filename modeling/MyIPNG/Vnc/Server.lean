import MyIPNG.Utils.Net
import MyIPNG.Utils.Str
import MyIPNG.Utils.TcpHelpers
import MyIPNG.Vnc.Update

/-!
# The VNC handler

`process_vnc_request` of `vnc_server.cpp`: the thread that talks to one VNC client. Its loop body is
a row of blocks, one for each state, and a block that moves the session to another state lets the
blocks behind it go on with that state. `processVncRequest` runs the loop over the chunks that come
from the client.

A block leaves a session to go on with, or it ends the session (`break`), waits for bytes that do
not come, fails an assertion, or writes or reads behind the end of a block of memory. What it did up
to there is a list of events: the bytes that it sent and received and the states that it entered.
The session is not stopped from outside. A framebuffer update is what `calculate_fb_update` makes of
the screen, as it is at that time, with the compressors of zlib and TurboJPEG.
-/

set_option autoImplicit false
set_option relaxedAutoImplicit false

namespace MyIPNG.Vnc

open Base Base.Reading Utils

/-! ### Sessions, events and outcomes -/

/-- `vnc_state_t`. -/
inductive VncState
  | initialHandshakeServerSend
  | initialHandshakeClientResp
  | securityHandshakeServer
  | securityHandshakeClientResp
  | clientInit
  | serverInit
  | runningWaitingCmd
  | runningWaitingData
  | runningWaitingDataExtra
  | runningWaitingDataIgnore
  | terminate
deriving DecidableEq, Repr

/-- What the handler takes from its surroundings: the size of the screen, and, when it has made a
number of sends, the bytes of the screen and the memory behind them, what the compressors make, and
whether the next send is taken. -/
structure Surroundings where
  fbW : ℕ
  fbH : ℕ
  buffer : ℕ → List UInt8
  size : ∀ nSends, (buffer nSends).length = 3 * fbW * fbH
  behind : ℕ → ℕ → UInt8
  compressors : ℕ → Compressors
  sendOk : ℕ → Bool

/-- The framebuffer at a time. -/
def Surroundings.fb (surroundings : Surroundings) (nSends : ℕ) : FrameBuffer :=
  ⟨surroundings.fbW, surroundings.fbH, surroundings.buffer nSends, surroundings.size nSends⟩

/-- The session and the local variables of the handler, with the number of sends so far. -/
structure Handler where
  state : VncState
  depth : UInt8
  encodings : List ℤ
  nEncodings : ℤ
  runningCmd : ℤ
  ignoreDataN : ℤ
  incoming : List (List UInt8)
  nSends : ℕ
deriving DecidableEq, Repr

/-- A new session, and the chunks that its client sends. -/
def Handler.start (incoming : List (List UInt8)) : Handler :=
  ⟨.initialHandshakeServerSend, 8, [], -1, -1, -1, incoming, 0⟩

/-- What the handler does. -/
inductive VncEvent
  | sent (bytes : List UInt8)
  | received (bytes : List UInt8)
  | entered (state : VncState)
  | fin
deriving DecidableEq, Repr

/-- How a block is left: to the next one, by `break`, not at all because bytes are missing, by an
assertion that fails, or by a byte that is written or read behind the end of a block of memory. -/
inductive Outcome
  | goes (handler : Handler)
  | ends
  | waits
  | aborts
  | overruns
deriving DecidableEq, Repr

/-- A block: how it is left, and what it did. -/
abbrev Result := Outcome × List VncEvent

/-- The next block. -/
def Result.andThen (result : Result) (next : Handler → Result) : Result :=
  match result.1 with
  | .goes handler =>
    let final := next handler
    (final.1, result.2 ++ final.2)
  | .ends => (.ends, result.2)
  | .waits => (.waits, result.2)
  | .aborts => (.aborts, result.2)
  | .overruns => (.overruns, result.2)

/-- A change of the state. -/
def enter (state : VncState) (handler : Handler) : Result :=
  (.goes { handler with state := state }, [.entered state])

/-- A send that ends the session when it is refused. -/
def sendFunc (surroundings : Surroundings) (bytes : List UInt8) (handler : Handler) : Result :=
  if surroundings.sendOk handler.nSends then
    (.goes { handler with nSends := handler.nSends + 1 }, [.sent bytes])
  else (.ends, [])

/-- `recv_alloc`, and what is done with the bytes. All sizes that it is asked for are below
`2 ^ 31`. -/
def recvAlloc (n : ℕ) (next : List UInt8 → Handler → Result) (handler : Handler) : Result :=
  match recvFunc n handler.incoming with
  | none => (.waits, [])
  | some (bytes, incoming) =>
    let final := next bytes { handler with incoming := incoming }
    (final.1, .received bytes :: final.2)

/-- The conversion of an `int` to `size_t`. -/
def sizeT (n : ℤ) : ℕ := (n % 2 ^ 64).toNat

/-- Four bytes in network order as an `int`. -/
def getInt (bytes : List UInt8) (position : ℕ) : ℤ := (getUint32 bytes position).toBitVec.toInt

/-! ### The blocks of the handshake -/

/-- The block for `vs_initial_handshake_server_send`. -/
def initialHandshakeServerSend (surroundings : Surroundings) (handler : Handler) : Result :=
  if handler.state = .initialHandshakeServerSend then
    (sendFunc surroundings (ascii "RFB 003.008\n") handler).andThen
      (enter .initialHandshakeClientResp)
  else (.goes handler, [])

/-- The block for `vs_initial_handshake_client_resp`. Only three bytes of the version are looked
at. -/
def initialHandshakeClientResp (handler : Handler) : Result :=
  if handler.state = .initialHandshakeClientResp then
    recvAlloc 12 (fun handshake handler ↦
      if handshake.take 3 = ascii "RFB" then enter .securityHandshakeServer handler
      else (.ends, [])) handler
  else (.goes handler, [])

/-- The block for `vs_security_handshake_server`. -/
def securityHandshakeServer (surroundings : Surroundings) (handler : Handler) : Result :=
  if handler.state = .securityHandshakeServer then
    (sendFunc surroundings [1, 1] handler).andThen (enter .securityHandshakeClientResp)
  else (.goes handler, [])

/-- The block for `vs_security_handshake_client_resp`. -/
def securityHandshakeClientResp (surroundings : Surroundings) (handler : Handler) : Result :=
  if handler.state = .securityHandshakeClientResp then
    recvAlloc 1 (fun chosenSec handler ↦
      if chosenSec.getD 0 0 = 1 then
        (sendFunc surroundings [0, 0, 0, 0] handler).andThen (enter .clientInit)
      else (sendFunc surroundings [0, 0, 0, 1] handler).andThen fun _ ↦ (.ends, [])) handler
  else (.goes handler, [])

/-- The block for `vs_client_init`. -/
def clientInit (handler : Handler) : Result :=
  if handler.state = .clientInit then
    recvAlloc 1 (fun _ handler ↦ enter .serverInit handler) handler
  else (.goes handler, [])

/-- The message of the server's initialisation. -/
def serverInitMessage (surroundings : Surroundings) : List UInt8 :=
  [UInt8.ofNat (surroundings.fbW >>> 8), UInt8.ofNat (surroundings.fbW &&& 255),
    UInt8.ofNat (surroundings.fbH >>> 8), UInt8.ofNat (surroundings.fbH &&& 255),
    32, 24, 1, 1, 0, 255, 0, 255, 0, 255, 16, 8, 0, 0, 0, 0, 0, 0, 0, 8] ++ ascii "MyIP(NG)"

/-- The block for `vs_server_init`. The initial frame behind it is never sent:
`cont_or_initial_upd_frame` stays false. -/
def serverInit (surroundings : Surroundings) (handler : Handler) : Result :=
  if handler.state = .serverInit then
    (sendFunc surroundings (serverInitMessage surroundings) handler).andThen
      (enter .runningWaitingCmd)
  else (.goes handler, [])

/-! ### The blocks of the commands -/

/-- The block for `vs_running_waiting_cmd`. -/
def runningWaitingCmd (handler : Handler) : Result :=
  if handler.state = .runningWaitingCmd then
    recvAlloc 1 (fun cmd handler ↦
      enter .runningWaitingData { handler with runningCmd := (cmd.getD 0 0).toNat }) handler
  else (.goes handler, [])

/-- `proceed`: the command was consumed. -/
def proceed (handler : Handler) : Result :=
  enter .runningWaitingCmd { handler with runningCmd := -1 }

/-- The parameters of a FramebufferUpdateRequest. -/
def fbRequest (parameters : List UInt8) : FbRequest where
  incremental := parameters.getD 0 0 != 0
  x := (getUint16 parameters 1).toNat
  y := (getUint16 parameters 3).toNat
  w := (getUint16 parameters 5).toNat
  h := (getUint16 parameters 7).toNat

/-- The message for a FramebufferUpdateRequest: the update, without a byte for a rectangle that is
not on the screen (`{ nullptr, 0 }`). Nothing when the update is written behind the `16 + 4 * w * h`
bytes that are allocated for it, or is read from behind the framebuffer. -/
def fbMessage (surroundings : Surroundings) (handler : Handler) (request : FbRequest) :
    Option (List UInt8) :=
  match calculateFbUpdate (surroundings.compressors handler.nSends)
    (surroundings.fb handler.nSends) (surroundings.behind handler.nSends) handler.encodings request
    handler.depth with
  | none => some []
  | some update =>
    if update.value.length ≤ 16 + 4 * (request.w * request.h) ∧
        update.Below (3 * (surroundings.fbW * surroundings.fbH)) then some update.value
    else none

/-- The answer to a FramebufferUpdateRequest. -/
def answerRequest (surroundings : Surroundings) (parameters : List UInt8) (handler : Handler) :
    Result :=
  match fbMessage surroundings handler (fbRequest parameters) with
  | some message => (sendFunc surroundings message handler).andThen proceed
  | none => (.overruns, [])

/-- The block for `vs_running_waiting_data`. -/
def runningWaitingData (surroundings : Surroundings) (handler : Handler) : Result :=
  if handler.state = .runningWaitingData then
    if handler.runningCmd = 0 then
      recvAlloc 19 (fun pf handler ↦
        enter .runningWaitingCmd { handler with depth := pf.getD 4 0 }) handler
    else if handler.runningCmd = 2 then
      recvAlloc 3 (fun parameters handler ↦ enter .runningWaitingDataExtra
        { handler with nEncodings := (getUint16 parameters 1).toNat }) handler
    else if handler.runningCmd = 3 then
      recvAlloc 9 (answerRequest surroundings) handler
    else if handler.runningCmd = 4 then recvAlloc 7 (fun _ handler ↦ proceed handler) handler
    else if handler.runningCmd = 5 then recvAlloc 5 (fun _ handler ↦ proceed handler) handler
    else if handler.runningCmd = 6 then
      recvAlloc 7 (fun parameters handler ↦
        let ignoreDataN := getInt parameters 3
        enter (if ignoreDataN ≠ 0 then .runningWaitingDataIgnore else .runningWaitingCmd)
          { handler with ignoreDataN := ignoreDataN }) handler
    else (.ends, [])
  else (.goes handler, [])

/-- The block for `vs_running_waiting_data_ignore`, with its assertion. -/
def runningWaitingDataIgnore (handler : Handler) : Result :=
  if handler.state = .runningWaitingDataIgnore then
    if 0 < handler.ignoreDataN then
      recvAlloc (sizeT handler.ignoreDataN) (fun _ handler ↦
        enter .runningWaitingCmd { handler with ignoreDataN := -1 }) handler
    else (.aborts, [])
  else (.goes handler, [])

/-- The block for `vs_running_waiting_data_extra`. -/
def runningWaitingDataExtra (handler : Handler) : Result :=
  if handler.state = .runningWaitingDataExtra then
    if handler.runningCmd = 2 then
      recvAlloc (sizeT (handler.nEncodings * 4)) (fun encodingsBin handler ↦
        enter .runningWaitingCmd { handler with
          encodings := (List.range handler.nEncodings.toNat).map fun i ↦
            getInt encodingsBin (i * 4)
          nEncodings := -1 }) handler
    else (.ends, [])
  else (.goes handler, [])

/-! ### The loop -/

/-- The blocks up to the first command. -/
def handshake (surroundings : Surroundings) (handler : Handler) : Result :=
  (((((initialHandshakeServerSend surroundings handler).andThen
    initialHandshakeClientResp).andThen
    (securityHandshakeServer surroundings)).andThen
    (securityHandshakeClientResp surroundings)).andThen clientInit).andThen
    (serverInit surroundings)

/-- The blocks of a command. -/
def command (surroundings : Surroundings) (handler : Handler) : Result :=
  (((runningWaitingCmd handler).andThen (runningWaitingData surroundings)).andThen
    runningWaitingDataIgnore).andThen runningWaitingDataExtra

/-- The loop, for a number of turns. -/
def vncLoop (surroundings : Surroundings) : ℕ → Handler → Result
  | 0, handler => (.goes handler, [])
  | turns + 1, handler =>
    ((handshake surroundings handler).andThen (command surroundings)).andThen
      (vncLoop surroundings turns)

/-- `process_vnc_request`, for a number of turns of its loop: behind the loop the session is
finished. -/
def processVncRequest (surroundings : Surroundings) (turns : ℕ) (incoming : List (List UInt8)) :
    Result :=
  let result := vncLoop surroundings turns (.start incoming)
  if result.1 = .ends then (.ends, result.2 ++ [.fin]) else result

end MyIPNG.Vnc
