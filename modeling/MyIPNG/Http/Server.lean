import MyIPNG.Gopher.Server

/-!
# The HTTP handler

`process_http_request` of `http_server.cpp` on a plain session: the thread that answers one HTTP
request. It takes chunks from the client until there is an empty line in what it has, reads the
method and the URL from the first line, and sends the file of that name below `http_base_path`.

The file system, which sends the queue to TCP takes and when a stop flag is set are parameters. What
the handler does is a list of events. `access_log` only writes to the log and is left out.
-/

set_option autoImplicit false
set_option relaxedAutoImplicit false

namespace MyIPNG.Http

open Utils
open Gopher (slash cStr)

/-! ### Events -/

/-- What the handler does. -/
inductive HttpEvent
  | openCall (path : List UInt8)
  | sent (bytes : List UInt8)
  | fin
deriving DecidableEq, Repr

/-- A file that could be opened: its size, unless `fstat` fails, and its bytes. -/
structure OpenedFile where
  size : Option ℕ
  content : List UInt8
deriving DecidableEq, Repr

/-- What the handler finds: what `open` gives for a path, the sends that are taken, counted from
zero, and the turns of its loop in which a stop flag is set. -/
structure Environment where
  openFile : List UInt8 → Option OpenedFile
  sendOk : ℕ → Bool
  stopped : ℕ → Bool

/-! ### Answers -/

/-- A number in base 10. -/
def decimalText (number : ℕ) : List UInt8 :=
  (Nat.toDigits 10 number).map fun c ↦ UInt8.ofNat c.toNat

/-- `send_http_header`: the text that is sent. -/
def httpHeaders (which payloadSize : ℕ) (message mimeType : List UInt8) : List UInt8 :=
  ascii "HTTP/1.0 " ++ decimalText which ++ ascii " " ++ message ++
    ascii "\r\nServer: MyIP-NG HTTPd\r\nContent-Type: " ++ mimeType ++
    ascii "\r\nContent-Length: " ++ decimalText payloadSize ++ ascii "\r\n\r\n"

/-- An answer without a payload. -/
def refusal (environment : Environment) (which : ℕ) (message : List UInt8) : List HttpEvent :=
  if environment.sendOk 0 then [.sent (httpHeaders which 0 message (ascii "text/html"))] else []

/-- The part of a URL behind its last dot. -/
def extensionOf (url : List UInt8) : Option (List UInt8) :=
  if 46 ∈ url then some (url.reverse.takeWhile (· ≠ 46)).reverse else none

/-- `mime_type`. -/
def mimeTypeOf (url : List UInt8) : List UInt8 :=
  match extensionOf url with
  | none => ascii "text/plain"
  | some ext =>
    if ext = ascii "css" then ascii "text/css"
    else if ext = ascii "html" ∨ ext = ascii "htm" then ascii "text/html"
    else if ext = ascii "ico" then ascii "image/vnd.microsoft.icon"
    else if ext = ascii "png" then ascii "image/png"
    else if ext = ascii "jpg" then ascii "image/jpeg"
    else if ext = ascii "svg" then ascii "image/svg+xml"
    else ascii "text/plain"

/-- The loop that sends a file of a given length, until it is done, a stop flag is set, a read is
short or a send is refused. The header was the first send. -/
def sendLoop (environment : Environment) (turn : ℕ) (content : List UInt8) (length : ℕ) :
    List HttpEvent :=
  if length = 0 then []
  else if environment.stopped turn then []
  else if content.length < min length 4096 ∨ environment.sendOk (turn + 1) = false then []
  else .sent (content.take (min length 4096)) ::
    sendLoop environment (turn + 1) (content.drop (min length 4096)) (length - min length 4096)
termination_by length
decreasing_by omega

/-- The part of the handler for a file that could be opened. -/
def sendFile (environment : Environment) (url : List UInt8) (file : OpenedFile) :
    List HttpEvent :=
  match file.size with
  | none => refusal environment 500 (ascii "Unknown error")
  | some length =>
    if environment.sendOk 0 then
      .sent (httpHeaders 200 length (ascii "OK!") (mimeTypeOf url)) ::
        sendLoop environment 0 file.content length
    else []

/-! ### Paths -/

/-- `http_base_path`. -/
def httpBasePath : List UInt8 := ascii "./www"

/-- The URL that is put behind the base path. -/
def rewriteUrl (url : List UInt8) : List UInt8 :=
  if url = ascii "/" then ascii "/index.html"
  else if url.head? ≠ some slash then slash :: url
  else url

/-- The part of the handler for a URL. -/
def serveUrl (environment : Environment) (url : List UInt8) : List HttpEvent :=
  if url = [] then refusal environment 405 (ascii "URL missing")
  else if find (ascii "..") url ≠ none ∨ find (ascii "~") url ≠ none then
    refusal environment 500 (ascii "Invalid URL")
  else
    let localFile := cStr (httpBasePath ++ rewriteUrl url)
    .openCall localFile ::
      match environment.openFile localFile with
      | none => refusal environment 404 (ascii "Not found")
      | some file => sendFile environment (rewriteUrl url) file

/-! ### Requests -/

theorem ascii_space_nonempty : ascii " " ≠ [] := by decide

theorem ascii_crlf_nonempty : ascii "\r\n" ≠ [] := by decide

/-- What the first line of a request gives: a URL, an answer that refuses it, or neither. -/
inductive RequestLine
  | url (url : List UInt8)
  | refused (which : ℕ) (message : List UInt8)
  | invalid
deriving DecidableEq, Repr

/-- The body of the loop over the lines, for the first one. A line with the method `GET` in front of
a space has the four bytes that `substr` skips. -/
def parseRequestLine (line : List UInt8) : RequestLine :=
  let parts := split line ⟨ascii " ", ascii_space_nonempty⟩
  if parts.length ≠ 3 then
    .refused 405 (ascii "Can't make cheese from your supposedly HTTP request")
  else if parts.head? = some (ascii "GET") then
    let url := line.drop 4
    match find (ascii " ") url with
    | none => .invalid
    | some space => .url (url.take space)
  else .refused 501 (ascii "Only GET please")

/-- The loop over the lines of a request: the first one decides. -/
def parseRequest (recvBuffer : List UInt8) : RequestLine :=
  match split recvBuffer ⟨ascii "\r\n", ascii_crlf_nonempty⟩ with
  | [] => .url []
  | line :: _ => parseRequestLine line

/-- What the loop over the chunks ends with: it waits for more of them, it has too much, or there is
an empty line in what it has. -/
inductive ReceivedRequest
  | waiting
  | tooLong
  | request (recvBuffer : List UInt8)
deriving DecidableEq, Repr

/-- The loop over the chunks. The length is tested in front of each of them. -/
def receiveRequest (recvBuffer : List UInt8) : List (List UInt8) → ReceivedRequest
  | [] => if 32768 < recvBuffer.length then .tooLong else .waiting
  | incoming :: chunks =>
    if 32768 < recvBuffer.length then .tooLong
    else if find (ascii "\r\n\r\n") (recvBuffer ++ incoming) = none then
      receiveRequest (recvBuffer ++ incoming) chunks
    else .request (recvBuffer ++ incoming)

/-- `process_http_request` for a request that was received. -/
def answerRequest (environment : Environment) (recvBuffer : List UInt8) : List HttpEvent :=
  match parseRequest recvBuffer with
  | .url url => serveUrl environment url
  | .refused which message => refusal environment which message
  | .invalid => []

/-- `process_http_request`, or nothing when it still waits. Every way out of it is through
`end_session`. -/
def processHttpRequest (environment : Environment) (chunks : List (List UInt8)) :
    Option (List HttpEvent) :=
  match receiveRequest [] chunks with
  | .waiting => none
  | .tooLong => some [.fin]
  | .request recvBuffer => some (answerRequest environment recvBuffer ++ [.fin])

end MyIPNG.Http
