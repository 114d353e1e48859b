import Mathlib.Data.List.Infix
import MyIPNG.Base.Lines
import MyIPNG.Http.DocumentRoot

/-!
# What an HTTP client gets

A client reads the stream that the handler sends as a status line, headers up to an empty line, and
a body (`readResponse`). The texts that the handler puts in the head have no line end, so the client
finds the fields again, and the body begins where the handler began to send the file
(`readResponse_httpHeaders`).

`answers_are_responses` says of every request, file system and pattern of refused sends that the
client gets nothing or one response, that a status other than 200 comes with no body, and that a
body is a beginning of the file that was opened, no longer than announced. When nothing is refused
or stopped, the body is all that was announced.
-/

set_option autoImplicit false
set_option relaxedAutoImplicit false

namespace MyIPNG.Http

open Base Utils
open Gopher (cStr)

/-! ### The client -/

/-- A response: the status, the type and the length that are announced, and the body. -/
structure Response where
  which : ℕ
  contentType : List UInt8
  contentLength : ℕ
  body : List UInt8
deriving DecidableEq, Repr

/-- A number in base 10 that a client reads. -/
def readDecimal (text : List UInt8) : Option ℕ :=
  let digits := text.map fun c ↦ Char.ofNat c.toNat
  if digits ≠ [] ∧ digits.all Char.isDigit then some (Nat.ofDigitChars 10 digits 0) else none

/-- The value of a header. -/
def headerValue (name : List UInt8) (headers : List (List UInt8)) : Option (List UInt8) :=
  (headers.find? fun header ↦ decide (name <+: header)).map fun header ↦ header.drop name.length

/-- A client reads a response. -/
def readResponse (stream : List UInt8) : Option Response :=
  match readHead stream with
  | some (status :: headers, body) => do
    let rest ← headerValue (ascii "HTTP/1.0 ") [status]
    let which ← readDecimal (rest.takeWhile (· ≠ 32))
    let contentType ← headerValue (ascii "Content-Type: ") headers
    let text ← headerValue (ascii "Content-Length: ") headers
    let contentLength ← readDecimal text
    some ⟨which, contentType, contentLength, body⟩
  | _ => none

/-- The bytes that are sent. -/
def sentBytes (events : List HttpEvent) : List UInt8 :=
  events.flatMap fun event ↦
    match event with
    | .sent bytes => bytes
    | _ => []

/-! ### The head -/

/-- The lines of `send_http_header`. -/
def headLines (which payloadSize : ℕ) (message mimeType : List UInt8) : List (List UInt8) :=
  [ascii "HTTP/1.0 " ++ (decimalText which ++ ascii " " ++ message),
    ascii "Server: MyIP-NG HTTPd", ascii "Content-Type: " ++ mimeType,
    ascii "Content-Length: " ++ decimalText payloadSize]

theorem httpHeaders_eq_writeHead (which payloadSize : ℕ) (message mimeType : List UInt8) :
    httpHeaders which payloadSize message mimeType =
      writeHead (headLines which payloadSize message mimeType) := by
  have hserver : ascii "\r\nServer: MyIP-NG HTTPd\r\nContent-Type: " =
      crlf ++ (ascii "Server: MyIP-NG HTTPd" ++ (crlf ++ ascii "Content-Type: ")) := by
    decide +kernel
  have hlength : ascii "\r\nContent-Length: " = crlf ++ ascii "Content-Length: " := by
    decide +kernel
  have hend : ascii "\r\n\r\n" = crlf ++ crlf := by
    decide +kernel
  rw [httpHeaders, hserver, hlength, hend]
  simp only [writeHead, headLines, List.flatMap_cons, List.flatMap_nil, List.append_assoc,
    List.append_nil]

/-- A digit of a number is a byte between `0` and `9`. -/
theorem digit_range {number : ℕ} {digit : Char} (h : digit ∈ Nat.toDigits 10 number) :
    48 ≤ digit.toNat ∧ digit.toNat ≤ 57 ∧ (UInt8.ofNat digit.toNat).toNat = digit.toNat := by
  have hplain := Nat.isDigit_of_mem_toDigits (by decide) (by decide) h
  obtain ⟨hlow, hhigh⟩ : 48 ≤ digit.toNat ∧ digit.toNat ≤ 57 := by
    simpa [Char.isDigit, UInt32.le_iff_toNat_le] using hplain
  have hbyte : digit.toNat < UInt8.size := Nat.lt_of_le_of_lt hhigh (by decide)
  exact ⟨hlow, hhigh, UInt8.toNat_ofNat_of_lt' hbyte⟩

theorem ne_of_mem_decimalText {number : ℕ} {c : UInt8} (hc : c < 48) :
    c ∉ decimalText number := by
  intro hmem
  obtain ⟨digit, hdigit, rfl⟩ := List.mem_map.mp hmem
  obtain ⟨hlow, -, hbyte⟩ := digit_range hdigit
  have hlt := UInt8.lt_iff_toNat_lt.mp hc
  rw [hbyte] at hlt
  exact absurd hlt (Nat.not_lt.mpr hlow)

/-- A client reads a number as the handler writes it. -/
theorem readDecimal_decimalText (number : ℕ) : readDecimal (decimalText number) = some number := by
  have hdigits : (decimalText number).map (fun c ↦ Char.ofNat c.toNat) =
      Nat.toDigits 10 number := by
    rw [decimalText, List.map_map]
    conv_rhs => rw [← List.map_id (Nat.toDigits 10 number)]
    apply List.map_congr_left
    intro digit hdigit
    rw [Function.comp_apply, (digit_range hdigit).2.2, Char.ofNat_toNat]
    rfl
  have hall : (Nat.toDigits 10 number).all Char.isDigit = true := by
    apply List.all_eq_true.mpr
    exact fun digit hdigit ↦ Nat.isDigit_of_mem_toDigits (by decide) (by decide) hdigit
  rw [readDecimal, hdigits, if_pos ⟨Nat.toDigits_ne_nil, hall⟩, Nat.ofDigitChars_ten_toDigits]

/-- The value of the first header, when it has the name. -/
theorem headerValue_self (name value : List UInt8) (headers : List (List UInt8)) :
    headerValue name ((name ++ value) :: headers) = some value := by
  rw [headerValue, List.find?_cons_of_pos (by simp), Option.map_some, List.drop_left]

/-- A header with another name is passed over. -/
theorem headerValue_skip {name header : List UInt8} (h : ¬ name <+: header)
    (headers : List (List UInt8)) :
    headerValue name (header :: headers) = headerValue name headers := by
  rw [headerValue, List.find?_cons_of_neg (by simpa using h), headerValue]

/-- A client reads what `send_http_header` says and what is sent behind it. Assumes: texts without a
carriage return. -/
theorem readResponse_httpHeaders {message mimeType : List UInt8} (hmessage : 13 ∉ message)
    (hmimeType : 13 ∉ mimeType) (which payloadSize : ℕ) (body : List UInt8) :
    readResponse (httpHeaders which payloadSize message mimeType ++ body) =
      some ⟨which, mimeType, payloadSize, body⟩ := by
  have hdecimal : ∀ number, 13 ∉ decimalText number := fun _ ↦ ne_of_mem_decimalText (by decide)
  have hlines : ∀ line ∈ headLines which payloadSize message mimeType, IsLine line := by
    simp only [headLines, List.forall_mem_cons]
    refine ⟨⟨?_, ?_⟩, ?_, ⟨?_, ?_⟩, ⟨?_, ?_⟩, fun _ hmem ↦ absurd hmem List.not_mem_nil⟩
    · exact List.append_ne_nil_of_left_ne_nil (by decide) _
    · simp only [List.mem_append, not_or]
      exact ⟨by decide +kernel, ⟨hdecimal which, by decide +kernel⟩, hmessage⟩
    · decide +kernel
    · exact List.append_ne_nil_of_left_ne_nil (by decide) _
    · simp only [List.mem_append, not_or]
      exact ⟨by decide +kernel, hmimeType⟩
    · exact List.append_ne_nil_of_left_ne_nil (by decide) _
    · simp only [List.mem_append, not_or]
      exact ⟨by decide +kernel, hdecimal payloadSize⟩
  have hstatus : (decimalText which ++ ascii " " ++ message).takeWhile (· ≠ 32) =
      decimalText which := by
    have hspace : ascii " " = [32] := by decide +kernel
    rw [hspace, List.append_assoc, List.takeWhile_append_of_pos]
    · simp
    · intro c hc
      apply decide_eq_true
      rintro rfl
      exact ne_of_mem_decimalText (by decide) hc
  have htype : ¬ ascii "Content-Type: " <+: ascii "Server: MyIP-NG HTTPd" := by
    decide +kernel
  have hlength : ¬ ascii "Content-Length: " <+: ascii "Server: MyIP-NG HTTPd" := by
    decide +kernel
  have hother : ¬ ascii "Content-Length: " <+: ascii "Content-Type: " ++ mimeType := by
    intro hbegins
    have hname : ascii "Content-L" <+: ascii "Content-Length: " := by
      decide +kernel
    have hcut : ascii "Content-L" <+: ascii "Content-Type: " :=
      List.prefix_of_prefix_length_le (hname.trans hbegins) (List.prefix_append _ mimeType)
        (by decide +kernel)
    exact absurd hcut (by decide +kernel)
  rw [httpHeaders_eq_writeHead, readResponse, readHead_writeHead hlines]
  simp only [headLines, headerValue_self, headerValue_skip htype, headerValue_skip hlength,
    headerValue_skip hother, hstatus, readDecimal_decimalText, Option.bind_eq_bind,
    Option.bind_some]

theorem not_mem_mimeTypeOf (url : List UInt8) : 13 ∉ mimeTypeOf url := by
  unfold mimeTypeOf
  split
  · decide +kernel
  · split_ifs <;> decide +kernel

/-! ### What is sent -/

@[simp] theorem sentBytes_nil : sentBytes [] = [] := rfl

@[simp] theorem sentBytes_openCall (path : List UInt8) (events : List HttpEvent) :
    sentBytes (.openCall path :: events) = sentBytes events := rfl

@[simp] theorem sentBytes_sent (bytes : List UInt8) (events : List HttpEvent) :
    sentBytes (.sent bytes :: events) = bytes ++ sentBytes events := rfl

/-- Every send is taken, and no stop flag is set. -/
def Undisturbed (environment : Environment) : Prop :=
  (∀ send, environment.sendOk send = true) ∧ ∀ turn, environment.stopped turn = false

/-- The parts of a file that are sent are its beginning, as far as its length goes. -/
theorem sentBytes_sendLoop (environment : Environment) (turn : ℕ) (content : List UInt8)
    (length : ℕ) :
    sentBytes (sendLoop environment turn content length) <+: content.take length ∧
      .fin ∉ sendLoop environment turn content length ∧
      (Undisturbed environment → length ≤ content.length →
        sentBytes (sendLoop environment turn content length) = content.take length) := by
  induction turn, content, length using sendLoop.induct environment with
  | case1 => simp [sendLoop]
  | case2 turn content length hlength hstopped =>
    rw [sendLoop, if_neg hlength, if_pos hstopped]
    refine ⟨List.nil_prefix, List.not_mem_nil, fun hundisturbed _ ↦ ?_⟩
    exact absurd hstopped (by simp [hundisturbed.2 turn])
  | case3 turn content length hlength hstopped hshort =>
    rw [sendLoop, if_neg hlength, if_neg hstopped, if_pos hshort]
    refine ⟨List.nil_prefix, List.not_mem_nil, fun hundisturbed hlong ↦ ?_⟩
    rcases hshort with hshort | hrefused
    · exact absurd hshort (by omega)
    · exact absurd hrefused (by simp [hundisturbed.1 (turn + 1)])
  | case4 turn content length hlength hstopped hshort ih =>
    obtain ⟨hbegins, hfin, hwhole⟩ := ih
    rw [sendLoop, if_neg hlength, if_neg hstopped, if_neg hshort, sentBytes_sent]
    -- the part that is sent now, and what is left of the file
    have hsplit : content.take length = content.take (min length 4096) ++
        (content.drop (min length 4096)).take (length - min length 4096) := by
      rw [← List.take_add]
      congr 1
      omega
    rw [hsplit]
    refine ⟨(List.prefix_append_right_inj _).mpr hbegins, ?_, fun hundisturbed hlong ↦ ?_⟩
    · exact fun hmem ↦ hfin ((List.mem_cons.mp hmem).resolve_left (by simp))
    · rw [hwhole hundisturbed (by rw [List.length_drop]; omega)]

/-! ### Every request -/

/-- A response that refuses has no body. -/
def Refuses (response : Response) : Prop :=
  response.which ∈ [404, 405, 500, 501] ∧ response.contentLength = 0 ∧ response.body = []

/-- A response with a file: its announced length is the size of the file that was opened, and its
body is a beginning of that, no longer than announced. -/
def ShowsFile (environment : Environment) (path : List UInt8) (response : Response) : Prop :=
  ∃ file url, environment.openFile path = some file ∧ path = cStr (httpBasePath ++ url) ∧
    response.which = 200 ∧ response.contentType = mimeTypeOf url ∧
    file.size = some response.contentLength ∧
    response.body <+: file.content.take response.contentLength

/-- What is done for a request, in front of the FIN. -/
structure Answers (environment : Environment) (events : List HttpEvent) : Prop where
  noFin : .fin ∉ events
  answered : environment.sendOk 0 = true → sentBytes events ≠ []
  response : sentBytes events = [] ∨ ∃ response, readResponse (sentBytes events) = some response ∧
    (Refuses response ∨ ∃ path ∈ openedPaths events, ShowsFile environment path response)
  whole : Undisturbed environment → ∀ path ∈ openedPaths events, ∀ file length,
    environment.openFile path = some file → file.size = some length →
      length ≤ file.content.length → ∃ contentType,
        readResponse (sentBytes events) = some ⟨200, contentType, length, file.content.take length⟩

section Answers

variable {environment : Environment}

theorem httpHeaders_append_ne_nil (which payloadSize : ℕ) (message mimeType body : List UInt8) :
    httpHeaders which payloadSize message mimeType ++ body ≠ [] := by
  apply List.append_ne_nil_of_left_ne_nil
  rw [httpHeaders_eq_writeHead, writeHead]
  exact List.append_ne_nil_of_right_ne_nil _ (by decide)

/-- The handler has opened nothing of use. -/
def OpenedNothing (environment : Environment) (front : List HttpEvent) : Prop :=
  front = [] ∨ ∃ path, front = [.openCall path] ∧
    ∀ file, environment.openFile path = some file → file.size = none

/-- An answer without a payload is a response that refuses. -/
theorem answers_refusal {front : List HttpEvent} (hfront : OpenedNothing environment front)
    {which : ℕ} (hwhich : which ∈ [404, 405, 500, 501]) {message : List UInt8}
    (hmessage : 13 ∉ message) :
    Answers environment (front ++ refusal environment which message) := by
  have hsent : sentBytes (front ++ refusal environment which message) =
      sentBytes (refusal environment which message) := by
    obtain rfl | ⟨path, rfl, -⟩ := hfront <;> rfl
  have hopened : openedPaths (front ++ refusal environment which message) = openedPaths front := by
    rw [openedPaths_append, openedPaths_refusal, List.append_nil]
  have hfin : .fin ∉ front := by
    obtain rfl | ⟨path, rfl, -⟩ := hfront <;> simp
  refine ⟨?_, ?_, ?_, ?_⟩
  · rw [List.mem_append, not_or]
    refine ⟨hfin, ?_⟩
    unfold refusal
    split_ifs <;> simp
  · intro htaken
    rw [hsent, refusal, if_pos htaken, sentBytes_sent]
    exact httpHeaders_append_ne_nil _ _ _ _ _
  · rw [hsent]
    unfold refusal
    split_ifs
    · rw [sentBytes_sent, sentBytes_nil]
      exact Or.inr ⟨_, readResponse_httpHeaders hmessage (by decide +kernel) which 0 [],
        Or.inl ⟨hwhich, rfl, rfl⟩⟩
    · exact Or.inl rfl
  · intro _ path hpath file length hfile hlength
    rw [hopened] at hpath
    obtain rfl | ⟨opened, rfl, hnone⟩ := hfront
    · exact absurd hpath List.not_mem_nil
    · obtain rfl := List.mem_singleton.mp hpath
      exact absurd (hlength.symm.trans (hnone file hfile)) (by simp)

/-- A file that was opened is shown, or a response refuses. -/
theorem answers_sendFile {url path : List UInt8} {file : OpenedFile}
    (hpath : path = cStr (httpBasePath ++ url)) (hopen : environment.openFile path = some file) :
    Answers environment (.openCall path :: sendFile environment url file) := by
  unfold sendFile
  cases hsize : file.size with
  | none =>
    apply @answers_refusal environment [.openCall path] _ 500 (by decide) _ (by decide +kernel)
    refine Or.inr ⟨path, rfl, fun other hother ↦ ?_⟩
    rwa [← Option.some.inj (hopen.symm.trans hother)]
  | some length =>
    obtain ⟨hbegins, hfin, hwhole⟩ := sentBytes_sendLoop environment 0 file.content length
    have hread := fun body ↦ readResponse_httpHeaders (by decide +kernel : 13 ∉ ascii "OK!")
      (not_mem_mimeTypeOf url) 200 length body
    dsimp only
    split_ifs with htaken
    · refine ⟨by simpa using hfin, fun _ ↦ httpHeaders_append_ne_nil _ _ _ _ _, ?_, ?_⟩
      · exact Or.inr ⟨_, hread _, Or.inr ⟨path, List.mem_cons_self, file, url, hopen, hpath, rfl,
          rfl, hsize, hbegins⟩⟩
      · intro hundisturbed opened hopened other size hother hsize' hlong
        rw [openedPaths_openCall, openedPaths_sent, openedPaths_sendLoop,
          List.mem_singleton] at hopened
        subst hopened
        obtain rfl := Option.some.inj (hopen.symm.trans hother)
        obtain rfl := Option.some.inj (hsize.symm.trans hsize')
        refine ⟨mimeTypeOf url, ?_⟩
        rw [sentBytes_openCall, sentBytes_sent, hwhole hundisturbed hlong]
        exact hread _
    · refine ⟨by simp, fun hother ↦ absurd hother htaken, Or.inl rfl, fun hundisturbed ↦ ?_⟩
      exact absurd (hundisturbed.1 0) htaken

theorem answers_serveUrl (url : List UInt8) : Answers environment (serveUrl environment url) := by
  have hnothing : OpenedNothing environment [] := Or.inl rfl
  unfold serveUrl
  by_cases hempty : url = []
  · rw [if_pos hempty]
    exact answers_refusal hnothing (by decide) (by decide +kernel)
  · rw [if_neg hempty]
    split_ifs
    · exact answers_refusal hnothing (by decide) (by decide +kernel)
    · dsimp only
      cases hopen : environment.openFile (cStr (httpBasePath ++ rewriteUrl url)) with
      | none =>
        apply @answers_refusal environment [.openCall _] _ 404 (by decide) _ (by decide +kernel)
        exact Or.inr ⟨_, rfl, fun file hfile ↦ absurd (hopen.symm.trans hfile) (by simp)⟩
      | some file => exact answers_sendFile rfl hopen

/-- A line that is accepted has a space behind the URL. -/
theorem parseRequestLine_ne_invalid (line : List UInt8) : parseRequestLine line ≠ .invalid := by
  have hspace : ascii " " = [32] := by decide +kernel
  have hget : ascii "GET" = [71, 69, 84] := by decide +kernel
  have hjoined := intercalate_split line ⟨ascii " ", ascii_space_nonempty⟩
  intro hinvalid
  unfold parseRequestLine at hinvalid
  dsimp only at hinvalid hjoined
  generalize split line ⟨ascii " ", ascii_space_nonempty⟩ = parts at *
  split_ifs at hinvalid with hthree hmethod
  obtain ⟨method, path, version, rfl⟩ := List.length_eq_three.mp (not_not.mp hthree)
  obtain rfl : method = ascii "GET" := by simpa using hmethod
  have hline : line.drop 4 = path ++ 32 :: version := by
    rw [← hjoined, hspace, hget, List.intercalate_cons_cons, List.intercalate_cons_cons,
      List.intercalate_singleton]
    simp
  rw [hline, hspace] at hinvalid
  split at hinvalid
  · next hnone =>
    apply find_eq_none_iff.mp hnone
    exact ⟨path, version, by simp⟩
  · exact absurd hinvalid (by simp)

/-- The first line gives a URL or an answer that refuses it. -/
theorem parseRequest_cases (recvBuffer : List UInt8) :
    (∃ url, parseRequest recvBuffer = .url url) ∨
      ∃ which message, parseRequest recvBuffer = .refused which message ∧
        which ∈ [404, 405, 500, 501] ∧ 13 ∉ message := by
  have hline : ∀ line, (∃ url, parseRequestLine line = .url url) ∨
      ∃ which message, parseRequestLine line = .refused which message ∧
        which ∈ [404, 405, 500, 501] ∧ 13 ∉ message := by
    intro line
    have hvalid := parseRequestLine_ne_invalid line
    unfold parseRequestLine at hvalid ⊢
    dsimp only at hvalid ⊢
    split_ifs at hvalid ⊢
    · exact Or.inr ⟨_, _, rfl, by decide, by decide +kernel⟩
    · cases hfind : find (ascii " ") (line.drop 4) with
      | none => exact absurd (by rw [hfind]) hvalid
      | some space => exact Or.inl ⟨_, rfl⟩
    · exact Or.inr ⟨_, _, rfl, by decide, by decide +kernel⟩
  unfold parseRequest
  split
  · exact Or.inl ⟨[], rfl⟩
  · exact hline _

theorem answers_request (recvBuffer : List UInt8) :
    Answers environment (answerRequest environment recvBuffer) := by
  unfold answerRequest
  obtain ⟨url, hurl⟩ | ⟨which, message, hrefused, hwhich, hmessage⟩ :=
    parseRequest_cases recvBuffer
  · rw [hurl]
    exact answers_serveUrl url
  · rw [hrefused]
    exact answers_refusal (Or.inl rfl) hwhich hmessage

end Answers

/-- Every request that is answered is answered with one response. The handler sends its FIN once, at
the end. What a client reads before it is nothing, a response without a body that refuses, or one
with the file that was opened: its length is the size of the file, and its body is a beginning of
the file, no longer than that. A request that is not too long is answered when the first send is
taken; and when every send is taken and nothing is stopped, the body of a file that has its size is
whole. -/
theorem answers_are_responses {environment : Environment} {chunks : List (List UInt8)}
    {events : List HttpEvent} (h : processHttpRequest environment chunks = some events) :
    ∃ before, events = before ++ [.fin] ∧ .fin ∉ before ∧
      (sentBytes before = [] ∨ ∃ response, readResponse (sentBytes before) = some response ∧
        (Refuses response ∨ ∃ path ∈ openedPaths before, ShowsFile environment path response)) ∧
      (environment.sendOk 0 = true → receiveRequest [] chunks ≠ .tooLong →
        sentBytes before ≠ []) ∧
      (Undisturbed environment → ∀ path ∈ openedPaths before, ∀ file length,
        environment.openFile path = some file → file.size = some length →
          length ≤ file.content.length → ∃ contentType, readResponse (sentBytes before) =
            some ⟨200, contentType, length, file.content.take length⟩) := by
  unfold processHttpRequest at h
  cases hreceive : receiveRequest [] chunks with
  | waiting => simp [hreceive] at h
  | tooLong =>
    rw [hreceive] at h
    refine ⟨[], (Option.some.inj h).symm, List.not_mem_nil, Or.inl rfl, ?_, ?_⟩
    · exact fun _ hnot ↦ absurd rfl hnot
    · exact fun _ path hpath ↦ absurd hpath List.not_mem_nil
  | request recvBuffer =>
    rw [hreceive] at h
    obtain ⟨hfin, hanswered, hresponse, hwhole⟩ := @answers_request environment recvBuffer
    exact ⟨_, (Option.some.inj h).symm, hfin, hresponse, fun hsent _ ↦ hanswered hsent, hwhole⟩

/-- A host with one file of three bytes. -/
def sampleHost : Environment where
  openFile path := if path = ascii "./www/hi.txt" then some ⟨some 3, [104, 105, 10]⟩ else none
  sendOk _ := true
  stopped _ := false

/-- A request for the file, cut inside of its first line. -/
theorem answers_are_responses_two_chunks : ∃ events before contentType,
    processHttpRequest sampleHost [ascii "GET /hi.t", ascii "xt HTTP/1.0\r\n\r\n"] =
      some events ∧ events = before ++ [.fin] ∧
    readResponse (sentBytes before) = some ⟨200, contentType, 3, [104, 105, 10]⟩ := by
  have hopened : (processHttpRequest sampleHost
      [ascii "GET /hi.t", ascii "xt HTTP/1.0\r\n\r\n"]).map openedPaths =
        some [ascii "./www/hi.txt"] := by
    decide +kernel
  obtain ⟨events, hevents, hpaths⟩ := Option.map_eq_some_iff.mp hopened
  obtain ⟨before, hsplit, -, -, -, hwhole⟩ := answers_are_responses hevents
  have hmem : ascii "./www/hi.txt" ∈ openedPaths before := by
    rw [hsplit, openedPaths_append, openedPaths_fin, openedPaths_nil, List.append_nil] at hpaths
    rw [hpaths]
    exact List.mem_singleton_self _
  obtain ⟨contentType, hread⟩ := hwhole ⟨fun _ ↦ rfl, fun _ ↦ rfl⟩ _ hmem
    ⟨some 3, [104, 105, 10]⟩ 3 (by decide +kernel) rfl (by decide)
  exact ⟨events, before, contentType, hevents, hsplit, hread⟩

end MyIPNG.Http
