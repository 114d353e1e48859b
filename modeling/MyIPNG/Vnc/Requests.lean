import MyIPNG.Vnc.Bounds
import MyIPNG.Vnc.Framing

/-!
# The updates that a client asks for

A FramebufferUpdateRequest is answered with the depth and the encodings that the messages before it
have set, and with the screen and the compressors as they are at that time. `Settings.after` follows
this along the messages of a stream. `Overruns` says of a message that the update which it asks for
does not stay inside of its buffers, and `UpdatesFit` that the stream has no such message.
-/

set_option autoImplicit false
set_option relaxedAutoImplicit false

namespace MyIPNG.Vnc

open Base Base.Reading Utils

/-! ### Settings -/

/-- What the answer to a request depends on: the depth, the encodings, and the time, as the number
of sends so far. -/
structure Settings where
  depth : UInt8
  encodings : List ℤ
  nSends : ℕ
deriving DecidableEq, Repr

def Handler.settings (handler : Handler) : Settings :=
  ⟨handler.depth, handler.encodings, handler.nSends⟩

/-- The settings behind the handshake, in which the server sends four times. -/
def Settings.start : Settings := ⟨8, [], 4⟩

/-- A number of encodings, from a position on. -/
def encodingsAt (bytes : List UInt8) (position count : ℕ) : List ℤ :=
  (List.range count).map fun i ↦ getInt bytes (position + i * 4)

/-- The settings behind the message at the start of a stream: SetPixelFormat brings the depth,
SetEncodings the encodings, and a FramebufferUpdateRequest is answered with a send. -/
def Settings.after (settings : Settings) (stream : List UInt8) : Settings :=
  if stream.head? = some 0 then { settings with depth := stream.getD 5 0 }
  else if stream.head? = some 2 then
    { settings with encodings := encodingsAt stream 4 (getUint16 stream 2).toNat }
  else if stream.head? = some 3 then { settings with nSends := settings.nSends + 1 }
  else settings

/-- With these settings, the update for a request stays inside of its buffers. -/
def Answerable (surroundings : Surroundings) (settings : Settings) (request : FbRequest) : Prop :=
  RequestFits (surroundings.compressors settings.nSends) (surroundings.fb settings.nSends)
    (surroundings.behind settings.nSends) settings.encodings request settings.depth

instance (surroundings : Surroundings) (settings : Settings) (request : FbRequest) :
    Decidable (Answerable surroundings settings request) :=
  inferInstanceAs (Decidable (RequestFits _ _ _ _ _ _))

/-- The handler has a message for a request exactly when the update stays inside of its buffers. -/
theorem fbMessage_isSome_iff (surroundings : Surroundings) (handler : Handler)
    (request : FbRequest) :
    (fbMessage surroundings handler request).isSome ↔
      Answerable surroundings handler.settings request := by
  rw [Answerable, ← requestFits_iff, FitsBuffers, fbMessage]
  change _ ↔ ∀ update, calculateFbUpdate (surroundings.compressors handler.nSends)
    (surroundings.fb handler.nSends) (surroundings.behind handler.nSends) handler.encodings request
    handler.depth = some update → _
  cases hupdate : calculateFbUpdate (surroundings.compressors handler.nSends)
    (surroundings.fb handler.nSends) (surroundings.behind handler.nSends) handler.encodings request
    handler.depth with
  | none => simp
  | some update =>
    have hwritten : (∀ index < update.value.length, index < 16 + 4 * (request.w * request.h)) ↔
        update.value.length ≤ 16 + 4 * (request.w * request.h) := by
      refine ⟨fun hall ↦ ?_, fun hle index hindex ↦ by omega⟩
      by_contra hlong
      exact absurd (hall (16 + 4 * (request.w * request.h)) (by omega)) (Nat.lt_irrefl _)
    simp only [Option.some.injEq, forall_eq', hwritten]
    split_ifs with hfits
    · exact iff_of_true rfl hfits
    · exact iff_of_false (by simp) hfits

/-! ### Messages -/

/-- The message at the start of a stream asks for an update that does not stay inside of its
buffers. -/
def Overruns (surroundings : Surroundings) (settings : Settings) (stream : List UInt8) : Prop :=
  (stream.head? = some 3 ∧ 10 ≤ stream.length) ∧
    ¬ Answerable surroundings settings (fbRequest (stream.drop 1))

instance (surroundings : Surroundings) (settings : Settings) (stream : List UInt8) :
    Decidable (Overruns surroundings settings stream) := inferInstanceAs (Decidable (_ ∧ _))

/-- No message asks for such an update, with the settings that those before it leave. -/
def MessagesFit (surroundings : Surroundings) : Settings → List (List UInt8) → Prop
  | _, [] => True
  | settings, message :: rest =>
    ¬ Overruns surroundings settings message ∧
      MessagesFit surroundings (settings.after message) rest

instance decidableMessagesFit (surroundings : Surroundings) :
    (settings : Settings) → (messages : List (List UInt8)) →
      Decidable (MessagesFit surroundings settings messages)
  | _, [] => inferInstanceAs (Decidable True)
  | settings, message :: rest =>
    have := decidableMessagesFit surroundings (settings.after message) rest
    inferInstanceAs (Decidable (_ ∧ _))

/-- The same for the messages behind a handshake that is accepted. -/
def UpdatesFit (surroundings : Surroundings) (stream : List UInt8) : Prop :=
  Accepts stream → MessagesFit surroundings .start (splitMessages (stream.drop 14)).1

instance (surroundings : Surroundings) (stream : List UInt8) :
    Decidable (UpdatesFit surroundings stream) := inferInstanceAs (Decidable (_ → _))

/-- The handler does not survive the message at the start of a stream. -/
def Breaks (surroundings : Surroundings) (settings : Settings) (stream : List UInt8) : Prop :=
  AnnouncesHuge stream ∨ Overruns surroundings settings stream

instance (surroundings : Surroundings) (settings : Settings) (stream : List UInt8) :
    Decidable (Breaks surroundings settings stream) := inferInstanceAs (Decidable (_ ∨ _))

/-- The handler does not survive a message of the stream. -/
def BreaksAhead (surroundings : Surroundings) (settings : Settings) (stream : List UInt8) : Prop :=
  HugeAhead stream ∨ ¬ MessagesFit surroundings settings (splitMessages stream).1

section Messages

variable {surroundings : Surroundings} {settings : Settings} {stream : List UInt8} {n : ℕ}

theorem getInt_take (bytes : List UInt8) {position length : ℕ} (h : position + 4 ≤ length) :
    getInt (bytes.take length) position = getInt bytes position := by
  rw [getInt, getInt, getUint32_take bytes h]

theorem encodingsAt_take (bytes : List UInt8) {position count length : ℕ}
    (h : position + count * 4 ≤ length) :
    encodingsAt (bytes.take length) position count = encodingsAt bytes position count := by
  refine List.map_congr_left fun i hi ↦ getInt_take bytes ?_
  rw [List.mem_range] at hi
  omega

theorem getInt_drop (bytes : List UInt8) (first position : ℕ) :
    getInt (bytes.drop first) position = getInt bytes (first + position) := by
  simp only [getInt, getUint32, List.getD_eq_getElem?_getD, List.getElem?_drop, Nat.add_assoc]

theorem encodingsAt_drop (bytes : List UInt8) (first position count : ℕ) :
    encodingsAt (bytes.drop first) position count =
      encodingsAt bytes (first + position) count := by
  simp only [encodingsAt, getInt_drop, Nat.add_assoc]

theorem encodingsAt_cons (byte : UInt8) (bytes : List UInt8) (position count : ℕ) :
    encodingsAt (byte :: bytes) (position + 1) count = encodingsAt bytes position count := by
  rw [Nat.add_comm, ← encodingsAt_drop]
  rfl

theorem fbRequest_take (bytes : List UInt8) : fbRequest (bytes.take 9) = fbRequest bytes := by
  have hflag : (bytes.take 9).getD 0 0 = bytes.getD 0 0 := by
    cases bytes <;> rfl
  unfold fbRequest
  rw [hflag, getUint16_take bytes (by decide), getUint16_take bytes (by decide),
    getUint16_take bytes (by decide), getUint16_take bytes (by decide)]

/-- The settings behind a message are read from the message. -/
theorem after_take (h : header stream = .length n) (hn : n ≤ stream.length) :
    settings.after (stream.take n) = settings.after stream := by
  unfold Settings.after
  rw [head?_take h]
  split_ifs with hpixel hencodings
  · obtain ⟨rest, rfl⟩ : ∃ rest, stream = 0 :: rest := List.head?_eq_some_iff.mp hpixel
    obtain rfl : n = 20 := (Header.length.inj h).symm
    rw [List.getD_eq_getElem?_getD, List.getElem?_take_of_lt (by decide),
      List.getD_eq_getElem?_getD]
  · obtain ⟨rest, rfl⟩ : ∃ rest, stream = 2 :: rest := List.head?_eq_some_iff.mp hencodings
    have hlong : 3 ≤ rest.length := by
      by_contra hshort
      rw [header_setEncodings, if_neg hshort] at h
      exact absurd h (by simp)
    rw [header_setEncodings, if_pos hlong] at h
    have hcount : getUint16 (2 :: rest) 2 = getUint16 rest 1 := rfl
    have hsize := Header.length.inj h
    rw [getUint16_take _ (by omega), encodingsAt_take _ (by rw [hcount]; omega)]
  · rfl
  · rfl

theorem overruns_take (h : header stream = .length n) (hn : n ≤ stream.length) :
    Overruns surroundings settings (stream.take n) ↔ Overruns surroundings settings stream := by
  unfold Overruns
  rw [head?_take h, List.length_take_of_le hn]
  by_cases hrequest : stream.head? = some 3
  · obtain ⟨rest, rfl⟩ : ∃ rest, stream = 3 :: rest := List.head?_eq_some_iff.mp hrequest
    obtain rfl : n = 10 := (Header.length.inj h).symm
    have hbehind : (List.take 10 (3 :: rest)).drop 1 = ((3 :: rest).drop 1).take 9 := rfl
    rw [hbehind, fbRequest_take]
    exact and_congr_left fun _ ↦ and_congr_right fun _ ↦ iff_of_true (le_refl 10) hn
  · simp [hrequest]

theorem breaksAhead_of_le (h : header stream = .length n) (hn : n ≤ stream.length) :
    BreaksAhead surroundings settings stream ↔ Breaks surroundings settings stream ∨
      BreaksAhead surroundings (settings.after stream) (stream.drop n) := by
  rw [BreaksAhead, hugeAhead_of_le h hn, splitMessages_of_le h hn, MessagesFit, overruns_take h hn,
    after_take h hn, BreaksAhead, Breaks]
  tauto

theorem breaksAhead_of_not_le (h : ∀ n, header stream = .length n → ¬ n ≤ stream.length) :
    BreaksAhead surroundings settings stream ↔ Breaks surroundings settings stream := by
  have hfits : ¬ Overruns surroundings settings stream := by
    rintro ⟨⟨hrequest, hlong⟩, -⟩
    obtain ⟨rest, rfl⟩ : ∃ rest, stream = 3 :: rest := List.head?_eq_some_iff.mp hrequest
    exact h 10 rfl hlong
  rw [BreaksAhead, hugeAhead_of_not_le h, splitMessages_of_not_le h, Breaks, or_iff_left hfits]
  simp [MessagesFit]

theorem breaksAhead_of_breaks (h : Breaks surroundings settings stream) :
    BreaksAhead surroundings settings stream := by
  by_cases hmessage : ∃ n, header stream = .length n ∧ n ≤ stream.length
  · obtain ⟨n, hheader, hn⟩ := hmessage
    exact (breaksAhead_of_le hheader hn).mpr (Or.inl h)
  · exact (breaksAhead_of_not_le fun n hheader hn ↦ hmessage ⟨n, hheader, hn⟩).mpr h

end Messages

end MyIPNG.Vnc
