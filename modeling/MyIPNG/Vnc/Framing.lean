import MyIPNG.Vnc.Server

/-!
# The VNC handler and the byte stream of its client

RFB 3.8 frames what a client sends: a version of 12 bytes, a byte that chooses a security type, a
byte of initialisation, and then messages whose length their first bytes announce. `header` is that
announcement, `splitMessages` cuts a stream into messages, `framing` into all of its units.

`unitsOf` reads off the events of the handler which bytes it consumed between the states at which it
is ready for the next unit, and `InStep` says that these are the units of a framing and that the
handler stopped as the framing does.
-/

set_option autoImplicit false
set_option relaxedAutoImplicit false

namespace MyIPNG.Vnc

open Utils

/-! ### The framing of RFB 3.8 -/

/-- What the first bytes of a stream announce: a message of a length, a command that RFB 3.8 does
not have, or not enough yet to tell. -/
inductive Header
  | length (n : ℕ)
  | unknown
  | incomplete
deriving DecidableEq, Repr

/-- The announcement of the message at the start of a stream. -/
def header (stream : List UInt8) : Header :=
  match stream with
  | [] => .incomplete
  | command :: _ =>
    if command = 0 then .length 20
    else if command = 2 then
      if 4 ≤ stream.length then .length (4 + 4 * (getUint16 stream 2).toNat) else .incomplete
    else if command = 3 then .length 10
    else if command = 4 then .length 8
    else if command = 5 then .length 6
    else if command = 6 then
      if 8 ≤ stream.length then .length (8 + (getUint32 stream 4).toNat) else .incomplete
    else .unknown

theorem header_pos {stream : List UInt8} {n : ℕ} (h : header stream = .length n) : 0 < n := by
  unfold header at h
  split at h
  · exact absurd h (by simp)
  · split_ifs at h <;> simp only [Header.length.injEq] at h <;> omega

/-- The message at the start of a stream starts as the stream does. -/
theorem head?_take {stream : List UInt8} {n : ℕ} (h : header stream = .length n) :
    (stream.take n).head? = stream.head? := by
  have hpos := header_pos h
  rw [List.head?_take, if_neg (by omega)]

theorem header_setEncodings (stream : List UInt8) :
    header (2 :: stream) = if 3 ≤ stream.length then
      .length (1 + (3 + 4 * (getUint16 stream 1).toNat)) else .incomplete := by
  have hheader : header (2 :: stream) = if 4 ≤ stream.length + 1 then
      .length (4 + 4 * (getUint16 stream 1).toNat) else .incomplete := rfl
  rw [hheader, ← Nat.add_assoc]
  simp only [Nat.reduceLeDiff, Nat.reduceAdd]

theorem header_cutText (stream : List UInt8) :
    header (6 :: stream) = if 7 ≤ stream.length then
      .length (1 + (7 + (getUint32 stream 3).toNat)) else .incomplete := by
  have hheader : header (6 :: stream) = if 8 ≤ stream.length + 1 then
      .length (8 + (getUint32 stream 3).toNat) else .incomplete := rfl
  rw [hheader, ← Nat.add_assoc]
  simp only [Nat.reduceLeDiff, Nat.reduceAdd]

/-- The complete messages of a stream, and what is behind them. -/
def splitMessages (stream : List UInt8) : List (List UInt8) × List UInt8 :=
  match _hheader : header stream with
  | .length n =>
    if n ≤ stream.length then
      let rest := splitMessages (stream.drop n)
      (stream.take n :: rest.1, rest.2)
    else ([], stream)
  | .unknown => ([], stream)
  | .incomplete => ([], stream)
termination_by stream.length
decreasing_by
  have hpos := header_pos _hheader
  rw [List.length_drop]
  omega

/-- A stream that starts with a complete message. -/
theorem splitMessages_of_le {stream : List UInt8} {n : ℕ} (h : header stream = .length n)
    (hn : n ≤ stream.length) :
    splitMessages stream = (stream.take n :: (splitMessages (stream.drop n)).1,
      (splitMessages (stream.drop n)).2) := by
  rw [splitMessages]
  split
  · next m hm =>
    rw [h] at hm
    cases hm
    rw [if_pos hn]
  · next hm => exact absurd (h.symm.trans hm) (by simp)
  · next hm => exact absurd (h.symm.trans hm) (by simp)

/-- A stream that does not. -/
theorem splitMessages_of_not_le {stream : List UInt8}
    (h : ∀ n, header stream = .length n → ¬ n ≤ stream.length) :
    splitMessages stream = ([], stream) := by
  rw [splitMessages]
  split
  · next n hn => rw [if_neg (h n hn)]
  · rfl
  · rfl

/-- How the framing of a stream ends: it goes on with the next bytes, or the session is refused. -/
inductive Ending
  | goesOn
  | refused
deriving DecidableEq, Repr

/-- The units of a stream, each with the state that a server is in behind it. -/
def framing (stream : List UInt8) : List (VncState × List UInt8) × Ending :=
  if stream.length < 12 then ([], .goesOn)
  else if stream.take 3 ≠ ascii "RFB" then ([], .refused)
  else
    let version := (VncState.securityHandshakeServer, stream.take 12)
    match stream.drop 12 with
    | [] => ([version], .goesOn)
    | security :: rest =>
      if security ≠ 1 then ([version], .refused)
      else
        let choice := (VncState.clientInit, [security])
        match rest with
        | [] => ([version, choice], .goesOn)
        | init :: rest =>
          let parts := splitMessages rest
          (version :: choice :: (.runningWaitingCmd, [init]) ::
            parts.1.map fun message ↦ (.runningWaitingCmd, message),
            if header parts.2 = .unknown then .refused else .goesOn)

/-- A ClientCutText message with a complete header that announces `2 ^ 31` bytes or more. -/
def AnnouncesHuge (stream : List UInt8) : Prop :=
  stream.head? = some 6 ∧ 8 ≤ stream.length ∧ 2 ^ 31 ≤ (getUint32 stream 4).toNat

instance (stream : List UInt8) : Decidable (AnnouncesHuge stream) :=
  inferInstanceAs (Decidable (_ ∧ _))

/-- A message of the stream, or the unfinished one at its end, is one. -/
def HugeAhead (stream : List UInt8) : Prop :=
  (∃ message ∈ (splitMessages stream).1, AnnouncesHuge message) ∨
    AnnouncesHuge (splitMessages stream).2

instance (stream : List UInt8) : Decidable (HugeAhead stream) := inferInstanceAs (Decidable (_ ∨ _))

/-- The stream starts with a whole handshake that is accepted. -/
def Accepts (stream : List UInt8) : Prop :=
  14 ≤ stream.length ∧ stream.take 3 = ascii "RFB" ∧ stream[12]? = some 1

instance (stream : List UInt8) : Decidable (Accepts stream) := inferInstanceAs (Decidable (_ ∧ _))

/-- The client sends such a message behind a handshake that is accepted. -/
def SendsHugeCut (stream : List UInt8) : Prop := Accepts stream ∧ HugeAhead (stream.drop 14)

instance (stream : List UInt8) : Decidable (SendsHugeCut stream) :=
  inferInstanceAs (Decidable (_ ∧ _))

/-- The message at the start of a stream announces what the stream announces. -/
theorem announcesHuge_take {stream : List UInt8} {n : ℕ} (h : header stream = .length n)
    (hn : n ≤ stream.length) : AnnouncesHuge (stream.take n) ↔ AnnouncesHuge stream := by
  have hlength : (stream.take n).length = n := List.length_take_of_le hn
  have hhead := head?_take h
  constructor
  · rintro ⟨hsix, height, hhuge⟩
    rw [hlength] at height
    rw [getUint32_take stream (by omega)] at hhuge
    exact ⟨hhead ▸ hsix, by omega, hhuge⟩
  · rintro ⟨hsix, height, hhuge⟩
    have hlong : 8 ≤ n := by
      obtain ⟨rest, rfl⟩ : ∃ rest, stream = 6 :: rest := by
        cases stream with
        | nil => exact absurd hsix (by simp)
        | cons cmd rest => exact ⟨rest, by rw [Option.some.inj hsix]⟩
      rw [List.length_cons] at height
      rw [header_cutText, if_pos (by omega)] at h
      cases h
      omega
    refine ⟨hhead.trans hsix, by omega, ?_⟩
    rwa [getUint32_take stream (by omega)]

theorem hugeAhead_of_le {stream : List UInt8} {n : ℕ} (h : header stream = .length n)
    (hn : n ≤ stream.length) :
    HugeAhead stream ↔ AnnouncesHuge stream ∨ HugeAhead (stream.drop n) := by
  rw [HugeAhead, splitMessages_of_le h hn]
  simp only [List.mem_cons, exists_eq_or_imp, announcesHuge_take h hn, or_assoc]
  rfl

theorem hugeAhead_of_not_le {stream : List UInt8}
    (h : ∀ n, header stream = .length n → ¬ n ≤ stream.length) :
    HugeAhead stream ↔ AnnouncesHuge stream := by
  rw [HugeAhead, splitMessages_of_not_le h]
  simp

/-! ### What the handler consumed -/

/-- The states at which the handler is ready for the next unit. -/
def closesUnit : VncState → Bool
  | .securityHandshakeServer => true
  | .clientInit => true
  | .runningWaitingCmd => true
  | _ => false

/-- The units that a list of events closes, each with the state that was entered, and the bytes that
were received behind the last one. -/
def scan (pending : List UInt8) : List VncEvent → List (VncState × List UInt8) × List UInt8
  | [] => ([], pending)
  | .received bytes :: rest => scan (pending ++ bytes) rest
  | .entered state :: rest =>
    if closesUnit state then
      let final := scan [] rest
      ((state, pending) :: final.1, final.2)
    else scan pending rest
  | .sent _ :: rest => scan pending rest
  | .fin :: rest => scan pending rest

/-- The units that the handler consumed. -/
def unitsOf (events : List VncEvent) : List (VncState × List UInt8) := (scan [] events).1

/-- The handler is in step with a framing: it consumed its units, and it waits or has ended the
session where the framing says so. -/
def InStep (result : Result) (expected : List (VncState × List UInt8) × Ending) : Prop :=
  unitsOf result.2 = expected.1 ∧
    result.1 = match expected.2 with
      | .goesOn => .waits
      | .refused => .ends

end MyIPNG.Vnc
