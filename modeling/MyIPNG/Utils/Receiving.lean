import Mathlib.Algebra.GroupWithZero.Nat
import Mathlib.Algebra.Group.Int.Defs
import Mathlib.Data.List.SplitLengths
import MyIPNG.Utils.TcpHelpers

/-!
# Reads while chunks arrive

`recv_func` with all that can happen while it runs. Every turn of its loop tests the stop flags,
waits for a chunk for a while and may push what it does not need back to the front of the queue, and
the thread that fills the queue may push chunks to its back at any time in between. A `Turn` has
what happens in one of them. The value that `recv_func` returns is an `int`.

`recvTurns_returns` says that a read without a stop is a read from the stream of bytes, if enough of
them arrive: it returns after finitely many turns, with the next bytes of the stream, and what is
left in the queue is the rest. So is a sequence of reads (`recvCalls_returns`), and neither depends
on how the stream was cut into chunks.
-/

set_option autoImplicit false
set_option relaxedAutoImplicit false

namespace MyIPNG.Utils

/-! ### The loop and its turns -/

/-- What happens in a turn of the loop: whether one of the stop flags is set when it starts, the
chunks that are pushed before `pop` has the lock, those that are pushed while it waits because the
queue is empty, whether that wait ends with a timeout, and the chunks that are pushed when it has
returned. -/
structure Turn where
  stopped : Bool
  before : List (List UInt8)
  during : List (List UInt8)
  timedOut : Bool
  after : List (List UInt8)
deriving DecidableEq, Repr

/-- The chunks that arrive in a turn. -/
def Turn.arrivals (turn : Turn) : List (List UInt8) := turn.before ++ turn.during ++ turn.after

/-- `queue::pop` with a timeout: a chunk, if there is one in time, and the queue behind it. -/
def Turn.pop (turn : Turn) (incoming : List (List UInt8)) :
    Option (List UInt8) × List (List UInt8) :=
  match incoming ++ turn.before with
  | values :: rest => (some values, rest ++ turn.during)
  | [] =>
    if turn.timedOut then (none, turn.during)
    else match turn.during with
    | [] => (none, [])
    | values :: rest => (some values, rest)

/-- The loop of `recv_func`: the bytes that it stores, the queue behind them and the turns that are
left, or nothing when it still waits after the last of the turns. -/
def recvTurns : List Turn → ℕ → List (List UInt8) →
    Option (List UInt8 × List (List UInt8) × List Turn)
  | turns, 0, incoming => some ([], incoming, turns)
  | [], _ + 1, _ => none
  | turn :: turns, todo + 1, incoming =>
    if turn.stopped then some ([], incoming, turn :: turns)
    else
      match turn.pop incoming with
      | (none, queue) => recvTurns turns (todo + 1) (queue ++ turn.after)
      | (some values, queue) =>
        if todo + 1 < values.length then
          -- `unpop` puts the rest in front of what has arrived since
          some (values.take (todo + 1), values.drop (todo + 1) :: (queue ++ turn.after), turns)
        else
          (recvTurns turns (todo + 1 - values.length) (queue ++ turn.after)).map fun result ↦
            (values ++ result.1, result.2)

/-- What a call of `recv_func` leaves: the value that it returns, the bytes that it stored, the
queue and the turns for the calls that follow. -/
structure Received where
  value : Int32
  stored : List UInt8
  incoming : List (List UInt8)
  turns : List Turn
deriving DecidableEq, Repr

/-- `recv_func`. Nothing when it still waits. -/
def recvFuncIn (n : ℕ) (incoming : List (List UInt8)) (turns : List Turn) : Option Received :=
  if n = 0 then some ⟨0, [], incoming, turns⟩
  else (recvTurns turns n incoming).map fun result ↦
    ⟨Int32.ofNat result.1.length, result.1, result.2.1, result.2.2⟩

/-- A sequence of calls of `recv_func`: what each of them returns and stores, with the queue and the
turns that are left. -/
def recvCalls : List ℕ → List (List UInt8) → List Turn →
    Option (List (Int32 × List UInt8) × List (List UInt8) × List Turn)
  | [], incoming, turns => some ([], incoming, turns)
  | n :: sizes, incoming, turns =>
    match recvFuncIn n incoming turns with
    | none => none
    | some received =>
      (recvCalls sizes received.incoming received.turns).map fun result ↦
        ((received.value, received.stored) :: result.1, result.2)

/-- The chunks that arrive in the first turns of a schedule. -/
def arrivedIn (schedule : ℕ → Turn) (count : ℕ) : List (List UInt8) :=
  ((List.range count).map schedule).flatMap Turn.arrivals

/-- Values and bytes that calls with the given sizes return and store: the sizes, and the next bytes
of the stream for each. -/
def PiecesOf (sizes : List ℕ) (bytes : List UInt8) (results : List (Int32 × List UInt8)) : Prop :=
  results.map (fun result ↦ result.1.toInt) = sizes.map (fun n : ℕ ↦ (n : ℤ)) ∧
    results.map Prod.snd = sizes.splitLengths bytes

/-- Calls with the given sizes come to an end after some turns with these results, and the queue
holds the rest of what has arrived by then. -/
def ReadsAs (sizes : List ℕ) (results : List (Int32 × List UInt8)) (incoming : List (List UInt8))
    (schedule : ℕ → Turn) : Prop :=
  ∃ count left,
    recvCalls sizes incoming ((List.range count).map schedule) = some (results, left, []) ∧
      left.flatten = (incoming ++ arrivedIn schedule count).flatten.drop sizes.sum

/-- Calls with the given sizes read the stream: their results are its pieces, the same for every way
to cut it into chunks that are in the queue or arrive in some turns without a stop. -/
def ReadsStream (sizes : List ℕ) (bytes : List UInt8) : Prop :=
  ∃ results, PiecesOf sizes bytes results ∧
    ∀ (incoming : List (List UInt8)) (schedule : ℕ → Turn) (turns : ℕ),
      (∀ index, (schedule index).stopped = false) →
        bytes <+: (incoming ++ arrivedIn schedule turns).flatten →
          ReadsAs sizes results incoming schedule

/-! ### One call -/

/-- A pop takes the first chunk of the queue, or none. It takes one when the queue is not empty. -/
theorem Turn.pop_cases (turn : Turn) (incoming : List (List UInt8)) :
    (∃ values queue, turn.pop incoming = (some values, queue) ∧
      incoming ++ turn.before ++ turn.during = values :: queue) ∨
    (incoming = [] ∧ turn.pop incoming = (none, turn.before ++ turn.during)) := by
  unfold pop
  cases hqueue : incoming ++ turn.before with
  | cons values rest => exact Or.inl ⟨values, rest ++ turn.during, rfl, rfl⟩
  | nil =>
    obtain ⟨hincoming, hbefore⟩ := List.append_eq_nil_iff.mp hqueue
    rw [hbefore]
    dsimp only
    split_ifs with htimedOut
    · exact Or.inr ⟨hincoming, rfl⟩
    · cases turn.during with
      | nil => exact Or.inr ⟨hincoming, rfl⟩
      | cons values rest => exact Or.inl ⟨values, rest, rfl, rfl⟩

theorem recvTurns_zero (turns : List Turn) (incoming : List (List UInt8)) :
    recvTurns turns 0 incoming = some ([], incoming, turns) := by
  cases turns <;> rfl

/-- A set flag ends the loop. -/
theorem recvTurns_stop {turn : Turn} (hstopped : turn.stopped = true) (turns : List Turn) (todo : ℕ)
    (incoming : List (List UInt8)) :
    recvTurns (turn :: turns) todo incoming = some ([], incoming, turn :: turns) := by
  cases todo with
  | zero => rfl
  | succ todo => simp [recvTurns, hstopped]

/-- A turn of a loop that is not stopped: the first chunk has more bytes than are wanted, or all of
its bytes are stored, or there is no chunk. -/
theorem recvTurns_turn {turn : Turn} (hclear : turn.stopped = false) {todo : ℕ} (hpos : 0 < todo)
    (incoming : List (List UInt8)) :
    (∃ values queue, incoming ++ turn.arrivals = values :: queue ∧ todo < values.length ∧
      ∀ turns, recvTurns (turn :: turns) todo incoming =
        some (values.take todo, values.drop todo :: queue, turns)) ∨
    (∃ values queue, incoming ++ turn.arrivals = values :: queue ∧ values.length ≤ todo ∧
      ∀ turns, recvTurns (turn :: turns) todo incoming =
        (recvTurns turns (todo - values.length) queue).map fun result ↦
          (values ++ result.1, result.2)) ∨
    (incoming = [] ∧ ∀ turns, recvTurns (turn :: turns) todo incoming =
      recvTurns turns todo turn.arrivals) := by
  obtain ⟨wanted, rfl⟩ : ∃ wanted, todo = wanted + 1 := ⟨todo - 1, by omega⟩
  rcases turn.pop_cases incoming with ⟨values, queue, hpop, hqueue⟩ | ⟨hempty, hpop⟩
  · have harrived : incoming ++ turn.arrivals = values :: (queue ++ turn.after) := by
      rw [Turn.arrivals, ← List.append_assoc, ← List.append_assoc, hqueue, List.cons_append]
    by_cases hlong : wanted + 1 < values.length
    · refine Or.inl ⟨values, queue ++ turn.after, harrived, hlong, fun turns ↦ ?_⟩
      simp only [recvTurns, hclear, Bool.false_eq_true, if_false, hpop, if_pos hlong]
    · refine Or.inr (Or.inl ⟨values, queue ++ turn.after, harrived, Nat.le_of_not_lt hlong,
        fun turns ↦ ?_⟩)
      simp only [recvTurns, hclear, Bool.false_eq_true, if_false, hpop, if_neg hlong]
  · refine Or.inr (Or.inr ⟨hempty, fun turns ↦ ?_⟩)
    simp only [recvTurns, hclear, Bool.false_eq_true, if_false, hpop, Turn.arrivals]

/-- Turns behind the last one that a read needs are left for the next read. -/
theorem recvTurns_append {turns left : List Turn} {todo : ℕ} {incoming queue : List (List UInt8)}
    {stored : List UInt8} (h : recvTurns turns todo incoming = some (stored, queue, left))
    (more : List Turn) :
    recvTurns (turns ++ more) todo incoming = some (stored, queue, left ++ more) := by
  induction turns generalizing todo incoming stored queue with
  | nil =>
    cases todo with
    | zero =>
      obtain ⟨rfl, rfl, rfl⟩ := by simpa [recvTurns] using h
      simp [recvTurns]
    | succ todo => simp [recvTurns] at h
  | cons turn turns ih =>
    rw [List.cons_append]
    rcases Nat.eq_zero_or_pos todo with rfl | hpos
    · rw [recvTurns_zero] at h ⊢
      obtain ⟨rfl, rfl, rfl⟩ := by simpa using h
      rfl
    cases hstopped : turn.stopped with
    | true =>
      rw [recvTurns_stop hstopped] at h ⊢
      obtain ⟨rfl, rfl, rfl⟩ := by simpa using h
      rfl
    | false =>
      rcases recvTurns_turn hstopped hpos incoming with ⟨values, rest, -, -, hread⟩ |
        ⟨values, rest, -, -, hread⟩ | ⟨-, hread⟩
      · rw [hread] at h ⊢
        obtain ⟨rfl, rfl, rfl⟩ := by simpa using h
        rfl
      · rw [hread] at h ⊢
        obtain ⟨⟨further, queue', left'⟩, hrest, hresult⟩ := Option.map_eq_some_iff.mp h
        obtain ⟨rfl, rfl, rfl⟩ := by simpa using hresult
        rw [ih hrest]
        rfl
      · rw [hread] at h ⊢
        exact ih h

/-- The loop on a queue that holds all that will come is the loop in turns in which nothing
arrives. -/
theorem recvTurns_of_recvLoop {incoming queue : List (List UInt8)} {todo : ℕ} {stored : List UInt8}
    (h : recvLoop todo incoming = some (stored, queue)) :
    ∃ count, recvTurns (List.replicate count ⟨false, [], [], false, []⟩) todo incoming =
      some (stored, queue, []) := by
  induction incoming generalizing todo stored with
  | nil =>
    cases todo with
    | zero =>
      obtain ⟨rfl, rfl⟩ := by simpa [recvLoop] using h
      exact ⟨0, rfl⟩
    | succ todo => simp [recvLoop] at h
  | cons values incoming ih =>
    cases todo with
    | zero =>
      obtain ⟨rfl, rfl⟩ := by simpa [recvLoop] using h
      exact ⟨0, rfl⟩
    | succ todo =>
      rw [recvLoop] at h
      split_ifs at h with hlong
      · obtain ⟨rfl, rfl⟩ := by simpa using h
        refine ⟨1, ?_⟩
        simp [recvTurns, Turn.pop, hlong]
      · obtain ⟨⟨further, queue'⟩, hrest, hresult⟩ := Option.map_eq_some_iff.mp h
        obtain ⟨rfl, rfl⟩ := by simpa using hresult
        obtain ⟨count, hcount⟩ := ih hrest
        refine ⟨count + 1, ?_⟩
        simp [List.replicate_succ, recvTurns, Turn.pop, hlong, hcount]

/-! ### A schedule of turns -/

/-- The schedule behind its first turns. -/
def later (schedule : ℕ → Turn) (count : ℕ) (index : ℕ) : Turn := schedule (count + index)

theorem map_range_add (schedule : ℕ → Turn) (first second : ℕ) :
    (List.range (first + second)).map schedule =
      (List.range first).map schedule ++ (List.range second).map (later schedule first) := by
  rw [List.range_add, List.map_append, List.map_map]
  rfl

theorem map_range_one_add (schedule : ℕ → Turn) (count : ℕ) :
    (List.range (1 + count)).map schedule =
      schedule 0 :: (List.range count).map (later schedule 1) := by
  rw [map_range_add]
  rfl

theorem arrivedIn_add (schedule : ℕ → Turn) (first second : ℕ) :
    arrivedIn schedule (first + second) =
      arrivedIn schedule first ++ arrivedIn (later schedule first) second := by
  rw [arrivedIn, map_range_add, List.flatMap_append]
  rfl

theorem arrivedIn_one (schedule : ℕ → Turn) : arrivedIn schedule 1 = (schedule 0).arrivals := by
  simp [arrivedIn]

/-- A read comes to an end after some turns, with the bytes that are next and the rest in the
queue. -/
def Returns (schedule : ℕ → Turn) (todo : ℕ) (incoming : List (List UInt8)) : Prop :=
  ∃ count queue, todo ≤ (incoming ++ arrivedIn schedule count).flatten.length ∧
    recvTurns ((List.range count).map schedule) todo incoming =
      some ((incoming ++ arrivedIn schedule count).flatten.take todo, queue, []) ∧
    queue.flatten = (incoming ++ arrivedIn schedule count).flatten.drop todo

theorem returns_zero (schedule : ℕ → Turn) (incoming : List (List UInt8)) :
    Returns schedule 0 incoming := by
  refine ⟨0, incoming, Nat.zero_le _, ?_, ?_⟩
  · simp [recvTurns]
  · simp [arrivedIn]

/-- A read comes to an end when it does after its first turn. -/
theorem returns_of_turn {schedule : ℕ → Turn} (hclear : (schedule 0).stopped = false) {todo : ℕ}
    (hpos : 0 < todo) {incoming : List (List UInt8)}
    (hchunk : ∀ values queue, incoming ++ (schedule 0).arrivals = values :: queue →
      values.length ≤ todo → Returns (later schedule 1) (todo - values.length) queue)
    (hnone : incoming = [] → Returns (later schedule 1) todo (schedule 0).arrivals) :
    Returns schedule todo incoming := by
  rcases recvTurns_turn hclear hpos incoming with ⟨values, queue, harrived, hlong, hread⟩ |
    ⟨values, queue, harrived, hshort, hread⟩ | ⟨hempty, hread⟩
  · refine ⟨1, values.drop todo :: queue, ?_, ?_, ?_⟩
    · rw [arrivedIn_one, harrived, List.flatten_cons, List.length_append]
      omega
    · rw [arrivedIn_one, harrived, List.flatten_cons, List.take_append_of_le_length hlong.le]
      exact hread []
    · rw [arrivedIn_one, harrived, List.flatten_cons, List.flatten_cons,
        List.drop_append_of_le_length hlong.le]
  · obtain ⟨count, left, henough, hrest, hleft⟩ := hchunk values queue harrived hshort
    have hstream : (incoming ++ arrivedIn schedule (1 + count)).flatten =
        values ++ (queue ++ arrivedIn (later schedule 1) count).flatten := by
      rw [arrivedIn_add, arrivedIn_one, ← List.append_assoc, harrived, List.cons_append,
        List.flatten_cons]
    refine ⟨1 + count, left, ?_, ?_, ?_⟩
    · rw [hstream, List.length_append]
      omega
    · rw [hstream, map_range_one_add, hread, hrest, List.take_append,
        List.take_of_length_le hshort]
      rfl
    · rw [hstream, hleft, List.drop_append, List.drop_of_length_le hshort, List.nil_append]
  · obtain ⟨count, left, henough, hrest, hleft⟩ := hnone hempty
    have hstream : incoming ++ arrivedIn schedule (1 + count) =
        (schedule 0).arrivals ++ arrivedIn (later schedule 1) count := by
      rw [arrivedIn_add, arrivedIn_one, hempty, List.nil_append]
    refine ⟨1 + count, left, ?_, ?_, ?_⟩
    · rwa [hstream]
    · rw [hstream, map_range_one_add, hread, hrest]
    · rwa [hstream]

/-- A read for which the first chunks of the queue and of what arrives are enough comes to an end.
The induction is on the number of turns until they have arrived and the number of the chunks. -/
theorem returns_of_chunks {fuel : ℕ} : ∀ {schedule : ℕ → Turn} (turns chunks : ℕ) {todo : ℕ}
    {incoming : List (List UInt8)}, (∀ index, (schedule index).stopped = false) →
      turns + chunks ≤ fuel →
      todo ≤ ((incoming ++ arrivedIn schedule turns).take chunks).flatten.length →
      Returns schedule todo incoming := by
  induction fuel with
  | zero =>
    intro schedule turns chunks todo incoming _ hfuel henough
    obtain rfl : chunks = 0 := by omega
    obtain rfl : todo = 0 := by simpa using henough
    exact returns_zero schedule incoming
  | succ fuel ih =>
    intro schedule turns chunks todo incoming hclear hfuel henough
    rcases Nat.eq_zero_or_pos todo with rfl | hpos
    · exact returns_zero schedule incoming
    have hlater : ∀ index, (later schedule 1 index).stopped = false := fun index ↦ hclear _
    obtain ⟨others, rfl⟩ : ∃ others, chunks = others + 1 := by
      cases chunks with
      | zero => simp at henough; omega
      | succ others => exact ⟨others, rfl⟩
    refine returns_of_turn (hclear 0) hpos (fun values queue harrived hshort ↦ ?_)
      fun hempty ↦ ?_
    · cases turns with
      | zero =>
        -- nothing more has to arrive: the chunk is the first one of the queue
        cases incoming with
        | nil => simp [arrivedIn] at henough; omega
        | cons first tail =>
          rw [List.cons_append] at harrived
          obtain ⟨rfl, rfl⟩ := List.cons.inj harrived
          refine ih 0 others hlater (by omega) ?_
          simp only [arrivedIn, List.range_zero, List.map_nil, List.flatMap_nil, List.append_nil,
            List.take_succ_cons, List.flatten_cons, List.length_append, List.take_append,
            List.flatten_append] at henough ⊢
          omega
      | succ rest =>
        refine ih rest others hlater (by omega) ?_
        rw [Nat.add_comm rest 1, arrivedIn_add, arrivedIn_one, ← List.append_assoc, harrived,
          List.cons_append, List.take_succ_cons, List.flatten_cons, List.length_append] at henough
        omega
    · subst hempty
      cases turns with
      | zero => simp [arrivedIn] at henough; omega
      | succ rest =>
        refine ih rest (others + 1) hlater (by omega) ?_
        rwa [Nat.add_comm rest 1, arrivedIn_add, arrivedIn_one, List.nil_append] at henough

/-- A read without a stop comes to an end when enough bytes arrive. -/
theorem recvTurns_returns {schedule : ℕ → Turn}
    (hclear : ∀ index, (schedule index).stopped = false) {turns todo : ℕ}
    {incoming : List (List UInt8)}
    (henough : todo ≤ (incoming ++ arrivedIn schedule turns).flatten.length) :
    Returns schedule todo incoming := by
  refine returns_of_chunks turns (incoming ++ arrivedIn schedule turns).length hclear le_rfl ?_
  rwa [List.take_length]

/-! ### A sequence of calls -/

theorem recvFuncIn_eq (n : ℕ) (incoming : List (List UInt8)) (turns : List Turn) :
    recvFuncIn n incoming turns = (recvTurns turns n incoming).map fun result ↦
      ⟨Int32.ofNat result.1.length, result.1, result.2.1, result.2.2⟩ := by
  rw [recvFuncIn]
  split_ifs with hzero
  · rw [hzero, recvTurns]
    rfl
  · rfl

/-- The stream at a later turn has what has arrived since behind it. -/
theorem flatten_arrivedIn_add (schedule : ℕ → Turn) (incoming : List (List UInt8))
    (first second : ℕ) :
    (incoming ++ arrivedIn schedule (first + second)).flatten =
      (incoming ++ arrivedIn schedule first).flatten ++
        (arrivedIn (later schedule first) second).flatten := by
  rw [arrivedIn_add, ← List.append_assoc]
  exact List.flatten_append

/-- What has arrived stays the beginning of the stream. -/
theorem flatten_arrivedIn_mono (schedule : ℕ → Turn) (incoming : List (List UInt8))
    (first second : ℕ) :
    (incoming ++ arrivedIn schedule first).flatten <+:
      (incoming ++ arrivedIn schedule (first + second)).flatten := by
  rw [flatten_arrivedIn_add]
  exact List.prefix_append _ _

/-- The stream behind a read. -/
theorem flatten_later {schedule : ℕ → Turn} {incoming queue : List (List UInt8)} {count n : ℕ}
    (hfirst : n ≤ (incoming ++ arrivedIn schedule count).flatten.length)
    (hqueue : queue.flatten = (incoming ++ arrivedIn schedule count).flatten.drop n)
    (further : ℕ) :
    (queue ++ arrivedIn (later schedule count) further).flatten =
      (incoming ++ arrivedIn schedule (count + further)).flatten.drop n := by
  rw [flatten_arrivedIn_add, List.drop_append_of_le_length hfirst, List.flatten_append, hqueue]

/-- Calls without a stop come to an end when enough bytes arrive. Each has stored the next bytes and
returns their number as an `int`, and the rest is in the queue. -/
theorem recvCalls_returns {sizes : List ℕ} : ∀ {schedule : ℕ → Turn} {turns : ℕ}
    {incoming : List (List UInt8)}, (∀ index, (schedule index).stopped = false) →
      sizes.sum ≤ (incoming ++ arrivedIn schedule turns).flatten.length →
      ∃ count results left, sizes.sum ≤ (incoming ++ arrivedIn schedule count).flatten.length ∧
        recvCalls sizes incoming ((List.range count).map schedule) = some (results, left, []) ∧
        results.map Prod.fst = sizes.map Int32.ofNat ∧
        results.map Prod.snd =
          sizes.splitLengths (incoming ++ arrivedIn schedule count).flatten ∧
        left.flatten = (incoming ++ arrivedIn schedule count).flatten.drop sizes.sum := by
  induction sizes with
  | nil =>
    intro schedule turns incoming _ _
    refine ⟨0, [], incoming, Nat.zero_le _, rfl, rfl, rfl, ?_⟩
    simp [arrivedIn]
  | cons n sizes ih =>
    intro schedule turns incoming hclear henough
    rw [List.sum_cons] at henough
    obtain ⟨count, queue, hfirst, hread, hqueue⟩ :=
      recvTurns_returns hclear ((Nat.le_add_right n sizes.sum).trans henough)
    have hstream : ∀ further, (queue ++ arrivedIn (later schedule count) further).flatten =
        (incoming ++ arrivedIn schedule (count + further)).flatten.drop n := fun further ↦
      flatten_later hfirst hqueue further
    -- the bytes for the other calls arrive in as many turns behind the first call
    have hothers : sizes.sum ≤
        (queue ++ arrivedIn (later schedule count) turns).flatten.length := by
      have hmore := (flatten_arrivedIn_mono schedule incoming turns count).length_le
      rw [hstream, List.length_drop, Nat.add_comm count]
      omega
    have hlater : ∀ index, (later schedule count index).stopped = false := fun index ↦ hclear _
    obtain ⟨further, results, left, hlong, hcalls, hvalues, hstored, hleft⟩ := ih hlater hothers
    have hlength : ((incoming ++ arrivedIn schedule count).flatten.take n).length = n :=
      List.length_take_of_le hfirst
    have htake : (incoming ++ arrivedIn schedule count).flatten.take n =
        (incoming ++ arrivedIn schedule (count + further)).flatten.take n := by
      rw [flatten_arrivedIn_add, List.take_append_of_le_length hfirst]
    refine ⟨count + further, (Int32.ofNat n,
      (incoming ++ arrivedIn schedule count).flatten.take n) :: results, left, ?_, ?_, ?_, ?_, ?_⟩
    · rw [hstream, List.length_drop] at hlong
      have hmore := (flatten_arrivedIn_mono schedule incoming count further).length_le
      rw [List.sum_cons]
      omega
    · rw [recvCalls, recvFuncIn_eq, map_range_add, recvTurns_append hread]
      simp only [Option.map_some, List.nil_append, hcalls, hlength]
    · rw [List.map_cons, List.map_cons, hvalues]
    · rw [List.map_cons, List.splitLengths_cons, hstored, hstream, htake]
    · rw [hleft, hstream, List.drop_drop, List.sum_cons]

/-- How bytes are cut into pieces is decided by the bytes of the pieces. -/
theorem splitLengths_take (sizes : List ℕ) (bytes : List UInt8) {count : ℕ}
    (h : sizes.sum ≤ count) : sizes.splitLengths (bytes.take count) = sizes.splitLengths bytes := by
  induction sizes generalizing bytes count with
  | nil => rfl
  | cons n sizes ih =>
    rw [List.sum_cons] at h
    rw [List.splitLengths_cons, List.splitLengths_cons, List.take_take, List.drop_take,
      ih _ (by omega), Nat.min_eq_left (by omega)]

/-- The pieces of a stream are those of its beginning. -/
theorem splitLengths_beginning {sizes : List ℕ} {bytes stream : List UInt8}
    (hbegin : bytes <+: stream) (h : sizes.sum ≤ bytes.length) :
    sizes.splitLengths bytes = sizes.splitLengths stream := by
  rw [List.prefix_iff_eq_take.mp hbegin, splitLengths_take sizes stream h]

/-- Calls on a stream that has enough bytes. -/
theorem recvCalls_stream {sizes : List ℕ} {bytes : List UInt8}
    (henough : sizes.sum ≤ bytes.length) {incoming : List (List UInt8)} {schedule : ℕ → Turn}
    (hclear : ∀ index, (schedule index).stopped = false) {turns : ℕ}
    (hbytes : bytes <+: (incoming ++ arrivedIn schedule turns).flatten) :
    ReadsAs sizes ((sizes.map Int32.ofNat).zip (sizes.splitLengths bytes)) incoming schedule := by
  obtain ⟨count, results, left, hlong, hcalls, hvalues, hstored, hleft⟩ :=
    recvCalls_returns hclear (henough.trans hbytes.length_le)
  have hpieces : results.map Prod.snd = sizes.splitLengths bytes := by
    -- both are beginnings of the stream at a turn that has them both
    have hfirst := flatten_arrivedIn_mono schedule incoming turns count
    have hsecond := flatten_arrivedIn_mono schedule incoming count turns
    rw [Nat.add_comm count] at hsecond
    rw [hstored, splitLengths_beginning hsecond hlong,
      splitLengths_beginning (hbytes.trans hfirst) henough]
  refine ⟨count, left, ?_, hleft⟩
  rw [hcalls, List.zip_of_prod hvalues hpieces]

/-- Reads of a stream return their sizes and the bytes of the stream, however it was cut into chunks
and whenever these arrive. Assumes: the stream has the bytes, and the sizes are numbers of type
`int`, the type that `recv_func` returns. -/
theorem reads_stream {sizes : List ℕ} {bytes : List UInt8} (hsizes : ∀ n ∈ sizes, n < 2 ^ 31)
    (henough : sizes.sum ≤ bytes.length) : ReadsStream sizes bytes := by
  have hlength : (sizes.map Int32.ofNat).length = (sizes.splitLengths bytes).length := by
    rw [List.length_map, List.length_splitLengths]
  refine ⟨(sizes.map Int32.ofNat).zip (sizes.splitLengths bytes), ⟨?_, ?_⟩,
    fun incoming schedule turns hclear hbytes ↦ recvCalls_stream henough hclear hbytes⟩
  · have hints : ((sizes.map Int32.ofNat).zip (sizes.splitLengths bytes)).map
        (fun result ↦ result.1.toInt) = (sizes.map Int32.ofNat).map Int32.toInt := by
      conv_rhs => rw [← List.map_fst_zip hlength.le, List.map_map]
      rfl
    rw [hints, List.map_map]
    refine List.map_congr_left fun n hn ↦ ?_
    exact Int32.toInt_ofNat_of_lt (hsizes n hn)
  · exact List.map_snd_zip hlength.ge

theorem reads_stream_five : ReadsStream [1, 3] [1, 2, 3, 4, 5] :=
  reads_stream (by decide) (by decide)

/-- A read of more bytes than an `int` can say does not return their number. -/
theorem large_read_returns_less : ¬ ReadsStream [2 ^ 31] (List.replicate (2 ^ 31) 0) := by
  rintro ⟨results, ⟨hvalues, -⟩, -⟩
  cases results with
  | nil => simp at hvalues
  | cons result results =>
    rw [List.map_cons, List.map_cons] at hvalues
    have hvalue : result.1.toInt = ((2 ^ 31 : ℕ) : ℤ) := (List.cons.inj hvalues).1
    have hbound := result.1.toInt_lt
    omega

end MyIPNG.Utils
