import MyIPNG.Utils.Receiving

/-!
# The read callback of TLS

`my_wolfssl_receive` of `http_server.cpp`: the callback with which wolfSSL reads from a session. It
calls `recv_func` and has an error for the value `-1`, which `recv_func` does not return when it was
stopped, and returns the number of bytes that it was asked for in all other cases.

What `recv_func` stores are the first of the bytes that can be popped before a stop flag is set
(`recvTurns_stored`). So the callback reports bytes that it did not receive when a flag is set
before there are enough of them, and only then.
-/

set_option autoImplicit false
set_option relaxedAutoImplicit false

namespace MyIPNG.Http

open Utils

/-- An `int` as a number of type `size_t`. -/
def sizeT (sz : Int32) : ℕ := (sz.toInt % 2 ^ 64).toNat

/-- `my_wolfssl_receive`: the value that it returns and what `recv_func` has done. Nothing when it
still waits. -/
def myWolfsslReceive (sz : Int32) (incoming : List (List UInt8)) (turns : List Turn) :
    Option (Int32 × Received) :=
  (recvFuncIn (sizeT sz) incoming turns).map fun received ↦
    if received.value = -1 then (0, received) else (sz, received)

/-- The callback does not report more than it has stored: a positive value is at most the number of
bytes in the buffer, and a read that was cut short returns that number or says that there was an
error. -/
def ReportsStored (sz : Int32) (incoming : List (List UInt8)) (turns : List Turn) : Prop :=
  ∀ value received, myWolfsslReceive sz incoming turns = some (value, received) →
    (0 < value.toInt → value.toInt ≤ received.stored.length) ∧
      (received.stored.length < sizeT sz →
        value.toInt = received.stored.length ∨ value.toInt ≤ 0)

/-- The bytes of the chunks that are popped in turns, one in each that has a chunk. -/
def poppedIn : List Turn → List (List UInt8) → List UInt8
  | [], _ => []
  | turn :: turns, incoming =>
    (turn.pop incoming).1.getD [] ++ poppedIn turns ((turn.pop incoming).2 ++ turn.after)

/-- A stop flag is set in a turn that comes before the last of the wanted bytes has been popped. -/
def StoppedBefore (wanted : ℕ) (incoming : List (List UInt8)) (turns : List Turn) : Prop :=
  (∃ turn ∈ turns, turn.stopped = true) ∧
    (poppedIn (turns.takeWhile fun turn ↦ !turn.stopped) incoming).length < wanted

/-! ### What is stored -/

/-- The bytes that a read stores are the first of those that can be popped before a stop. -/
theorem recvTurns_stored {turns left : List Turn} {todo : ℕ} {incoming queue : List (List UInt8)}
    {stored : List UInt8} (h : recvTurns turns todo incoming = some (stored, queue, left)) :
    stored = (poppedIn (turns.takeWhile fun turn ↦ !turn.stopped) incoming).take todo := by
  induction turns generalizing todo incoming queue left stored with
  | nil =>
    cases todo with
    | zero => simp_all [recvTurns]
    | succ todo => simp [recvTurns] at h
  | cons turn turns ih =>
    cases hstopped : turn.stopped with
    | true =>
      rw [recvTurns_stop hstopped] at h
      obtain ⟨rfl, -⟩ := by simpa using h
      rw [List.takeWhile_cons_of_neg (by simp [hstopped]), poppedIn, List.take_nil]
    | false =>
      rw [List.takeWhile_cons_of_pos (by simp [hstopped]), poppedIn]
      cases todo with
      | zero => simp_all [recvTurns]
      | succ todo =>
        simp only [recvTurns, hstopped, Bool.false_eq_true, if_false] at h
        rcases hpop : turn.pop incoming with ⟨_ | values, rest⟩
        · rw [hpop] at h
          exact ih h
        · rw [hpop] at h
          simp only at h
          split_ifs at h with hlong
          · obtain ⟨rfl, -⟩ := by simpa using h
            exact (List.take_append_of_le_length hlong.le).symm
          · obtain ⟨⟨further, queue', left'⟩, hrest, hresult⟩ := Option.map_eq_some_iff.mp h
            obtain ⟨rfl, -⟩ := by simpa using hresult
            rw [Option.getD_some, List.take_append,
              List.take_of_length_le (Nat.le_of_not_lt hlong), ih hrest]

/-- A read returns when a stop flag is set. -/
theorem recvTurns_isSome_of_stop {turns : List Turn} (hstop : ∃ turn ∈ turns, turn.stopped = true)
    (todo : ℕ) (incoming : List (List UInt8)) : (recvTurns turns todo incoming).isSome := by
  induction turns generalizing todo incoming with
  | nil => simp at hstop
  | cons turn turns ih =>
    cases hstopped : turn.stopped with
    | true =>
      rw [recvTurns_stop hstopped]
      rfl
    | false =>
      have hrest : ∃ turn ∈ turns, turn.stopped = true := by simpa [hstopped] using hstop
      rcases Nat.eq_zero_or_pos todo with rfl | hpos
      · rw [recvTurns_zero]
        rfl
      rcases recvTurns_turn hstopped hpos incoming with ⟨values, queue, -, -, hread⟩ |
        ⟨values, queue, -, -, hread⟩ | ⟨-, hread⟩
      · rw [hread]
        rfl
      · rw [hread, Option.isSome_map]
        exact ih hrest _ _
      · rw [hread]
        exact ih hrest _ _

/-- A read that was not stopped has all the bytes. -/
theorem length_of_recvTurns_clear {turns left : List Turn}
    (hclear : ∀ turn ∈ turns, turn.stopped = false) {todo : ℕ} {incoming queue : List (List UInt8)}
    {stored : List UInt8} (h : recvTurns turns todo incoming = some (stored, queue, left)) :
    stored.length = todo := by
  induction turns generalizing todo incoming queue left stored with
  | nil =>
    cases todo with
    | zero => simp_all [recvTurns]
    | succ todo => simp [recvTurns] at h
  | cons turn turns ih =>
    rcases Nat.eq_zero_or_pos todo with rfl | hpos
    · rw [recvTurns_zero] at h
      simp_all
    have hrest : ∀ turn ∈ turns, turn.stopped = false := fun other hother ↦
      hclear other (List.mem_cons_of_mem _ hother)
    rcases recvTurns_turn (hclear turn List.mem_cons_self) hpos incoming with
      ⟨values, rest, -, hlong, hread⟩ | ⟨values, rest, -, hshort, hread⟩ | ⟨-, hread⟩
    · rw [hread] at h
      obtain ⟨rfl, -⟩ := by simpa using h
      exact List.length_take_of_le hlong.le
    · rw [hread] at h
      obtain ⟨⟨further, queue', left'⟩, hfurther, hresult⟩ := Option.map_eq_some_iff.mp h
      obtain ⟨rfl, -⟩ := by simpa using hresult
      rw [List.length_append, ih hrest hfurther]
      omega
    · rw [hread] at h
      exact ih hrest h

/-! ### What is reported -/

theorem sizeT_of_pos {sz : Int32} (hpos : 0 < sz.toInt) : (sizeT sz : ℤ) = sz.toInt := by
  have hbound := sz.toInt_lt
  unfold sizeT
  omega

/-- The callback returns what it was asked for, whatever was stored. -/
theorem myWolfsslReceive_eq {sz : Int32} (hpos : 0 < sz.toInt) {incoming : List (List UInt8)}
    {turns : List Turn} {stored : List UInt8} {queue : List (List UInt8)} {left : List Turn}
    (h : recvTurns turns (sizeT sz) incoming = some (stored, queue, left)) :
    myWolfsslReceive sz incoming turns =
      some (sz, ⟨Int32.ofNat stored.length, stored, queue, left⟩) := by
  have hshort : stored.length ≤ sizeT sz := by
    rw [recvTurns_stored h]
    exact List.length_take_le _ _
  have hsize := sizeT_of_pos hpos
  have hbound := sz.toInt_lt
  have hvalue : (Int32.ofNat stored.length).toInt = stored.length :=
    Int32.toInt_ofNat_of_lt (by omega)
  have hne : Int32.ofNat stored.length ≠ -1 := by
    intro heq
    rw [heq] at hvalue
    have hminus : (-1 : Int32).toInt = -1 := rfl
    omega
  rw [myWolfsslReceive, recvFuncIn_eq, h]
  simp only [Option.map_some, if_neg hne]

/-- A value that is not positive reports nothing. -/
theorem reportsStored_of_nonpos {sz : Int32} (hsz : sz.toInt ≤ 0) (incoming : List (List UInt8))
    (turns : List Turn) : ReportsStored sz incoming turns := by
  intro value received h
  have hvalue : value.toInt ≤ 0 := by
    obtain ⟨done, -, hresult⟩ := Option.map_eq_some_iff.mp h
    split_ifs at hresult with hminus
    · obtain ⟨rfl, -⟩ := Prod.mk.inj hresult
      exact le_rfl
    · obtain ⟨rfl, -⟩ := Prod.mk.inj hresult
      exact hsz
  exact ⟨fun hpos ↦ absurd hvalue (by omega), fun _ ↦ Or.inr hvalue⟩

/-- A read that returns has all the bytes unless it is stopped before. -/
theorem length_of_not_stoppedBefore {wanted : ℕ} {incoming : List (List UInt8)} {turns : List Turn}
    (hstop : ¬ StoppedBefore wanted incoming turns) {stored : List UInt8}
    {queue : List (List UInt8)} {left : List Turn}
    (h : recvTurns turns wanted incoming = some (stored, queue, left)) :
    stored.length = wanted := by
  by_cases hstopped : ∃ turn ∈ turns, turn.stopped = true
  · have henough : wanted ≤
        (poppedIn (turns.takeWhile fun turn ↦ !turn.stopped) incoming).length :=
      Nat.le_of_not_lt fun hless ↦ hstop ⟨hstopped, hless⟩
    rw [recvTurns_stored h]
    exact List.length_take_of_le henough
  · refine length_of_recvTurns_clear (fun turn hturn ↦ ?_) h
    exact Bool.eq_false_iff.mpr fun htrue ↦ hstopped ⟨turn, hturn, htrue⟩

/-- A read that is stopped before it has all the bytes reports them all. -/
theorem not_reportsStored_of_stoppedBefore {sz : Int32} (hpos : 0 < sz.toInt)
    {incoming : List (List UInt8)} {turns : List Turn}
    (hstop : StoppedBefore (sizeT sz) incoming turns) : ¬ ReportsStored sz incoming turns := by
  intro hreports
  obtain ⟨⟨stored, queue, left⟩, hread⟩ :=
    Option.isSome_iff_exists.mp (recvTurns_isSome_of_stop hstop.1 (sizeT sz) incoming)
  have hless : stored.length < sizeT sz := by
    rw [recvTurns_stored hread]
    exact (List.length_take_le' _ _).trans_lt hstop.2
  have hclaim := (hreports sz _ (myWolfsslReceive_eq hpos hread)).1 hpos
  have hsize := sizeT_of_pos hpos
  dsimp only at hclaim
  omega

/-- A read that is not stopped before it has all the bytes is reported right. -/
theorem reportsStored_of_not_stoppedBefore {sz : Int32} {incoming : List (List UInt8)}
    {turns : List Turn} (hstop : ¬ StoppedBefore (sizeT sz) incoming turns) :
    ReportsStored sz incoming turns := by
  rcases le_or_gt sz.toInt 0 with hsz | hpos
  · exact reportsStored_of_nonpos hsz incoming turns
  intro value received h
  obtain ⟨done, hdone, -⟩ := Option.map_eq_some_iff.mp h
  rw [recvFuncIn_eq] at hdone
  obtain ⟨⟨stored, queue, left⟩, hread, -⟩ := Option.map_eq_some_iff.mp hdone
  have hlength := length_of_not_stoppedBefore hstop hread
  rw [myWolfsslReceive_eq hpos hread] at h
  obtain ⟨rfl, rfl⟩ := Prod.mk.inj (Option.some.inj h)
  have hsize := sizeT_of_pos hpos
  refine ⟨fun _ ↦ ?_, fun hless ↦ ?_⟩
  · dsimp only
    omega
  · dsimp only at hless
    omega

/-- The callback reports bytes that it did not receive exactly when a stop flag is set before the
last of the bytes that it was asked for has been popped. -/
theorem read_callback_reports_stored_iff (sz : Int32) (incoming : List (List UInt8))
    (turns : List Turn) : ReportsStored sz incoming turns ↔
      sz.toInt ≤ 0 ∨ ¬ StoppedBefore (sizeT sz) incoming turns := by
  constructor
  · intro hreports
    by_contra hneither
    obtain ⟨hpos, hstop⟩ := not_or.mp hneither
    exact not_reportsStored_of_stoppedBefore (not_le.mp hpos) (not_not.mp hstop) hreports
  · rintro (hsz | hstop)
    · exact reportsStored_of_nonpos hsz incoming turns
    · exact reportsStored_of_not_stoppedBefore hstop

/-- The peer closes behind three bytes of a record: the callback reports five. -/
theorem closed_read_reports_too_much : ¬ ReportsStored 5 [[22, 3, 3]]
    [⟨false, [], [], false, []⟩, ⟨true, [], [], false, []⟩] := by
  refine not_reportsStored_of_stoppedBefore (by decide) ⟨by decide, by decide⟩

end MyIPNG.Http
