import MyIPNG.Vnc.Requests

/-!
# The VNC handler stays in step with its client

`vnc_in_step_iff`: for every stream and every division of it into chunks the handler consumes the
units of the framing one by one, ends the session only where the framing does, and waits otherwise,
exactly when no ClientCutText message announces a text of `2 ^ 31` bytes or more and every update
that is asked for stays inside of its buffers. Such a length is negative as an `int`, and an
assertion fails; what a thread does that has overrun a block of memory is left open, so that it
counts as out of step.

A block consumes bytes of the stream and closes a unit, consumes bytes of a unit that is still open,
or stops. Each command has one lemma that says which, and what the settings are behind it;
`command_follows` puts them together, and the loop follows by induction over its turns.
-/

set_option autoImplicit false
set_option relaxedAutoImplicit false

namespace MyIPNG.Vnc

open Utils

/-! ### Blocks -/

section Blocks

@[simp] theorem andThen_goes (handler : Handler) (events : List VncEvent)
    (next : Handler → Result) :
    Result.andThen (.goes handler, events) next =
      ((next handler).1, events ++ (next handler).2) := rfl

@[simp] theorem andThen_ends (events : List VncEvent) (next : Handler → Result) :
    Result.andThen (.ends, events) next = (.ends, events) := rfl

@[simp] theorem andThen_waits (events : List VncEvent) (next : Handler → Result) :
    Result.andThen (.waits, events) next = (.waits, events) := rfl

@[simp] theorem andThen_aborts (events : List VncEvent) (next : Handler → Result) :
    Result.andThen (.aborts, events) next = (.aborts, events) := rfl

@[simp] theorem andThen_overruns (events : List VncEvent) (next : Handler → Result) :
    Result.andThen (.overruns, events) next = (.overruns, events) := rfl

theorem andThen_assoc (result : Result) (first second : Handler → Result) :
    (result.andThen first).andThen second =
      result.andThen fun handler ↦ (first handler).andThen second := by
  obtain ⟨outcome, events⟩ := result
  cases outcome with
  | goes handler =>
    simp only [andThen_goes]
    obtain ⟨outcome, later⟩ := first handler
    cases outcome with
    | goes next => simp
    | _ => rfl
  | _ => rfl

/-- What is behind a block that stops is not reached. -/
theorem andThen_stopped {result : Result} {outcome : Outcome} (h : result.1 = outcome)
    (hstopped : ∀ handler, outcome ≠ .goes handler) (next : Handler → Result) :
    result.andThen next = result := by
  obtain ⟨first, events⟩ := result
  have hsame : first = outcome := h
  subst hsame
  cases first with
  | goes handler => exact absurd rfl (hstopped handler)
  | _ => rfl

/-- The handler does not survive: an assertion fails, or a block of memory is overrun. -/
def Dies (result : Result) : Prop := result.1 = .aborts ∨ result.1 = .overruns

theorem Dies.andThen {result : Result} (h : Dies result) (next : Handler → Result) :
    Dies (result.andThen next) := by
  rcases h with haborts | hoverruns
  · rw [andThen_stopped haborts (by simp)]
    exact Or.inl haborts
  · rw [andThen_stopped hoverruns (by simp)]
    exact Or.inr hoverruns

theorem scan_append (pending : List UInt8) (first second : List VncEvent) :
    scan pending (first ++ second) =
      ((scan pending first).1 ++ (scan (scan pending first).2 second).1,
        (scan (scan pending first).2 second).2) := by
  induction first generalizing pending with
  | nil => rfl
  | cons event rest ih =>
    cases event with
    | entered state =>
      simp only [List.cons_append, scan]
      split_ifs
      · simp only [ih, List.cons_append]
      · exact ih pending
    | _ => exact ih _

variable {stream : List UInt8} {n : ℕ} {settings : Settings} {handler : Handler} {result : Result}

/-- A read of bytes that come. -/
theorem recvAlloc_of_le (handler : Handler) (next : List UInt8 → Handler → Result)
    (hstream : handler.incoming.flatten = stream) (h : n ≤ stream.length) :
    ∃ incoming, incoming.flatten = stream.drop n ∧
      recvAlloc n next handler =
        ((next (stream.take n) { handler with incoming := incoming }).1,
          .received (stream.take n) ::
            (next (stream.take n) { handler with incoming := incoming }).2) := by
  subst hstream
  obtain ⟨incoming, hread, hrest⟩ := recvFunc_of_le handler.incoming h
  refine ⟨incoming, hrest, ?_⟩
  simp only [recvAlloc, hread]

/-- A read of bytes that do not come. -/
theorem recvAlloc_of_lt (handler : Handler) (next : List UInt8 → Handler → Result)
    (hstream : handler.incoming.flatten = stream) (h : stream.length < n) :
    recvAlloc n next handler = (.waits, []) := by
  subst hstream
  simp only [recvAlloc, recvFunc_of_lt handler.incoming h]

/-- The blocks consume `n` bytes of the stream as one unit, leave these settings and wait for a
command. -/
def Consumes (stream : List UInt8) (n : ℕ) (settings : Settings) (result : Result) : Prop :=
  ∃ next, result.1 = .goes next ∧ (next.state = .runningWaitingCmd ∧
    next.incoming.flatten = stream.drop n ∧ next.settings = settings) ∧
    ∀ pending, scan pending result.2 = ([(.runningWaitingCmd, pending ++ stream.take n)], [])

/-- The blocks stop within a unit. -/
def Stops (outcome : Outcome) (result : Result) : Prop :=
  result.1 = outcome ∧ ∀ pending, (scan pending result.2).1 = []

/-- The blocks consume a unit of `n` bytes if the stream has them, and wait otherwise. -/
def Reads (stream : List UInt8) (n : ℕ) (settings : Settings) (result : Result) : Prop :=
  if n ≤ stream.length then Consumes stream n settings result else Stops .waits result

/-- A block that has nothing to do behind the end of a command. -/
theorem Consumes.skip {block : Handler → Result} (h : Consumes stream n settings result)
    (hblock : ∀ handler, handler.state = .runningWaitingCmd → block handler = (.goes handler, [])) :
    Consumes stream n settings (result.andThen block) := by
  obtain ⟨next, hgoes, hnext, hscan⟩ := h
  refine ⟨next, ?_, hnext, ?_⟩
  · rw [Result.andThen, hgoes]
    simp only [hblock next hnext.1]
  · rw [Result.andThen, hgoes]
    simpa only [hblock next hnext.1, List.append_nil] using hscan

/-- A block that is not reached. -/
theorem Stops.skip {outcome : Outcome} (block : Handler → Result) (h : Stops outcome result)
    (hstopped : ∀ handler, outcome ≠ .goes handler) : Stops outcome (result.andThen block) := by
  rw [andThen_stopped h.1 hstopped]
  exact h

theorem Reads.skip {block : Handler → Result} (h : Reads stream n settings result)
    (hblock : ∀ handler, handler.state = .runningWaitingCmd → block handler = (.goes handler, [])) :
    Reads stream n settings (result.andThen block) := by
  unfold Reads at h ⊢
  split_ifs at h ⊢
  · exact h.skip hblock
  · exact h.skip block (by simp)

/-- Bytes in front that belong to the same unit. -/
theorem Consumes.behind (stream : List UInt8) (first : ℕ) {state : VncState}
    (hclose : closesUnit state = false)
    (h : Consumes (stream.drop first) n settings result) :
    Consumes stream (first + n) settings
      (result.1, .received (stream.take first) :: .entered state :: result.2) := by
  obtain ⟨next, hgoes, ⟨hstate, hrest, hsettings⟩, hscan⟩ := h
  refine ⟨next, hgoes, ⟨hstate, ?_, hsettings⟩, fun pending ↦ ?_⟩
  · rw [hrest, List.drop_drop]
  · simp only [scan, hclose, Bool.false_eq_true, if_false, hscan]
    rw [List.append_assoc, ← List.take_add]

theorem Stops.behind {outcome : Outcome} {state : VncState} (bytes : List UInt8)
    (hclose : closesUnit state = false) (h : Stops outcome result) :
    Stops outcome (result.1, .received bytes :: .entered state :: result.2) := by
  refine ⟨h.1, fun pending ↦ ?_⟩
  simp only [scan, hclose, Bool.false_eq_true, if_false]
  exact h.2 _

theorem Reads.behind (stream : List UInt8) {first : ℕ} {state : VncState}
    (hfirst : first ≤ stream.length) (hclose : closesUnit state = false)
    (h : Reads (stream.drop first) n settings result) :
    Reads stream (first + n) settings
      (result.1, .received (stream.take first) :: .entered state :: result.2) := by
  unfold Reads at h ⊢
  rw [List.length_drop] at h
  by_cases henough : n ≤ stream.length - first
  · rw [if_pos henough] at h
    rw [if_pos (by omega)]
    exact Consumes.behind stream first hclose h
  · rw [if_neg henough] at h
    rw [if_neg (by omega)]
    exact h.behind _ hclose

/-- A read that ends the command, or waits. Assumes: what is done with the bytes leaves these
settings, waits for a command in the end and closes no other unit. -/
theorem recvAlloc_ends {next : List UInt8 → Handler → Result}
    (hstream : handler.incoming.flatten = stream)
    (hnext : ∀ incoming, ∃ after sent,
      next (stream.take n) { handler with incoming := incoming } =
        (.goes after, sent ++ [.entered .runningWaitingCmd]) ∧
      (after.state = .runningWaitingCmd ∧ after.incoming = incoming ∧ after.settings = settings) ∧
      ∀ pending, scan pending sent = ([], pending)) :
    Reads stream n settings (recvAlloc n next handler) := by
  unfold Reads
  split_ifs with henough
  · obtain ⟨incoming, hrest, hread⟩ := recvAlloc_of_le handler next hstream henough
    obtain ⟨after, sent, hafter, ⟨hstate, hkept, hsettings⟩, hsent⟩ := hnext incoming
    rw [hread, hafter]
    refine ⟨after, rfl, ⟨hstate, by rw [hkept, hrest], hsettings⟩, fun pending ↦ ?_⟩
    simp only [scan, scan_append, hsent, closesUnit, if_true, List.nil_append]
  · rw [recvAlloc_of_lt handler next hstream (Nat.lt_of_not_le henough)]
    exact ⟨rfl, fun _ ↦ rfl⟩

end Blocks

/-! ### Commands -/

section Commands

variable {surroundings : Surroundings} {handler : Handler} {stream : List UInt8}

/-- The blocks behind the byte of the command. -/
def commandBody (surroundings : Surroundings) (handler : Handler) : Result :=
  ((runningWaitingData surroundings handler).andThen runningWaitingDataIgnore).andThen
    runningWaitingDataExtra

theorem ignore_idle (handler : Handler) (h : handler.state = .runningWaitingCmd) :
    runningWaitingDataIgnore handler = (.goes handler, []) := by
  simp [runningWaitingDataIgnore, h]

theorem extra_idle (handler : Handler) (h : handler.state = .runningWaitingCmd) :
    runningWaitingDataExtra handler = (.goes handler, []) := by
  simp [runningWaitingDataExtra, h]

/-- A command whose parameters are one read. -/
theorem commandBody_of_data {n : ℕ} {settings : Settings}
    (h : Reads stream n settings (runningWaitingData surroundings handler)) :
    Reads stream n settings (commandBody surroundings handler) :=
  (h.skip ignore_idle).skip extra_idle

/-- SetPixelFormat, KeyEvent and PointerEvent. -/
theorem commandBody_fixed (surroundings : Surroundings)
    (hstate : handler.state = .runningWaitingData)
    (hstream : handler.incoming.flatten = stream) {n : ℕ} {settings : Settings}
    (hcommand :
      (handler.runningCmd = 0 ∧ n = 19 ∧
        settings = { handler.settings with depth := stream.getD 4 0 }) ∨
      (handler.runningCmd = 4 ∧ n = 7 ∨ handler.runningCmd = 5 ∧ n = 5) ∧
        settings = handler.settings) :
    Reads stream n settings (commandBody surroundings handler) := by
  refine commandBody_of_data ?_
  unfold runningWaitingData
  rcases hcommand with ⟨hcommand, rfl, rfl⟩ | ⟨⟨hcommand, rfl⟩ | ⟨hcommand, rfl⟩, rfl⟩
  · simp only [hstate, hcommand, if_true]
    have hdepth : (stream.take 19).getD 4 0 = stream.getD 4 0 := by
      simp only [List.getD_eq_getElem?_getD, List.getElem?_take_of_lt (by decide : 4 < 19)]
    refine recvAlloc_ends hstream fun _ ↦ ⟨_, [], rfl, ⟨rfl, rfl, ?_⟩, fun _ ↦ rfl⟩
    rw [← hdepth]
    rfl
  · simp only [hstate, hcommand, if_true, reduceIte, Int.reduceEq]
    exact recvAlloc_ends hstream fun _ ↦ ⟨_, [], rfl, ⟨rfl, rfl, rfl⟩, fun _ ↦ rfl⟩
  · simp only [hstate, hcommand, if_true, reduceIte, Int.reduceEq]
    exact recvAlloc_ends hstream fun _ ↦ ⟨_, [], rfl, ⟨rfl, rfl, rfl⟩, fun _ ↦ rfl⟩

/-- FramebufferUpdateRequest. Assumes: the sends succeed. -/
theorem commandBody_fbRequest (hsends : ∀ i, surroundings.sendOk i = true)
    (hstate : handler.state = .runningWaitingData) (hstream : handler.incoming.flatten = stream)
    (hcommand : handler.runningCmd = 3) :
    if 9 ≤ stream.length ∧ ¬ Answerable surroundings handler.settings (fbRequest stream) then
      Dies (commandBody surroundings handler)
    else Reads stream 9 { handler.settings with nSends := handler.settings.nSends + 1 }
      (commandBody surroundings handler) := by
  have hmessage : ∀ incoming, (fbMessage surroundings { handler with incoming := incoming }
      (fbRequest (stream.take 9))).isSome ↔
        Answerable surroundings handler.settings (fbRequest stream) := by
    intro incoming
    rw [fbMessage_isSome_iff, fbRequest_take]
    rfl
  by_cases hbreaks : 9 ≤ stream.length ∧
    ¬ Answerable surroundings handler.settings (fbRequest stream)
  · rw [if_pos hbreaks]
    refine Dies.andThen (Dies.andThen ?_ _) _
    unfold runningWaitingData
    simp only [hstate, hcommand, if_true, reduceIte, Int.reduceEq]
    obtain ⟨incoming, -, hread⟩ :=
      recvAlloc_of_le handler (answerRequest surroundings) hstream hbreaks.1
    have hnone := Option.not_isSome_iff_eq_none.mp (mt (hmessage incoming).mp hbreaks.2)
    rw [hread, answerRequest, hnone]
    exact Or.inr rfl
  · rw [if_neg hbreaks]
    refine commandBody_of_data ?_
    unfold runningWaitingData
    simp only [hstate, hcommand, if_true, reduceIte, Int.reduceEq]
    by_cases henough : 9 ≤ stream.length
    · refine recvAlloc_ends hstream fun incoming ↦ ?_
      have hanswerable : Answerable surroundings handler.settings (fbRequest stream) := by
        by_contra hnot
        exact hbreaks ⟨henough, hnot⟩
      obtain ⟨message, hsome⟩ := Option.isSome_iff_exists.mp ((hmessage incoming).mpr hanswerable)
      simp only [answerRequest, hsome, sendFunc, hsends, if_true, andThen_goes]
      exact ⟨_, [.sent _], rfl, ⟨rfl, rfl, rfl⟩, fun _ ↦ rfl⟩
    · rw [Reads, if_neg henough, recvAlloc_of_lt handler _ hstream (Nat.lt_of_not_le henough)]
      exact ⟨rfl, fun _ ↦ rfl⟩

/-- The list of encodings behind a SetEncodings. -/
theorem extra_reads (handler : Handler) {n : ℕ}
    (hstate : handler.state = .runningWaitingDataExtra) (hcommand : handler.runningCmd = 2)
    (hcount : handler.nEncodings = n) (hn : n < 2 ^ 16)
    (hstream : handler.incoming.flatten = stream) :
    Reads stream (4 * n) { handler.settings with encodings := encodingsAt stream 0 n }
      (runningWaitingDataExtra handler) := by
  have hsize : sizeT (handler.nEncodings * 4) = 4 * n := by
    rw [hcount, sizeT]
    omega
  have hencodings : (List.range handler.nEncodings.toNat).map (fun i ↦
      getInt (stream.take (4 * n)) (i * 4)) = encodingsAt stream 0 n := by
    rw [← @encodingsAt_take stream 0 n (4 * n) (by omega), hcount, Int.toNat_natCast]
    simp only [encodingsAt, Nat.zero_add]
  unfold runningWaitingDataExtra
  simp only [hstate, hcommand, if_true, hsize]
  refine recvAlloc_ends hstream fun _ ↦ ⟨_, [], rfl, ⟨rfl, rfl, ?_⟩, fun _ ↦ rfl⟩
  rw [← hencodings]
  rfl

/-- The text behind a ClientCutText. -/
theorem ignore_reads (handler : Handler) {n : ℕ}
    (hstate : handler.state = .runningWaitingDataIgnore) (hcount : handler.ignoreDataN = n)
    (hpos : 0 < n) (hn : n < 2 ^ 31) (hstream : handler.incoming.flatten = stream) :
    Reads stream n handler.settings (runningWaitingDataIgnore handler) := by
  have hsize : sizeT handler.ignoreDataN = n := by
    rw [hcount, sizeT]
    omega
  have hpositive : 0 < handler.ignoreDataN := by
    rw [hcount]
    omega
  unfold runningWaitingDataIgnore
  simp only [hstate, hpositive, if_true, hsize]
  exact recvAlloc_ends hstream fun _ ↦ ⟨_, [], rfl, ⟨rfl, rfl, rfl⟩, fun _ ↦ rfl⟩

/-- SetEncodings. -/
theorem commandBody_setEncodings (surroundings : Surroundings)
    (hstate : handler.state = .runningWaitingData)
    (hstream : handler.incoming.flatten = stream) (hcommand : handler.runningCmd = 2) :
    if 3 ≤ stream.length then
      Reads stream (3 + 4 * (getUint16 stream 1).toNat)
        { handler.settings with encodings := encodingsAt stream 3 (getUint16 stream 1).toNat }
        (commandBody surroundings handler)
    else Stops .waits (commandBody surroundings handler) := by
  unfold commandBody runningWaitingData
  simp only [hstate, hcommand, if_true, reduceIte, Int.reduceEq]
  by_cases henough : 3 ≤ stream.length
  · obtain ⟨incoming, hrest, hread⟩ := recvAlloc_of_le handler (fun parameters handler ↦
      enter .runningWaitingDataExtra
        { handler with nEncodings := (getUint16 parameters 1).toNat }) hstream henough
    rw [hread, getUint16_take stream (by decide), if_pos henough]
    have hextra := extra_reads { handler with
      state := .runningWaitingDataExtra, nEncodings := (getUint16 stream 1).toNat
      incoming := incoming } rfl hcommand rfl (getUint16 stream 1).toNat_lt hrest
    rw [encodingsAt_drop] at hextra
    exact Reads.behind stream henough rfl hextra
  · rw [recvAlloc_of_lt handler _ hstream (Nat.lt_of_not_le henough), if_neg henough]
    exact ⟨rfl, fun _ ↦ rfl⟩

/-- The length of a ClientCutText as an `int`. -/
theorem getInt_eq (bytes : List UInt8) (position : ℕ) :
    getInt bytes position = if (getUint32 bytes position).toNat < 2 ^ 31 then
      ((getUint32 bytes position).toNat : ℤ) else (getUint32 bytes position).toNat - 2 ^ 32 := by
  have hnat : (getUint32 bytes position).toBitVec.toNat = (getUint32 bytes position).toNat := rfl
  rw [getInt, BitVec.toInt_eq_toNat_cond, hnat]
  split_ifs
  · rfl
  · omega
  · omega
  · rfl

/-- ClientCutText. -/
theorem commandBody_cutText (surroundings : Surroundings)
    (hstate : handler.state = .runningWaitingData)
    (hstream : handler.incoming.flatten = stream) (hcommand : handler.runningCmd = 6) :
    if 7 ≤ stream.length then
      if 2 ^ 31 ≤ (getUint32 stream 3).toNat then
        Dies (commandBody surroundings handler)
      else Reads stream (7 + (getUint32 stream 3).toNat) handler.settings
        (commandBody surroundings handler)
    else Stops .waits (commandBody surroundings handler) := by
  unfold commandBody runningWaitingData
  simp only [hstate, hcommand, if_true, reduceIte, Int.reduceEq]
  by_cases henough : 7 ≤ stream.length
  · obtain ⟨incoming, hrest, hread⟩ := recvAlloc_of_le handler (fun parameters handler ↦
      enter (if getInt parameters 3 ≠ 0 then .runningWaitingDataIgnore else .runningWaitingCmd)
        { handler with ignoreDataN := getInt parameters 3 }) hstream henough
    have hint : getInt (stream.take 7) 3 = getInt stream 3 := by
      rw [getInt, getInt, getUint32_take stream (by decide)]
    rw [hread, hint, if_pos henough]
    have hvalue := getInt_eq stream 3
    have hlt := (getUint32 stream 3).toNat_lt
    generalize (getUint32 stream 3).toNat = n at hvalue hlt ⊢
    by_cases hhuge : 2 ^ 31 ≤ n
    · rw [if_neg (Nat.not_lt.mpr hhuge)] at hvalue
      have hnonzero : getInt stream 3 ≠ 0 := by omega
      have hnegative : ¬ 0 < getInt stream 3 := by omega
      rw [if_pos hhuge, if_pos hnonzero]
      exact Or.inl (by simp [enter, runningWaitingDataIgnore, hnegative])
    · rw [if_pos (Nat.lt_of_not_le hhuge)] at hvalue
      rw [if_neg hhuge, hvalue]
      by_cases hzero : n = 0
      · subst hzero
        refine Reads.skip (Reads.skip ?_ ignore_idle) extra_idle
        exact (if_pos henough).mpr ⟨_, rfl, ⟨rfl, hrest, rfl⟩, fun pending ↦ rfl⟩
      · have hnonzero : (n : ℤ) ≠ 0 := by omega
        rw [if_pos hnonzero]
        have hignore := ignore_reads { handler with
          state := .runningWaitingDataIgnore, ignoreDataN := n, incoming := incoming }
          rfl rfl (Nat.pos_of_ne_zero hzero) (Nat.lt_of_not_le hhuge) hrest
        exact (Reads.behind stream henough rfl hignore).skip extra_idle
  · rw [recvAlloc_of_lt handler _ hstream (Nat.lt_of_not_le henough), if_neg henough]
    exact ⟨rfl, fun _ ↦ rfl⟩

/-- A command that the handler does not know. -/
theorem commandBody_unknown (surroundings : Surroundings)
    (hstate : handler.state = .runningWaitingData) (h0 : handler.runningCmd ≠ 0)
    (h2 : handler.runningCmd ≠ 2) (h3 : handler.runningCmd ≠ 3) (h4 : handler.runningCmd ≠ 4)
    (h5 : handler.runningCmd ≠ 5) (h6 : handler.runningCmd ≠ 6) :
    Stops .ends (commandBody surroundings handler) := by
  rw [commandBody, runningWaitingData, if_pos hstate, if_neg h0, if_neg h2, if_neg h3, if_neg h4,
    if_neg h5, if_neg h6]
  exact ⟨rfl, fun _ ↦ rfl⟩

/-- The byte of the command, and the blocks behind it. -/
theorem command_cons (surroundings : Surroundings) {cmd : UInt8}
    (hstate : handler.state = .runningWaitingCmd)
    (hstream : handler.incoming.flatten = cmd :: stream) :
    ∃ after : Handler, (after.state = .runningWaitingData ∧ after.runningCmd = cmd.toNat ∧
        after.incoming.flatten = stream ∧ after.settings = handler.settings) ∧
      command surroundings handler = ((commandBody surroundings after).1,
        .received [cmd] :: .entered .runningWaitingData ::
          (commandBody surroundings after).2) := by
  obtain ⟨incoming, hrest, hread⟩ := recvAlloc_of_le (n := 1) handler (fun cmd handler ↦
    enter .runningWaitingData { handler with runningCmd := (cmd.getD 0 0).toNat }) hstream
    (by simp)
  refine ⟨{ handler with
    state := .runningWaitingData, runningCmd := cmd.toNat, incoming := incoming },
    ⟨rfl, rfl, hrest, rfl⟩, ?_⟩
  simp only [command, commandBody, andThen_assoc, runningWaitingCmd, if_pos hstate, hread]
  rfl

/-- A command that is consumed by its blocks or waits in them. -/
theorem command_of_body {cmd : UInt8} {after : Handler} {n : ℕ} {settings : Settings}
    (hcommand : command surroundings handler = ((commandBody surroundings after).1,
      .received [cmd] :: .entered .runningWaitingData :: (commandBody surroundings after).2))
    (h : Reads stream n settings (commandBody surroundings after)) :
    Reads (cmd :: stream) (1 + n) settings (command surroundings handler) := by
  rw [hcommand]
  exact Reads.behind (cmd :: stream) (by simp) rfl h

/-- What the blocks of a command do, by the header of the stream. -/
def FollowsHeader (settings : Settings) (stream : List UInt8) (result : Result) : Prop :=
  match header stream with
  | .length n => Reads stream n (settings.after stream) result
  | .unknown => Stops .ends result
  | .incomplete => Stops .waits result

/-- SetEncodings, with the byte of the command. -/
theorem followsHeader_setEncodings {after : Handler}
    (hcommand : command surroundings handler = ((commandBody surroundings after).1,
      .received [2] :: .entered .runningWaitingData :: (commandBody surroundings after).2))
    (h : if 3 ≤ stream.length then
        Reads stream (3 + 4 * (getUint16 stream 1).toNat)
          { after.settings with encodings := encodingsAt stream 3 (getUint16 stream 1).toNat }
          (commandBody surroundings after)
      else Stops .waits (commandBody surroundings after)) :
    FollowsHeader after.settings (2 :: stream) (command surroundings handler) := by
  by_cases henough : 3 ≤ stream.length
  · rw [if_pos henough] at h
    rw [← encodingsAt_cons 2] at h
    rw [FollowsHeader, header_setEncodings, if_pos henough]
    exact command_of_body hcommand h
  · rw [if_neg henough] at h
    rw [FollowsHeader, header_setEncodings, if_neg henough, hcommand]
    exact h.behind _ rfl

/-- ClientCutText, with the byte of the command. -/
theorem followsHeader_cutText {after : Handler}
    (hcommand : command surroundings handler = ((commandBody surroundings after).1,
      .received [6] :: .entered .runningWaitingData :: (commandBody surroundings after).2))
    (h : if 7 ≤ stream.length then
        if 2 ^ 31 ≤ (getUint32 stream 3).toNat then Dies (commandBody surroundings after)
        else Reads stream (7 + (getUint32 stream 3).toNat) after.settings
          (commandBody surroundings after)
      else Stops .waits (commandBody surroundings after)) :
    if AnnouncesHuge (6 :: stream) then Dies (command surroundings handler)
    else FollowsHeader after.settings (6 :: stream) (command surroundings handler) := by
  have hnumber : getUint32 (6 :: stream) 4 = getUint32 stream 3 := rfl
  by_cases henough : 7 ≤ stream.length
  · rw [if_pos henough] at h
    by_cases hhuge : 2 ^ 31 ≤ (getUint32 stream 3).toNat
    · rw [if_pos hhuge] at h
      have hannounces : AnnouncesHuge (6 :: stream) :=
        ⟨rfl, by rw [List.length_cons]; omega, by rwa [hnumber]⟩
      rw [if_pos hannounces, hcommand]
      exact h
    · rw [if_neg hhuge] at h
      rw [if_neg fun hannounces ↦ hhuge (hnumber ▸ hannounces.2.2)]
      rw [FollowsHeader, header_cutText, if_pos henough]
      exact command_of_body hcommand h
  · rw [if_neg henough] at h
    rw [if_neg fun hannounces ↦ henough (by
      have hlength := hannounces.2.1
      rw [List.length_cons] at hlength
      omega)]
    rw [FollowsHeader, header_cutText, if_neg henough, hcommand]
    exact h.behind _ rfl

/-- FramebufferUpdateRequest, with the byte of the command. -/
theorem followsHeader_fbRequest {after : Handler}
    (hcommand : command surroundings handler = ((commandBody surroundings after).1,
      .received [3] :: .entered .runningWaitingData :: (commandBody surroundings after).2))
    (h : if 9 ≤ stream.length ∧ ¬ Answerable surroundings after.settings (fbRequest stream) then
        Dies (commandBody surroundings after)
      else Reads stream 9 { after.settings with nSends := after.settings.nSends + 1 }
        (commandBody surroundings after)) :
    if Overruns surroundings after.settings (3 :: stream) then Dies (command surroundings handler)
    else FollowsHeader after.settings (3 :: stream) (command surroundings handler) := by
  have hsame : Overruns surroundings after.settings (3 :: stream) ↔
      9 ≤ stream.length ∧ ¬ Answerable surroundings after.settings (fbRequest stream) := by
    simp [Overruns]
  by_cases hoverruns : Overruns surroundings after.settings (3 :: stream)
  · rw [if_pos (hsame.mp hoverruns)] at h
    rw [if_pos hoverruns, hcommand]
    exact h
  · rw [if_neg (mt hsame.mpr hoverruns)] at h
    rw [if_neg hoverruns]
    exact command_of_body hcommand h

/-- The step lemma. Assumes: the sends succeed, and the handler waits for a command. -/
theorem command_follows (hsends : ∀ i, surroundings.sendOk i = true)
    (hstate : handler.state = .runningWaitingCmd) (hstream : handler.incoming.flatten = stream) :
    if Breaks surroundings handler.settings stream then Dies (command surroundings handler)
    else FollowsHeader handler.settings stream (command surroundings handler) := by
  cases stream with
  | nil =>
    rw [if_neg (by simp [Breaks, AnnouncesHuge, Overruns]), command, runningWaitingCmd,
      if_pos hstate, recvAlloc_of_lt handler _ hstream (by simp)]
    exact ⟨rfl, fun _ ↦ rfl⟩
  | cons cmd stream =>
    obtain ⟨after, ⟨hafter, hcmd, hrest, hsettings⟩, hcommand⟩ :=
      command_cons surroundings hstate hstream
    rw [← hsettings]
    by_cases hcut : cmd = 6
    · subst hcut
      have hbreaks : Breaks surroundings after.settings (6 :: stream) ↔
          AnnouncesHuge (6 :: stream) := or_iff_left (by simp [Overruns])
      simp only [hbreaks]
      exact followsHeader_cutText hcommand (commandBody_cutText surroundings hafter hrest hcmd)
    by_cases hrequest : cmd = 3
    · subst hrequest
      have hbreaks : Breaks surroundings after.settings (3 :: stream) ↔
          Overruns surroundings after.settings (3 :: stream) :=
        or_iff_right (by simp [AnnouncesHuge])
      simp only [hbreaks]
      exact followsHeader_fbRequest hcommand (commandBody_fbRequest hsends hafter hrest hcmd)
    · rw [if_neg (by simp [Breaks, AnnouncesHuge, Overruns, hcut, hrequest])]
      by_cases hpixel : cmd = 0
      · subst hpixel
        exact command_of_body hcommand
          (commandBody_fixed surroundings hafter hrest (Or.inl ⟨hcmd, rfl, rfl⟩))
      · by_cases hencodings : cmd = 2
        · subst hencodings
          exact followsHeader_setEncodings hcommand
            (commandBody_setEncodings surroundings hafter hrest hcmd)
        · by_cases hkey : cmd = 4
          · subst hkey
            exact command_of_body hcommand
              (commandBody_fixed surroundings hafter hrest (Or.inr ⟨Or.inl ⟨hcmd, rfl⟩, rfl⟩))
          · by_cases hpointer : cmd = 5
            · subst hpointer
              exact command_of_body hcommand
                (commandBody_fixed surroundings hafter hrest (Or.inr ⟨Or.inr ⟨hcmd, rfl⟩, rfl⟩))
            · have hunknown : header (cmd :: stream) = .unknown := by
                simp [header, hpixel, hencodings, hrequest, hkey, hpointer, hcut]
              have hother : ∀ known : UInt8, cmd ≠ known →
                  after.runningCmd ≠ (known.toNat : ℤ) := by
                intro known hne hsame
                rw [hcmd] at hsame
                exact hne (UInt8.toNat_inj.mp (by exact_mod_cast hsame))
              have hends := commandBody_unknown surroundings hafter (hother 0 hpixel)
                (hother 2 hencodings) (hother 3 hrequest) (hother 4 hkey) (hother 5 hpointer)
                (hother 6 hcut)
              rw [FollowsHeader, hunknown, hcommand]
              exact hends.behind _ rfl

end Commands

/-! ### The loop -/

section Loop

variable {surroundings : Surroundings} {settings : Settings} {handler : Handler}
  {stream : List UInt8}

/-- The blocks of the handshake have nothing to do behind it. -/
theorem handshake_idle (surroundings : Surroundings) (hstate : handler.state = .runningWaitingCmd) :
    handshake surroundings handler = (.goes handler, []) := by
  simp [handshake, initialHandshakeServerSend, initialHandshakeClientResp, securityHandshakeServer,
    securityHandshakeClientResp, clientInit, serverInit, hstate]

/-- How the handler stops in a stream of messages. -/
def stopOf (stream : List UInt8) : Outcome :=
  if header (splitMessages stream).2 = .unknown then .ends else .waits

theorem stopOf_stopped (stream : List UInt8) (handler : Handler) :
    stopOf stream ≠ .goes handler := by
  unfold stopOf
  split_ifs <;> simp

theorem FollowsHeader.consumes {result : Result} (h : FollowsHeader settings stream result)
    {n : ℕ} (hheader : header stream = .length n) (hn : n ≤ stream.length) :
    Consumes stream n (settings.after stream) result := by
  rw [FollowsHeader, hheader] at h
  exact (if_pos hn).mp h

theorem FollowsHeader.stops {result : Result} (h : FollowsHeader settings stream result)
    (hnone : ∀ n, header stream = .length n → ¬ n ≤ stream.length) :
    Stops (stopOf stream) result := by
  rw [stopOf, splitMessages_of_not_le hnone]
  rw [FollowsHeader] at h
  cases hheader : header stream with
  | length n =>
    simpa only [hheader, Reads, if_neg (hnone n hheader), reduceCtorEq, if_false] using h
  | unknown => simpa only [hheader, if_true] using h
  | incomplete => simpa only [hheader, reduceCtorEq, if_false] using h

/-- The run lemma. Assumes: the sends succeed, the handler waits for a command, and the loop has a
turn for every byte and one more. -/
theorem vncLoop_follows (hsends : ∀ i, surroundings.sendOk i = true) {turns : ℕ}
    (hturns : stream.length < turns) (hstate : handler.state = .runningWaitingCmd)
    (hstream : handler.incoming.flatten = stream) :
    (BreaksAhead surroundings handler.settings stream →
        Dies (vncLoop surroundings turns handler)) ∧
      (¬ BreaksAhead surroundings handler.settings stream →
        (vncLoop surroundings turns handler).1 = stopOf stream ∧
          unitsOf (vncLoop surroundings turns handler).2 =
            (splitMessages stream).1.map fun message ↦ (.runningWaitingCmd, message)) := by
  induction turns generalizing stream handler with
  | zero => exact absurd hturns (Nat.not_lt_zero _)
  | succ turns ih =>
    have hloop : vncLoop surroundings (turns + 1) handler =
        (command surroundings handler).andThen (vncLoop surroundings turns) := by
      rw [vncLoop, handshake_idle surroundings hstate]
      rfl
    have hcommand := command_follows hsends hstate hstream
    rw [hloop]
    by_cases hnow : Breaks surroundings handler.settings stream
    · rw [if_pos hnow] at hcommand
      exact ⟨fun _ ↦ hcommand.andThen _,
        fun hnone ↦ absurd (breaksAhead_of_breaks hnow) hnone⟩
    · rw [if_neg hnow] at hcommand
      by_cases hmessage : ∃ n, header stream = .length n ∧ n ≤ stream.length
      · obtain ⟨n, hheader, hn⟩ := hmessage
        obtain ⟨next, hgoes, ⟨hnext, hrest, hsettings⟩, hscan⟩ := hcommand.consumes hheader hn
        have hshorter : (stream.drop n).length < turns := by
          have hpos := header_pos hheader
          rw [List.length_drop]
          omega
        obtain ⟨hdies, hfollows⟩ := ih hshorter hnext hrest
        have hahead : BreaksAhead surroundings handler.settings stream ↔
            BreaksAhead surroundings next.settings (stream.drop n) := by
          rw [breaksAhead_of_le hheader hn, hsettings]
          exact or_iff_right hnow
        have hsplit := splitMessages_of_le hheader hn
        rw [Result.andThen, hgoes, hahead]
        refine ⟨hdies, fun hnone ↦ ?_⟩
        obtain ⟨hstop, hunits⟩ := hfollows hnone
        refine ⟨?_, ?_⟩
        · rw [hstop, stopOf, stopOf, hsplit]
        · rw [unitsOf] at hunits ⊢
          rw [scan_append, hscan, hunits, hsplit]
          rfl
      · have hnone : ∀ n, header stream = .length n → ¬ n ≤ stream.length :=
          fun n hheader hn ↦ hmessage ⟨n, hheader, hn⟩
        obtain ⟨hstop, hunits⟩ := (hcommand.stops hnone).skip (vncLoop surroundings turns)
          (stopOf_stopped stream)
        rw [breaksAhead_of_not_le hnone, splitMessages_of_not_le hnone]
        exact ⟨fun hbreaks ↦ absurd hbreaks hnow, fun _ ↦ ⟨hstop, hunits []⟩⟩

end Loop

/-! ### The handshake -/

section Handshake

variable {surroundings : Surroundings} {handler : Handler} {stream : List UInt8}

/-- The byte of the client's initialisation. Assumes: the sends succeed. -/
theorem clientInit_follows (hsends : ∀ i, surroundings.sendOk i = true)
    (hstate : handler.state = .clientInit) {init : UInt8}
    (hstream : handler.incoming.flatten = init :: stream) :
    ∃ next events, (clientInit handler).andThen (serverInit surroundings) = (.goes next, events) ∧
      (next.state = .runningWaitingCmd ∧ next.incoming.flatten = stream ∧
        next.settings = { handler.settings with nSends := handler.settings.nSends + 1 }) ∧
      scan [] events = ([(.runningWaitingCmd, [init])], []) := by
  obtain ⟨incoming, hrest, hread⟩ := recvAlloc_of_le (n := 1) handler
    (fun _ handler ↦ enter .serverInit handler) hstream (by simp)
  rw [clientInit, if_pos hstate, hread]
  simp only [enter, andThen_goes, serverInit, sendFunc, hsends, if_true]
  exact ⟨_, _, rfl, ⟨rfl, hrest, rfl⟩, rfl⟩

/-- The blocks for the choice of a security type. -/
def security (surroundings : Surroundings) (handler : Handler) : Result :=
  (securityHandshakeServer surroundings handler).andThen (securityHandshakeClientResp surroundings)

/-- The read of the choice. Assumes: the sends succeed. -/
theorem security_eq (hsends : ∀ i, surroundings.sendOk i = true)
    (hstate : handler.state = .securityHandshakeServer) :
    security surroundings handler =
      Result.andThen (.goes { handler with
          state := .securityHandshakeClientResp, nSends := handler.nSends + 1 },
        [.sent [1, 1], .entered .securityHandshakeClientResp])
        (securityHandshakeClientResp surroundings) := by
  have hserver : securityHandshakeServer surroundings handler =
      (.goes { handler with state := .securityHandshakeClientResp, nSends := handler.nSends + 1 },
        [.sent [1, 1], .entered .securityHandshakeClientResp]) := by
    simp [securityHandshakeServer, hstate, sendFunc, hsends, enter]
  rw [security, hserver]

/-- No choice has come. -/
theorem security_waits (hsends : ∀ i, surroundings.sendOk i = true)
    (hstate : handler.state = .securityHandshakeServer)
    (hstream : handler.incoming.flatten = []) :
    (security surroundings handler).1 = .waits ∧
      (scan [] (security surroundings handler).2).1 = [] := by
  rw [security_eq hsends hstate, andThen_goes, securityHandshakeClientResp, if_pos rfl,
    recvAlloc_of_lt { handler with
      state := .securityHandshakeClientResp, nSends := handler.nSends + 1 } _ hstream (by simp)]
  exact ⟨rfl, rfl⟩

/-- A choice has come. Assumes: the sends succeed. -/
theorem security_follows (hsends : ∀ i, surroundings.sendOk i = true)
    (hstate : handler.state = .securityHandshakeServer) {choice : UInt8}
    (hstream : handler.incoming.flatten = choice :: stream) :
    if choice = 1 then ∃ next events, security surroundings handler = (.goes next, events) ∧
      (next.state = .clientInit ∧ next.incoming.flatten = stream ∧
        next.settings = { handler.settings with nSends := handler.settings.nSends + 2 }) ∧
      scan [] events = ([(.clientInit, [choice])], [])
    else (security surroundings handler).1 = .ends ∧
      (scan [] (security surroundings handler).2).1 = [] := by
  rw [security_eq hsends hstate, andThen_goes, securityHandshakeClientResp, if_pos rfl]
  obtain ⟨incoming, hrest, hread⟩ := recvAlloc_of_le (n := 1) { handler with
    state := .securityHandshakeClientResp, nSends := handler.nSends + 1 }
    (fun chosenSec handler ↦
      if chosenSec.getD 0 0 = 1 then
        (sendFunc surroundings [0, 0, 0, 0] handler).andThen (enter .clientInit)
      else (sendFunc surroundings [0, 0, 0, 1] handler).andThen fun _ ↦ (.ends, []))
    hstream (by simp)
  have hbyte : (List.take 1 (choice :: stream)).getD 0 0 = choice := rfl
  rw [hread]
  simp only [hbyte, sendFunc, hsends, if_true, andThen_goes]
  by_cases hnone : choice = 1
  · rw [if_pos hnone, if_pos hnone]
    exact ⟨_, _, rfl, ⟨rfl, hrest, rfl⟩, by rw [hnone]; rfl⟩
  · rw [if_neg hnone, if_neg hnone]
    exact ⟨rfl, rfl⟩

/-- The version of the client. Assumes: the sends succeed. -/
theorem version_follows (hsends : ∀ i, surroundings.sendOk i = true)
    (incoming : List (List UInt8)) (hstream : incoming.flatten = stream) :
    let result := (initialHandshakeServerSend surroundings (.start incoming)).andThen
      initialHandshakeClientResp
    if stream.length < 12 then result.1 = .waits ∧ (scan [] result.2).1 = []
    else if stream.take 3 ≠ ascii "RFB" then result.1 = .ends ∧ (scan [] result.2).1 = []
    else ∃ next events, result = (.goes next, events) ∧
      (next.state = .securityHandshakeServer ∧ next.incoming.flatten = stream.drop 12 ∧
        next.settings = ⟨8, [], 1⟩) ∧
      scan [] events = ([(.securityHandshakeServer, stream.take 12)], []) := by
  have hserver : initialHandshakeServerSend surroundings (.start incoming) =
      (.goes { Handler.start incoming with
          state := .initialHandshakeClientResp, nSends := 1 },
        [.sent (ascii "RFB 003.008\n"), .entered .initialHandshakeClientResp]) := by
    simp [initialHandshakeServerSend, Handler.start, sendFunc, hsends, enter]
  intro result
  simp only [result, hserver, andThen_goes, initialHandshakeClientResp, if_true]
  by_cases hshort : stream.length < 12
  · rw [if_pos hshort, recvAlloc_of_lt { Handler.start incoming with
      state := .initialHandshakeClientResp, nSends := 1 } _ hstream hshort]
    exact ⟨rfl, rfl⟩
  · obtain ⟨rest, hrest, hread⟩ := recvAlloc_of_le { Handler.start incoming with
      state := .initialHandshakeClientResp, nSends := 1 } (fun handshake handler ↦
        if handshake.take 3 = ascii "RFB" then enter .securityHandshakeServer handler
        else (.ends, [])) hstream (Nat.le_of_not_lt hshort)
    rw [if_neg hshort, hread]
    have hthree : (stream.take 12).take 3 = stream.take 3 := by
      rw [List.take_take]
      rfl
    rw [hthree]
    by_cases hversion : stream.take 3 = ascii "RFB"
    · rw [if_neg (not_not.mpr hversion), if_pos hversion]
      exact ⟨_, _, rfl, ⟨rfl, hrest, rfl⟩, rfl⟩
    · rw [if_pos hversion, if_neg hversion]
      exact ⟨rfl, rfl⟩

/-- The units of two blocks, the first of which ends with a unit. -/
theorem unitsOf_andThen {events : List VncEvent} {units : List (VncState × List UInt8)}
    (h : scan [] events = (units, [])) (next : Handler → Result) :
    unitsOf (Result.andThen (.goes handler, events) next).2 =
      units ++ unitsOf (next handler).2 := by
  rw [andThen_goes, unitsOf, scan_append, h]
  rfl

/-- The first turn of the loop and all others, behind the choice of a security type. -/
def behindChoice (surroundings : Surroundings) (turns : ℕ) (handler : Handler) : Result :=
  ((clientInit handler).andThen (serverInit surroundings)).andThen fun handler ↦
    (command surroundings handler).andThen (vncLoop surroundings turns)

theorem vncLoop_start (surroundings : Surroundings) (turns : ℕ) (incoming : List (List UInt8)) :
    vncLoop surroundings (turns + 1) (.start incoming) =
      ((initialHandshakeServerSend surroundings (.start incoming)).andThen
        initialHandshakeClientResp).andThen fun handler ↦
          (security surroundings handler).andThen (behindChoice surroundings turns) := by
  have hbehind : behindChoice surroundings turns = fun handler ↦
      (clientInit handler).andThen fun handler ↦ (serverInit surroundings handler).andThen
        fun handler ↦ (command surroundings handler).andThen (vncLoop surroundings turns) := by
    funext handler
    simp only [behindChoice, andThen_assoc]
  simp only [vncLoop, handshake, security, andThen_assoc, hbehind]

/-- No initialisation has come. -/
theorem behindChoice_waits (surroundings : Surroundings) (turns : ℕ)
    (hstate : handler.state = .clientInit) (hstream : handler.incoming.flatten = []) :
    behindChoice surroundings turns handler = (.waits, []) := by
  rw [behindChoice, clientInit, if_pos hstate, recvAlloc_of_lt handler _ hstream (by simp)]
  rfl

/-- The initialisation and the messages behind it. Assumes: the sends succeed, three were made, and
the loop has a turn for every byte. -/
theorem behindChoice_follows (hsends : ∀ i, surroundings.sendOk i = true) {turns : ℕ}
    (hturns : stream.length < turns + 1) (hstate : handler.state = .clientInit)
    (hsettings : handler.settings = ⟨8, [], 3⟩) {init : UInt8}
    (hstream : handler.incoming.flatten = init :: stream) :
    (BreaksAhead surroundings .start stream → Dies (behindChoice surroundings turns handler)) ∧
      (¬ BreaksAhead surroundings .start stream →
        (behindChoice surroundings turns handler).1 = stopOf stream ∧
          unitsOf (behindChoice surroundings turns handler).2 = (.runningWaitingCmd, [init]) ::
            (splitMessages stream).1.map fun message ↦ (.runningWaitingCmd, message)) := by
  obtain ⟨next, events, hinit, ⟨hnext, hrest, hafter⟩, hscan⟩ :=
    clientInit_follows hsends hstate hstream
  have hstart : next.settings = .start := by
    rw [hafter, hsettings]
    rfl
  have hloop : (command surroundings next).andThen (vncLoop surroundings turns) =
      vncLoop surroundings (turns + 1) next := by
    rw [vncLoop, handshake_idle surroundings hnext]
    rfl
  obtain ⟨hdies, hfollows⟩ := vncLoop_follows hsends hturns hnext hrest
  rw [hstart] at hdies hfollows
  rw [behindChoice, hinit, unitsOf_andThen hscan, andThen_goes, hloop]
  refine ⟨hdies, fun hnone ↦ ?_⟩
  obtain ⟨hstop, hunits⟩ := hfollows hnone
  exact ⟨hstop, by rw [hunits]; rfl⟩

/-- The units behind the version of a handshake, as `framing` has them. -/
def framingChoice : List UInt8 → List (VncState × List UInt8) × Ending
  | [] => ([], .goesOn)
  | security :: rest =>
    if security ≠ 1 then ([], .refused)
    else match rest with
      | [] => ([(.clientInit, [security])], .goesOn)
      | init :: rest =>
        ((.clientInit, [security]) :: (.runningWaitingCmd, [init]) ::
          (splitMessages rest).1.map fun message ↦ (.runningWaitingCmd, message),
          if header (splitMessages rest).2 = .unknown then .refused else .goesOn)

theorem framing_of_version (hlong : ¬ stream.length < 12) (hversion : stream.take 3 = ascii "RFB") :
    framing stream = ((.securityHandshakeServer, stream.take 12) ::
      (framingChoice (stream.drop 12)).1, (framingChoice (stream.drop 12)).2) := by
  rw [framing, if_neg hlong, if_neg (not_not.mpr hversion)]
  cases stream.drop 12 with
  | nil => rfl
  | cons security rest =>
    simp only [framingChoice]
    split_ifs
    · rfl
    · cases rest <;> rfl

/-- The handler does not survive a message behind an accepted handshake. -/
def BreaksSession (surroundings : Surroundings) (stream : List UInt8) : Prop :=
  Accepts stream ∧ BreaksAhead surroundings .start (stream.drop 14)

theorem not_breaksSession_iff (surroundings : Surroundings) (stream : List UInt8) :
    ¬ BreaksSession surroundings stream ↔
      ¬ SendsHugeCut stream ∧ UpdatesFit surroundings stream := by
  rw [BreaksSession, BreaksAhead, SendsHugeCut, UpdatesFit]
  tauto

/-- The same behind the version of a handshake. -/
def BreaksBehindVersion (surroundings : Surroundings) (stream : List UInt8) : Prop :=
  ∃ init messages, stream = 1 :: init :: messages ∧ BreaksAhead surroundings .start messages

theorem breaksSession_of_version (hversion : stream.take 3 = ascii "RFB") :
    BreaksSession surroundings stream ↔ BreaksBehindVersion surroundings (stream.drop 12) := by
  have htwelfth : stream[12]? = (stream.drop 12)[0]? := by rw [List.getElem?_drop]
  have hmessages : stream.drop 14 = (stream.drop 12).drop 2 := by rw [List.drop_drop]
  have hlength : (stream.drop 12).length = stream.length - 12 := List.length_drop
  rw [BreaksSession, Accepts, htwelfth, hmessages]
  generalize stream.drop 12 = rest at hlength
  constructor
  · rintro ⟨⟨hlong, -, hchoice⟩, hahead⟩
    match rest, hlength, hchoice, hahead with
    | [], hlength, hchoice, _ => exact absurd hchoice (by simp)
    | [_], hlength, _, _ => exact absurd hlength (by simp only [List.length_singleton]; omega)
    | choice :: init :: messages, _, hchoice, hahead =>
      exact ⟨init, messages, by rw [Option.some.inj hchoice], hahead⟩
  · rintro ⟨init, messages, rfl, hahead⟩
    simp only [List.length_cons] at hlength
    exact ⟨⟨by omega, hversion, rfl⟩, hahead⟩

/-- The loop behind the version. Assumes: the sends succeed, one was made, and the loop has a turn
for every byte. -/
theorem security_inStep (hsends : ∀ i, surroundings.sendOk i = true) {turns : ℕ}
    (hturns : stream.length < turns + 1) (hstate : handler.state = .securityHandshakeServer)
    (hsettings : handler.settings = ⟨8, [], 1⟩) (hstream : handler.incoming.flatten = stream) :
    (BreaksBehindVersion surroundings stream →
        Dies ((security surroundings handler).andThen (behindChoice surroundings turns))) ∧
      (¬ BreaksBehindVersion surroundings stream →
        InStep ((security surroundings handler).andThen (behindChoice surroundings turns))
          (framingChoice stream)) := by
  cases stream with
  | nil =>
    obtain ⟨hwaits, hunits⟩ := security_waits hsends hstate hstream
    rw [andThen_stopped hwaits (by simp)]
    refine ⟨?_, fun _ ↦ ⟨hunits, hwaits⟩⟩
    rintro ⟨_, _, hnil, -⟩
    exact absurd hnil (by simp)
  | cons choice rest =>
    have hchoice := security_follows hsends hstate hstream
    by_cases hnone : choice = 1
    swap
    · rw [if_neg hnone] at hchoice
      obtain ⟨hends, hunits⟩ := hchoice
      have hrefused : framingChoice (choice :: rest) = ([], .refused) := if_pos hnone
      rw [andThen_stopped hends (by simp), hrefused]
      refine ⟨?_, fun _ ↦ ⟨hunits, hends⟩⟩
      rintro ⟨_, _, hsame, -⟩
      exact absurd (List.cons.inj hsame).1 hnone
    rw [if_pos hnone] at hchoice
    obtain ⟨initial, events, hresult, ⟨hinitial, hbehind, hafter⟩, hscan⟩ := hchoice
    have hthree : initial.settings = ⟨8, [], 3⟩ := by
      rw [hafter, hsettings]
    rw [hresult, InStep, unitsOf_andThen hscan, andThen_goes]
    subst hnone
    cases rest with
    | nil =>
      rw [behindChoice_waits surroundings turns hinitial hbehind]
      refine ⟨?_, fun _ ↦ ⟨rfl, rfl⟩⟩
      rintro ⟨_, _, hsame, -⟩
      exact absurd hsame (by simp)
    | cons init messages =>
      have hshorter : messages.length < turns + 1 := by
        simp only [List.length_cons] at hturns
        omega
      obtain ⟨hdies, hfollows⟩ := behindChoice_follows hsends hshorter hinitial hthree hbehind
      constructor
      · rintro ⟨_, _, hsame, hahead⟩
        obtain ⟨-, -, rfl⟩ : (1 : UInt8) = 1 ∧ init = _ ∧ messages = _ := by simpa using hsame
        exact hdies hahead
      · intro hnot
        obtain ⟨hstop, hunits⟩ := hfollows fun hahead ↦ hnot ⟨init, messages, rfl, hahead⟩
        refine ⟨by rw [hunits]; rfl, ?_⟩
        rw [hstop, stopOf]
        have hchoice : (framingChoice (1 :: init :: messages)).2 =
            if header (splitMessages messages).2 = .unknown then .refused else .goesOn := rfl
        rw [hchoice]
        split_ifs <;> rfl

/-- The loop from its start. Assumes: the sends succeed, and the loop has a turn for every byte and
one more. -/
theorem vncLoop_inStep (hsends : ∀ i, surroundings.sendOk i = true) {turns : ℕ}
    {incoming : List (List UInt8)} (hstream : incoming.flatten = stream)
    (hturns : stream.length < turns) :
    (BreaksSession surroundings stream → Dies (vncLoop surroundings turns (.start incoming))) ∧
      (¬ BreaksSession surroundings stream →
        InStep (vncLoop surroundings turns (.start incoming)) (framing stream)) := by
  obtain ⟨turns, rfl⟩ : ∃ before, turns = before + 1 := ⟨turns - 1, by omega⟩
  rw [vncLoop_start]
  have hversion := version_follows hsends incoming hstream
  dsimp only at hversion
  by_cases hshort : stream.length < 12
  · rw [if_pos hshort] at hversion
    rw [andThen_stopped hversion.1 (by simp)]
    refine ⟨fun hbreaks ↦ absurd hbreaks.1.1 (by omega), fun _ ↦ ?_⟩
    rw [framing, if_pos hshort]
    exact hversion.symm
  rw [if_neg hshort] at hversion
  by_cases hrfb : stream.take 3 = ascii "RFB"
  swap
  · rw [if_pos hrfb] at hversion
    rw [andThen_stopped hversion.1 (by simp)]
    refine ⟨fun hbreaks ↦ absurd hbreaks.1.2.1 hrfb, fun _ ↦ ?_⟩
    rw [framing, if_neg hshort, if_pos hrfb]
    exact hversion.symm
  rw [if_neg (not_not.mpr hrfb)] at hversion
  obtain ⟨chosen, events, hresult, ⟨hchosen, hrest, hsettings⟩, hscan⟩ := hversion
  have hbytes : (stream.drop 12).length < turns + 1 := by
    rw [List.length_drop]
    omega
  obtain ⟨hdies, hfollows⟩ := security_inStep hsends hbytes hchosen hsettings hrest
  rw [hresult, breaksSession_of_version hrfb, framing_of_version hshort hrfb]
  refine ⟨hdies, fun hnot ↦ ?_⟩
  obtain ⟨hunits, houtcome⟩ := hfollows hnot
  refine ⟨?_, houtcome⟩
  rw [unitsOf_andThen hscan, hunits]
  rfl

end Handshake

/-! ### The handler -/

/-- A handler that does not survive is not in step with any framing. -/
theorem Dies.not_inStep {result : Result} (h : Dies result)
    (expected : List (VncState × List UInt8) × Ending) : ¬ InStep result expected := by
  rintro ⟨-, houtcome⟩
  rcases h with haborts | hoverruns
  · rw [haborts] at houtcome
    split at houtcome <;> exact absurd houtcome (by simp)
  · rw [hoverruns] at houtcome
    split at houtcome <;> exact absurd houtcome (by simp)

/-- When the handler stays in step with its client. Assumes: the sends succeed, and the loop has a
turn for every byte of the stream and one more. For every stream and every division of it into
chunks, the handler consumes the units of the framing, one by one and up to the last complete one,
is ready for the next one exactly behind each of them, ends the session where the framing refuses it
and waits for bytes otherwise, exactly when behind an accepted handshake no ClientCutText message
announces `2 ^ 31` bytes or more, and every update that a message asks for stays inside of its
buffers. -/
theorem vnc_in_step_iff (surroundings : Surroundings)
    (hsends : ∀ i, surroundings.sendOk i = true) (incoming : List (List UInt8)) (turns : ℕ)
    (hturns : incoming.flatten.length < turns) :
    InStep (processVncRequest surroundings turns incoming) (framing incoming.flatten) ↔
      ¬ SendsHugeCut incoming.flatten ∧ UpdatesFit surroundings incoming.flatten := by
  obtain ⟨hdies, hfollows⟩ := vncLoop_inStep hsends rfl hturns
  have hprocess : InStep (processVncRequest surroundings turns incoming)
      (framing incoming.flatten) ↔
      InStep (vncLoop surroundings turns (.start incoming)) (framing incoming.flatten) := by
    unfold processVncRequest InStep
    dsimp only
    split_ifs with hends
    · rw [unitsOf, scan_append, hends]
      simp [unitsOf, scan]
    · rfl
  rw [hprocess, ← not_breaksSession_iff]
  exact ⟨fun hstep hbreaks ↦ (hdies hbreaks).not_inStep _ hstep, hfollows⟩

/-- A black screen, and sends that are taken. -/
def sampleSurroundings : Surroundings where
  fbW := 640
  fbH := 480
  buffer _ := (greyScreen 640 480 0).buffer
  size _ := (greyScreen 640 480 0).size
  behind _ _ := 0
  compressors _ := ⟨id, fun picture _ _ ↦ picture⟩
  sendOk _ := true

/-- A client that sets hextile, asks for one tile, cuts a text of two bytes and starts a
PointerEvent, in chunks that are not aligned to its messages. -/
def sampleChunks : List (List UInt8) :=
  [ascii "RFB 003.008\n" ++ [1], [], [1, 2, 0, 0, 1, 0], [0, 0, 5, 3, 0, 0, 0, 0, 0],
    [0, 16, 0, 16, 6, 0, 0, 0, 0, 0, 0, 2, 65], [66, 5, 0]]

/-- The tile has room at depth 8. -/
theorem updatesFit_sample : UpdatesFit sampleSurroundings sampleChunks.flatten := by
  intro _
  have hmessages : (splitMessages (sampleChunks.flatten.drop 14)).1 =
      [[2, 0, 0, 1, 0, 0, 0, 5], [3, 0, 0, 0, 0, 0, 0, 16, 0, 16],
        [6, 0, 0, 0, 0, 0, 0, 2, 65, 66]] := by
    decide +kernel
  have hsettings : Settings.start.after [2, 0, 0, 1, 0, 0, 0, 5] = ⟨8, [5], 4⟩ := by decide
  have htile : Answerable sampleSurroundings ⟨8, [5], 4⟩ ⟨false, 0, 0, 16, 16⟩ :=
    Or.inr (tilesFit_one_tile (by decide) _)
  rw [hmessages]
  refine ⟨by simp [Overruns], fun hoverruns ↦ ?_, by simp [Overruns], trivial⟩
  rw [hsettings] at hoverruns
  exact hoverruns.2 htile

theorem vnc_in_step_sample :
    sampleChunks.flatten.length < 50 ∧ ¬ SendsHugeCut sampleChunks.flatten ∧
      UpdatesFit sampleSurroundings sampleChunks.flatten ∧
      InStep (processVncRequest sampleSurroundings 50 sampleChunks)
        (framing sampleChunks.flatten) := by
  have hturns : sampleChunks.flatten.length < 50 := by decide +kernel
  have hnone : ¬ SendsHugeCut sampleChunks.flatten := by decide +kernel
  exact ⟨hturns, hnone, updatesFit_sample, (vnc_in_step_iff sampleSurroundings (fun _ ↦ rfl)
    sampleChunks 50 hturns).mpr ⟨hnone, updatesFit_sample⟩⟩

/-- A ClientCutText message that announces `2 ^ 31` bytes: its header is framed as the start of a
message, and the handler fails its assertion on it. -/
theorem huge_cut_aborts :
    (framing (ascii "RFB 003.008\n" ++ [1, 1] ++ [6, 0, 0, 0, 128, 0, 0, 0])).2 = .goesOn ∧
      (processVncRequest sampleSurroundings 40
        [ascii "RFB 003.008\n" ++ [1, 1] ++ [6, 0, 0, 0, 128, 0, 0, 0]]).1 = .aborts ∧
      ¬ InStep (processVncRequest sampleSurroundings 40
        [ascii "RFB 003.008\n" ++ [1, 1] ++ [6, 0, 0, 0, 128, 0, 0, 0]])
        (framing (ascii "RFB 003.008\n" ++ [1, 1] ++ [6, 0, 0, 0, 128, 0, 0, 0])) := by
  have hgoesOn :
      (framing (ascii "RFB 003.008\n" ++ [1, 1] ++ [6, 0, 0, 0, 128, 0, 0, 0])).2 = .goesOn := by
    decide +kernel
  have haborts : (processVncRequest sampleSurroundings 40
      [ascii "RFB 003.008\n" ++ [1, 1] ++ [6, 0, 0, 0, 128, 0, 0, 0]]).1 = .aborts := by
    decide +kernel
  refine ⟨hgoesOn, haborts, fun hstep ↦ ?_⟩
  have houtcome := hstep.2
  rw [haborts, hgoesOn] at houtcome
  exact absurd houtcome (by simp)

end MyIPNG.Vnc
