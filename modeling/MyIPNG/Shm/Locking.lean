import MyIPNG.Shm.Refinement

/-!
# The mutex of the queue

`wait_for_message` and `send_message` with their calls of the threads library. Any of these may
fail, so each of them comes with the error number that it returns, and the two functions here make
the list of their calls besides the result. `heldAfter` follows the mutex through such a list: a
lock that returns `EOWNERDEAD` has the mutex as well as one that succeeds, a wait on a condition
variable returns with the mutex held whether it fails or not, and an unlock of a mutex that is not
held is an error of the caller.

`send_message` has one unlock behind its loop, which every way out of the loop passes
(`releases_sendMessageCalls`). `wait_for_message` unlocks at two of the ways out of its loop, and
there is a third one: a wait that fails, unless it is one with a timeout that reports `ETIMEDOUT`,
ends the call with the mutex held (`waitLoop_releases_iff`).
-/

set_option autoImplicit false
set_option relaxedAutoImplicit false

namespace MyIPNG.Shm

open Base

/-! ### Calls and the mutex -/

/-- `EOWNERDEAD`. -/
def eOwnerDead : ℕ := 130

/-- `ETIMEDOUT`. -/
def eTimedOut : ℕ := 110

/-- A call of the threads library with the error number that it returns, which is zero on
success. -/
inductive LockCall
  | mutexLock (err : ℕ)
  | mutexConsistent (err : ℕ)
  | condTimedwait (err : ℕ)
  | condWait (err : ℕ)
  | condBroadcast (err : ℕ)
  | mutexUnlock (err : ℕ)
deriving DecidableEq, Repr

/-- Whether the caller holds the mutex after a call. Nothing when it unlocks a mutex that it does
not hold. -/
def LockCall.effect (held : Bool) : LockCall → Option Bool
  | .mutexLock err => some (err = 0 ∨ err = eOwnerDead)
  | .mutexConsistent _ => some held
  | .condTimedwait _ => some held
  | .condWait _ => some held
  | .condBroadcast _ => some held
  | .mutexUnlock err => if held then some (err ≠ 0) else none

/-- Whether the caller holds the mutex after a list of calls. -/
def heldAfter (held : Bool) (calls : List LockCall) : Option Bool :=
  calls.foldlM LockCall.effect held

@[simp] theorem heldAfter_nil (held : Bool) : heldAfter held [] = some held := rfl

@[simp] theorem heldAfter_cons (held : Bool) (call : LockCall) (calls : List LockCall) :
    heldAfter held (call :: calls) =
      (call.effect held).bind fun next ↦ heldAfter next calls := rfl

theorem heldAfter_append (held : Bool) (first second : List LockCall) :
    heldAfter held (first ++ second) =
      (heldAfter held first).bind fun next ↦ heldAfter next second :=
  List.foldlM_append

/-- How far a call of one of the two functions gets: it returns a value and leaves the segment, it
is asleep in a wait, or an assertion ends the process. -/
inductive Outcome (α : Type)
  | returned (value : α) (shm : SharedMemory)
  | asleep
  | assertionFailed
deriving DecidableEq, Repr

/-- Calls that start with the mutex held or not: none of them unlocks a mutex that is not held, and
the mutex is not held on return. -/
def ReleasesFrom {α : Type} (held : Bool) (result : List LockCall × Outcome α) : Prop :=
  ∃ after, heldAfter held result.1 = some after ∧
    ∀ value shm, result.2 = .returned value shm → after = false

/-- The function returns with the mutex not held, and never unlocks it when it is not held. -/
def Releases {α : Type} (result : List LockCall × Outcome α) : Prop := ReleasesFrom false result

/-- What a wait on a condition variable returns, and the segment that the caller then finds. -/
structure Wakeup where
  err : ℕ
  shm : SharedMemory
deriving DecidableEq, Repr

/-! ### `wait_for_message` -/

/-- What the system does during a call of `wait_for_message`. The segment is the one that the caller
finds when it has the mutex. -/
structure WaitEnvironment where
  gettimeofdayFails : Bool
  lockErr : ℕ
  consistentErr : ℕ
  broadcastErr : ℕ
  unlockErr : ℕ
  shm : SharedMemory
  wakeups : List Wakeup
deriving DecidableEq, Repr

/-- The calls that take the mutex. -/
def lockCalls (lockErr consistentErr : ℕ) : List LockCall :=
  if lockErr = eOwnerDead then [.mutexLock lockErr, .mutexConsistent consistentErr]
  else [.mutexLock lockErr]

section Wait

variable (timeout : ℤ) (address : DataAddress) (filter : Filter)

/-- The loop of `wait_for_message`. -/
def waitLoop (broadcastErr unlockErr : ℕ) :
    SharedMemory → List Wakeup → List LockCall × Outcome (Option (List UInt8))
  | shm, wakeups =>
    match scan address shm filter 0 with
    | .found cur totalLength =>
      ([.condBroadcast broadcastErr, .mutexUnlock unlockErr],
        .returned (some (slice shm.data cur totalLength)) (removeRecord shm cur totalLength))
    | .assertionFailed => ([], .assertionFailed)
    | .notFound =>
      match wakeups with
      | [] => ([], .asleep)
      | wakeup :: rest =>
        let next := waitLoop broadcastErr unlockErr wakeup.shm rest
        if 0 ≤ timeout then
          if wakeup.err ≠ 0 then
            if wakeup.err ≠ eTimedOut then
              ([.condTimedwait wakeup.err], .returned none wakeup.shm)
            else
              ([.condTimedwait wakeup.err, .mutexUnlock unlockErr], .returned none wakeup.shm)
          else (.condTimedwait wakeup.err :: next.1, next.2)
        else if wakeup.err ≠ 0 then ([.condWait wakeup.err], .returned none wakeup.shm)
        else (.condWait wakeup.err :: next.1, next.2)

/-- `wait_for_message`. -/
def waitForMessageCalls (env : WaitEnvironment) : List LockCall × Outcome (Option (List UInt8)) :=
  if 0 ≤ timeout ∧ env.gettimeofdayFails then ([], .returned none env.shm)
  else if env.lockErr ≠ 0 ∧ env.lockErr ≠ eOwnerDead then
    ([.mutexLock env.lockErr], .returned none env.shm)
  else
    let loop := waitLoop timeout address filter env.broadcastErr env.unlockErr env.shm env.wakeups
    (lockCalls env.lockErr env.consistentErr ++ loop.1, loop.2)

/-- A wait that the loop gets to fails, and it is not one with a timeout that reports it: the scans
before it found nothing, and the waits before it succeeded. -/
def FailsInWait (shm : SharedMemory) (wakeups : List Wakeup) : Prop :=
  ∃ before wakeup after, wakeups = before ++ wakeup :: after ∧
    (∀ seen ∈ shm :: before.map Wakeup.shm, scan address seen filter 0 = .notFound) ∧
    (∀ earlier ∈ before, earlier.err = 0) ∧
    wakeup.err ≠ 0 ∧ ¬ (0 ≤ timeout ∧ wakeup.err = eTimedOut)

end Wait

/-! ### `send_message` -/

/-- What the system does during a call of `send_message`. -/
structure SendEnvironment where
  shmOpenFails : Bool
  fstatFails : Bool
  mmapFails : Bool
  lockErr : ℕ
  consistentErr : ℕ
  broadcastErr : ℕ
  unlockErr : ℕ
  shm : SharedMemory
  wakeups : List Wakeup
deriving DecidableEq, Repr

/-- The loop of `send_message`, with its `ok`. -/
def sendLoop (blocking : Bool) (m : Message) (broadcastErr : ℕ) :
    SharedMemory → List Wakeup → List LockCall × Outcome Bool
  | shm, wakeups =>
    match tryAppend shm m, blocking with
    | some next, _ => ([.condBroadcast broadcastErr], .returned (broadcastErr = 0) next)
    | none, false => ([], .returned false shm)
    | none, true =>
      match wakeups with
      | [] => ([], .asleep)
      | wakeup :: rest =>
        let next := sendLoop blocking m broadcastErr wakeup.shm rest
        if wakeup.err ≠ 0 then ([.condWait wakeup.err], .returned false wakeup.shm)
        else (.condWait wakeup.err :: next.1, next.2)

/-- `send_message`. -/
def sendMessageCalls (localIdentifier : Identifier) (m : Message) (blocking : Bool) (now : UInt64)
    (env : SendEnvironment) : List LockCall × Outcome Bool :=
  if m.size = 0 then ([], .assertionFailed)
  else if env.shmOpenFails ∨ env.fstatFails ∨ env.mmapFails then ([], .returned false env.shm)
  else if env.lockErr ≠ 0 ∧ env.lockErr ≠ eOwnerDead then
    ([.mutexLock env.lockErr], .returned false env.shm)
  else
    let stamped := stampMessage env.shm.mostRecentMsgNr localIdentifier now m
    let shm := { env.shm with mostRecentMsgNr := stamped.1 }
    let loop := sendLoop blocking stamped.2 env.broadcastErr shm env.wakeups
    match loop.2 with
    | .returned ok left =>
      (lockCalls env.lockErr env.consistentErr ++ (loop.1 ++ [.mutexUnlock env.unlockErr]),
        .returned (env.unlockErr = 0 && ok) left)
    | stopped => (lockCalls env.lockErr env.consistentErr ++ loop.1, stopped)

/-! ### Every way out -/

section Discipline

variable {α : Type} {held : Bool} {calls : List LockCall} {outcome : Outcome α}

/-- A call that keeps the mutex. -/
theorem releasesFrom_cons {call : LockCall} (hkeeps : call.effect held = some held) :
    ReleasesFrom held (call :: calls, outcome) ↔ ReleasesFrom held (calls, outcome) := by
  simp only [ReleasesFrom, heldAfter_cons, hkeeps, Option.bind_some]

/-- Behind the calls that take the mutex it is held. -/
theorem heldAfter_lockCalls {lockErr : ℕ} (hlock : ¬ (lockErr ≠ 0 ∧ lockErr ≠ eOwnerDead))
    (consistentErr : ℕ) : heldAfter false (lockCalls lockErr consistentErr) = some true := by
  have htaken : lockErr = 0 ∨ lockErr = eOwnerDead := by
    by_cases hzero : lockErr = 0
    · exact Or.inl hzero
    · exact Or.inr (not_not.mp fun hdead ↦ hlock ⟨hzero, hdead⟩)
  rw [lockCalls]
  split_ifs with hdead
  · simp [LockCall.effect, hdead]
  · simp [LockCall.effect, htaken]

/-- A function that takes the mutex first. -/
theorem releases_lockCalls_append {lockErr : ℕ}
    (hlock : ¬ (lockErr ≠ 0 ∧ lockErr ≠ eOwnerDead)) (consistentErr : ℕ) :
    Releases (lockCalls lockErr consistentErr ++ calls, outcome) ↔
      ReleasesFrom true (calls, outcome) := by
  simp only [Releases, ReleasesFrom, heldAfter_append, heldAfter_lockCalls hlock, Option.bind_some]

/-- A mutex that cannot be locked is not held. -/
theorem releases_of_lock_failed {lockErr : ℕ} (hlock : lockErr ≠ 0 ∧ lockErr ≠ eOwnerDead) :
    Releases ([LockCall.mutexLock lockErr], outcome) :=
  ⟨false, by simp [LockCall.effect, hlock.1, hlock.2], fun _ _ _ ↦ rfl⟩

theorem releases_nil : Releases ([], outcome) := ⟨false, rfl, fun _ _ _ ↦ rfl⟩

/-- A return without an unlock. -/
theorem not_releasesFrom_of_held (value : α) (shm : SharedMemory)
    (hheld : heldAfter held calls = some true) :
    ¬ ReleasesFrom held (calls, .returned value shm) := by
  rintro ⟨after, hafter, hreturned⟩
  have hfalse := hreturned value shm rfl
  rw [hfalse, hheld] at hafter
  exact absurd hafter (by simp)

/-- An unlock at the end. -/
theorem releasesFrom_unlock (calls : List LockCall) (outcome : Outcome α)
    (hheld : heldAfter held calls = some true) :
    ReleasesFrom held (calls ++ [.mutexUnlock 0], outcome) := by
  refine ⟨false, ?_, fun _ _ _ ↦ rfl⟩
  rw [heldAfter_append, hheld]
  rfl

end Discipline

section Wait

variable {timeout : ℤ} {address : DataAddress} {filter : Filter} {shm : SharedMemory}
  {broadcastErr : ℕ}

/-- Without a wait nothing fails. -/
theorem not_failsInWait_nil : ¬ FailsInWait timeout address filter shm [] := by
  rintro ⟨before, wakeup, after, hwakeups, -⟩
  exact absurd hwakeups.symm (List.append_ne_nil_of_right_ne_nil _ (List.cons_ne_nil _ _))

theorem FailsInWait.notFound {wakeups : List Wakeup}
    (h : FailsInWait timeout address filter shm wakeups) :
    scan address shm filter 0 = .notFound := by
  obtain ⟨before, wakeup, after, -, hscans, -⟩ := h
  exact hscans shm List.mem_cons_self

/-- The first wait fails, or it succeeds and a later one fails. -/
theorem failsInWait_cons (wakeup : Wakeup) (rest : List Wakeup) :
    FailsInWait timeout address filter shm (wakeup :: rest) ↔
      scan address shm filter 0 = .notFound ∧
        ((wakeup.err ≠ 0 ∧ ¬ (0 ≤ timeout ∧ wakeup.err = eTimedOut)) ∨
          (wakeup.err = 0 ∧ FailsInWait timeout address filter wakeup.shm rest)) := by
  constructor
  · rintro ⟨before, failing, after, hwakeups, hscans, hearlier, hfailing⟩
    refine ⟨hscans shm List.mem_cons_self, ?_⟩
    cases before with
    | nil =>
      obtain ⟨rfl, -⟩ := List.cons.inj hwakeups
      exact Or.inl hfailing
    | cons first before =>
      obtain ⟨rfl, rfl⟩ := List.cons.inj hwakeups
      refine Or.inr ⟨hearlier wakeup List.mem_cons_self, before, failing, after, rfl, ?_, ?_,
        hfailing⟩
      · exact fun seen hseen ↦ hscans seen (List.mem_cons_of_mem _ hseen)
      · exact fun earlier hmem ↦ hearlier earlier (List.mem_cons_of_mem _ hmem)
  · rintro ⟨hscan, hfailing | ⟨hsuccess, before, failing, after, rfl, hscans, hearlier, hfailing⟩⟩
    · exact ⟨[], wakeup, rest, rfl, by simpa using hscan, by simp, hfailing⟩
    · refine ⟨wakeup :: before, failing, after, rfl, ?_, ?_, hfailing⟩
      · exact List.forall_mem_cons.mpr ⟨hscan, hscans⟩
      · exact List.forall_mem_cons.mpr ⟨hsuccess, hearlier⟩

/-- The loop releases the mutex exactly when no wait that it gets to fails. -/
theorem waitLoop_releases_iff (wakeups : List Wakeup) :
    ReleasesFrom true (waitLoop timeout address filter broadcastErr 0 shm wakeups) ↔
      ¬ FailsInWait timeout address filter shm wakeups := by
  induction wakeups generalizing shm with
  | nil =>
    refine iff_of_true ?_ not_failsInWait_nil
    rw [waitLoop]
    cases scan address shm filter 0 with
    | found cur totalLength => exact releasesFrom_unlock [.condBroadcast _] _ rfl
    | assertionFailed => exact ⟨true, rfl, by simp⟩
    | notFound => exact ⟨true, rfl, by simp⟩
  | cons wakeup rest ih =>
    rw [waitLoop]
    cases hscan : scan address shm filter 0 with
    | found cur totalLength =>
      exact iff_of_true (releasesFrom_unlock [.condBroadcast _] _ rfl)
        fun hfails ↦ absurd (hscan.symm.trans hfails.notFound) (by simp)
    | assertionFailed =>
      exact iff_of_true ⟨true, rfl, by simp⟩
        fun hfails ↦ absurd (hscan.symm.trans hfails.notFound) (by simp)
    | notFound =>
      rw [failsInWait_cons, and_iff_right hscan]
      by_cases htimed : 0 ≤ timeout
      · simp only [htimed, if_true, true_and]
        split_ifs with hfailed hother
        · refine iff_of_false (not_releasesFrom_of_held _ _ rfl) ?_
          exact fun h ↦ h (Or.inl ⟨hfailed, hother⟩)
        · refine iff_of_true (releasesFrom_unlock [.condTimedwait _] _ rfl) ?_
          rintro (⟨-, htimedOut⟩ | ⟨hsuccess, -⟩)
          · exact hother htimedOut
          · exact hfailed hsuccess
        · rw [releasesFrom_cons rfl, ih]
          simp [not_not.mp hfailed]
      · simp only [htimed, if_false, false_and, not_false_eq_true, and_true]
        split_ifs with hfailed
        · refine iff_of_false (not_releasesFrom_of_held _ _ rfl) ?_
          exact fun h ↦ h (Or.inl hfailed)
        · rw [releasesFrom_cons rfl, ih]
          simp [not_not.mp hfailed]

/-- What the loop returns is what the critical section of `wait_for_message` takes out of one of the
segments that it finds. -/
theorem waitLoop_received (waiting : List Message) {unlockErr : ℕ} {wakeups : List Wakeup}
    {copy : List UInt8} {left : SharedMemory}
    (h : (waitLoop timeout address filter broadcastErr unlockErr shm wakeups).2 =
      .returned (some copy) left) :
    ∃ seen ∈ shm :: wakeups.map Wakeup.shm,
      waitForMessage ⟨seen, waiting⟩ address filter = (⟨left, waiting⟩, [.received copy]) := by
  induction wakeups generalizing shm with
  | nil =>
    rw [waitLoop] at h
    cases hscan : scan address shm filter 0 with
    | found cur totalLength =>
      simp only [hscan, Outcome.returned.injEq, Option.some.injEq] at h
      refine ⟨shm, List.mem_cons_self, ?_⟩
      simp only [waitForMessage, hscan, h.1, h.2]
    | assertionFailed => simp [hscan] at h
    | notFound => simp [hscan] at h
  | cons wakeup rest ih =>
    rw [waitLoop] at h
    cases hscan : scan address shm filter 0 with
    | found cur totalLength =>
      simp only [hscan, Outcome.returned.injEq, Option.some.injEq] at h
      refine ⟨shm, List.mem_cons_self, ?_⟩
      simp only [waitForMessage, hscan, h.1, h.2]
    | assertionFailed => simp [hscan] at h
    | notFound =>
      simp only [hscan] at h
      -- a way out of the loop behind a wait has no message
      have hnext : (waitLoop timeout address filter broadcastErr unlockErr wakeup.shm rest).2 =
          .returned (some copy) left := by
        split_ifs at h
        · simp at h
        · simp at h
        · exact h
        · simp at h
        · exact h
      obtain ⟨seen, hmem, hreceived⟩ := ih hnext
      exact ⟨seen, List.mem_cons_of_mem _ hmem, hreceived⟩

/-- `wait_for_message` releases the mutex exactly when it does not get to a wait that fails. -/
theorem releases_waitForMessageCalls_iff (env : WaitEnvironment) (hunlock : env.unlockErr = 0) :
    Releases (waitForMessageCalls timeout address filter env) ↔
      ¬ ((0 ≤ timeout → env.gettimeofdayFails = false) ∧
        (env.lockErr = 0 ∨ env.lockErr = eOwnerDead) ∧
        FailsInWait timeout address filter env.shm env.wakeups) := by
  rw [waitForMessageCalls, hunlock]
  split_ifs with hclock hlock
  · refine iff_of_true releases_nil ?_
    rintro ⟨hworks, -⟩
    exact absurd (hworks hclock.1) (by simp [hclock.2])
  · refine iff_of_true (releases_of_lock_failed hlock) ?_
    rintro ⟨-, hzero | hdead, -⟩
    · exact hlock.1 hzero
    · exact hlock.2 hdead
  · have hworks : 0 ≤ timeout → env.gettimeofdayFails = false := by
      intro htimed
      simpa [htimed] using hclock
    have htaken : env.lockErr = 0 ∨ env.lockErr = eOwnerDead := by
      by_contra hnot
      exact hlock (not_or.mp hnot)
    rw [releases_lockCalls_append hlock, waitLoop_releases_iff, and_iff_right hworks,
      and_iff_right htaken]

end Wait

section Send

variable {blocking : Bool} {m : Message} {broadcastErr : ℕ}

/-- The loop of `send_message` keeps the mutex. -/
theorem heldAfter_sendLoop (shm : SharedMemory) (wakeups : List Wakeup) :
    heldAfter true (sendLoop blocking m broadcastErr shm wakeups).1 = some true := by
  induction wakeups generalizing shm with
  | nil =>
    unfold sendLoop
    split <;> rfl
  | cons wakeup rest ih =>
    unfold sendLoop
    split
    · rfl
    · rfl
    · dsimp only
      split_ifs with hfailed
      · rfl
      · exact ih wakeup.shm

/-- The loop reports success for a message that it has put behind one of the segments that it
finds. -/
theorem sendLoop_appended {shm left : SharedMemory} {wakeups : List Wakeup}
    (h : (sendLoop blocking m broadcastErr shm wakeups).2 = .returned true left) :
    ∃ seen ∈ shm :: wakeups.map Wakeup.shm, tryAppend seen m = some left := by
  induction wakeups generalizing shm with
  | nil =>
    unfold sendLoop at h
    split at h
    · rename_i next happend
      obtain ⟨-, rfl⟩ := by simpa using h
      exact ⟨shm, List.mem_cons_self, happend⟩
    · simp at h
    · simp at h
  | cons wakeup rest ih =>
    unfold sendLoop at h
    split at h
    · rename_i next happend
      obtain ⟨-, rfl⟩ := by simpa using h
      exact ⟨shm, List.mem_cons_self, happend⟩
    · simp at h
    · dsimp only at h
      split_ifs at h with hfailed
      · simp at h
      · obtain ⟨seen, hmem, happend⟩ := ih h
        exact ⟨seen, List.mem_cons_of_mem _ hmem, happend⟩

/-- `send_message` releases the mutex on every path. -/
theorem releases_sendMessageCalls (localIdentifier : Identifier) (m : Message) (blocking : Bool)
    (now : UInt64) (env : SendEnvironment) (hunlock : env.unlockErr = 0) :
    Releases (sendMessageCalls localIdentifier m blocking now env) := by
  unfold sendMessageCalls
  split_ifs with hsize hopen hlock
  · exact releases_nil
  · exact releases_nil
  · exact releases_of_lock_failed hlock
  · dsimp only
    split
    · rw [releases_lockCalls_append hlock, hunlock]
      exact releasesFrom_unlock _ _ (heldAfter_sendLoop _ _)
    · rename_i stopped hstopped
      rw [releases_lockCalls_append hlock]
      exact ⟨true, heldAfter_sendLoop _ _, fun value shm hreturned ↦
        absurd hreturned (hstopped value shm)⟩

end Send

/-! ### Both functions -/

/-- Both functions return with the mutex not held and never unlock it when it is not held, exactly
when `wait_for_message` does not get to a wait that fails for another reason than a timeout.
Assumes: `pthread_mutex_unlock` succeeds. -/
theorem mutex_released_iff (timeout : ℤ) (address : DataAddress) (filter : Filter)
    (waitEnv : WaitEnvironment) (hwait : waitEnv.unlockErr = 0) (localIdentifier : Identifier)
    (m : Message) (blocking : Bool) (now : UInt64) (sendEnv : SendEnvironment)
    (hsend : sendEnv.unlockErr = 0) :
    Releases (waitForMessageCalls timeout address filter waitEnv) ∧
        Releases (sendMessageCalls localIdentifier m blocking now sendEnv) ↔
      ¬ ((0 ≤ timeout → waitEnv.gettimeofdayFails = false) ∧
        (waitEnv.lockErr = 0 ∨ waitEnv.lockErr = eOwnerDead) ∧
        FailsInWait timeout address filter waitEnv.shm waitEnv.wakeups) := by
  rw [and_iff_left (releases_sendMessageCalls localIdentifier m blocking now sendEnv hsend)]
  exact releases_waitForMessageCalls_iff waitEnv hwait

/-- Nothing is found in an empty queue. -/
theorem scan_empty (address : DataAddress) {shm : SharedMemory} (hempty : shm.filled = 0)
    (filter : Filter) : scan address shm filter 0 = .notFound := by
  rw [scan, if_neg]
  rw [hempty]
  decide

/-- An empty queue of 100 bytes. -/
def sampleEmpty : SharedMemory := ⟨100, 0, 0, List.replicate 100 0⟩

/-- A caller that finds the empty queue and whose wait returns the given error number. -/
def sampleWait (err : ℕ) : WaitEnvironment := ⟨false, 0, 0, 0, 0, sampleEmpty, [⟨err, sampleEmpty⟩]⟩

/-- A sender that finds the empty queue. -/
def sampleSend : SendEnvironment := ⟨false, false, false, 0, 0, 0, 0, sampleEmpty, []⟩

theorem size_sampleData : ([1, 2, 3] : List UInt8).length < 2 ^ 32 := by decide

theorem length_sampleName : ([97] : List UInt8).length < maxIdLength := by decide

/-- A timeout, and a message that fits. -/
theorem mutex_released_timeout :
    Releases (waitForMessageCalls 100 ⟨0, rfl⟩ ⟨.msgAny, none⟩ (sampleWait eTimedOut)) ∧
      Releases (sendMessageCalls ⟨[97], length_sampleName⟩ (sampleMessage [1, 2, 3] size_sampleData)
        true 5 sampleSend) := by
  refine (mutex_released_iff _ _ _ _ rfl _ _ _ _ _ rfl).mpr ?_
  rintro ⟨-, -, hfails⟩
  obtain ⟨-, ⟨-, hother⟩ | ⟨hsuccess, -⟩⟩ := (failsInWait_cons _ _).mp hfails
  · exact hother ⟨by decide, rfl⟩
  · exact absurd hsuccess (by decide)

/-- A wait that finds that the owner of the mutex died: the caller keeps the mutex. -/
theorem owner_dead_keeps_mutex :
    ¬ Releases (waitForMessageCalls 100 ⟨0, rfl⟩ ⟨.msgAny, none⟩ (sampleWait eOwnerDead)) := by
  rw [releases_waitForMessageCalls_iff _ rfl, not_not]
  refine ⟨fun _ ↦ rfl, Or.inl rfl, (failsInWait_cons _ _).mpr ⟨scan_empty _ rfl _, Or.inl ?_⟩⟩
  decide

end MyIPNG.Shm
