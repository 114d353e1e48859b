import MyIPNG.Base.Potential
import MyIPNG.Tcp.Mss
import MyIPNG.Tcp.Replies

/-!
# Acknowledgements clock the sender

The server has no timer for segments that are lost. The sender goes on with a session when nothing
is in flight, and only a segment with the ACK flag ends that something is. So each segment with data
or a FIN is paid for by an acknowledgement that came, except for the first of a session that waits
for nothing (`sent_follows_acks`). What is in flight when the acknowledgements stay away is never
sent again.

The argument is a potential: a session that may send has one segment of credit, an acknowledgement
gives at most one, and a visit of the sender takes it.
-/

set_option autoImplicit false
set_option relaxedAutoImplicit false

namespace MyIPNG.Tcp

open Base

/-- The segment takes numbers of the sequence space. -/
def carries (out : OutSegment) : Bool := !out.payload.isEmpty || hasFlag out.flags flagFin

/-- The credit of a session: one segment, when nothing is in flight and no FIN was sent. -/
def credit (session : Session) : ℕ :=
  if session.inFlight = 0 ∧ session.finSent = false then 1 else 0

/-- The credit that the events of a history give. -/
def ackCredit (entry : SessionEvent × List Output) : ℕ :=
  match entry.1 with
  | .segment _ segment => if hasFlag segment.flags flagAck then 1 else 0
  | _ => 0

/-- The most bytes that a visit of the sender takes from the buffer. -/
def window (session : Session) : ℕ := min 65536 session.mss.value

/-- The sum of the weights of the segments that are among the outputs. -/
def weigh (weight : OutSegment → ℕ) (outputs : List Output) : ℕ :=
  ((emitted outputs).map weight).sum

theorem credit_le_one (session : Session) : credit session ≤ 1 := by
  unfold credit
  split_ifs
  · exact le_refl 1
  · exact Nat.zero_le 1

/-- The credit depends on the sending side only. -/
theorem SameSending.credit_eq {session next : Session} (h : SameSending session next) :
    credit next = credit session := by
  rw [credit, h.inFlight_eq, h.finSent_eq, credit]

/-- A segment that is no acknowledgement does not act on the sending side. -/
theorem afterAck_of_no_ack {segment : Segment} (h : hasFlag segment.flags flagAck = false)
    (session : Session) : (afterAck segment session).1 = session := by
  simp [afterAck, h]

section Step

variable {config : Config} {sessionId : UInt64} {session next : Session} {segment : Segment}

/-- An acknowledgement gives the credit of one segment. -/
theorem SendingStep.credit_le (h : SendingStep segment session next) :
    credit next ≤ credit session + if hasFlag segment.flags flagAck then 1 else 0 := by
  cases h with
  | acked hopen hplain hstate hsending =>
    rw [hsending.credit_eq]
    by_cases hack : hasFlag segment.flags flagAck = true
    · rw [if_pos hack]
      exact (credit_le_one _).trans (Nat.le_add_left 1 _)
    · rw [afterAck_of_no_ack (by simpa using hack)]
      exact Nat.le_add_right _ _
  | kept hopen hstate hsending =>
    rw [hsending.credit_eq]
    exact Nat.le_add_right _ _
  | forgot finned hsending hnext =>
    have hsame : credit next = credit finned := by rw [hnext]; rfl
    rw [hsame, hsending.credit_eq]
    exact Nat.le_add_right _ _

/-- A visit that sends takes the credit. -/
theorem credit_visited (session : Session) (h : Sends session) : credit (visited session) = 0 := by
  apply if_neg
  rintro ⟨hidle, hopen⟩
  have hempty : visitPayload session = [] := List.length_eq_zero_iff.mp hidle
  have hnotFin : visitFin session = false := hopen
  rcases h.2 with hdata | hfin
  · exact hdata hempty
  · exact absurd (hfin.symm.trans hnotFin) (by simp)

theorem credit_addFromL7 (session : Session) (flags : UInt32) (what : List UInt8) :
    credit (addFromL7 session flags what) = credit session := by
  unfold addFromL7
  dsimp only
  split_ifs <;> rfl

theorem window_addFromL7 (session : Session) (flags : UInt32) (what : List UInt8) :
    window (addFromL7 session flags what) = window session := by
  unfold addFromL7
  dsimp only
  split_ifs <;> rfl

theorem window_senderVisit (accepts : ℕ → Bool) (session : Session) :
    window (senderVisit accepts session).session = window session := by
  rw [senderVisit_eq]
  split_ifs <;> rfl

end Step

/-! ### Weights -/

/-- Replies that weigh nothing. -/
theorem weigh_replies {weight : OutSegment → ℕ} (hreply : ∀ out, IsReply out → weight out = 0)
    {outputs : List Output} (h : OnlyReplies outputs) : weigh weight outputs = 0 := by
  apply List.sum_eq_zero
  intro number hnumber
  obtain ⟨out, hout, rfl⟩ := List.mem_map.mp hnumber
  exact hreply out (h out hout)

/-- What the sender puts out in a visit. -/
theorem weigh_senderVisit {weight : OutSegment → ℕ} {limit : ℕ} {session : Session}
    (hsent : weight (senderHeader session (visitPayload session) (visitFin session)) ≤ limit)
    (accepts : ℕ → Bool) :
    weigh weight (senderVisit accepts session).outputs +
      limit * credit (senderVisit accepts session).session ≤ limit * credit session := by
  rw [senderVisit_eq]
  by_cases hsends : Sends session
  · have hcredit : credit session = 1 := if_pos hsends.1
    rw [if_pos hsends]
    by_cases hrefused : accepts 0 = false ∧ visitPayload session = []
    · rw [if_pos hrefused]
      exact (Nat.zero_add _).le
    · rw [if_neg hrefused, credit_visited session hsends, hcredit, Nat.mul_zero, Nat.mul_one]
      by_cases haccepted : accepts 0 = true
      · rw [if_pos haccepted]
        simpa [weigh] using hsent
      · rw [if_neg haccepted]
        exact Nat.zero_le limit
  · rw [if_neg hsends]
    exact (Nat.zero_add _).le

/-! ### Runs -/

/-- The credit of a session that is in the map. -/
def creditOf (state : Option Session) : ℕ := (state.map credit).getD 0

/-- The sessions of one window size. -/
def HasWindow (limit : ℕ) (state : Option Session) : Prop :=
  ∀ session, state = some session → window session = limit

section Run

variable (config : Config) (sessionId : UInt64)

/-- A step keeps the window. -/
theorem hasWindow_step {limit : ℕ} {state : Option Session} (h : HasWindow limit state)
    (event : SessionEvent) : HasWindow limit (sessionStep config sessionId state event).1 := by
  intro next hnext
  cases state with
  | none => exact absurd hnext (by simp [sessionStep])
  | some session =>
    have hsession := h session rfl
    cases event with
    | segment environment segment =>
      have hmss := (runInSession_sending config environment sessionId hnext).mss_eq
      rw [window, hmss]
      exact hsession
    | write flags what =>
      rw [← Option.some.inj hnext, window_addFromL7]
      exact hsession
    | visit accepts =>
      rw [← Option.some.inj hnext, window_senderVisit]
      exact hsession

/-- A step is paid for: by the acknowledgement that it brings, or by the credit that it takes. -/
theorem step_paid {weight : OutSegment → ℕ} {limit : ℕ}
    (hreply : ∀ out, IsReply out → weight out = 0) {state : Option Session}
    (hsent : ∀ session, state = some session →
      weight (senderHeader session (visitPayload session) (visitFin session)) ≤ limit)
    (event : SessionEvent) :
    weigh weight (sessionStep config sessionId state event).2 +
        limit * creditOf (sessionStep config sessionId state event).1 ≤
      limit * creditOf state +
        limit * ackCredit (event, (sessionStep config sessionId state event).2) := by
  cases state with
  | none => exact Nat.zero_le _
  | some session =>
    cases event with
    | segment environment segment =>
      show weigh weight (runInSession config environment sessionId segment session).outputs +
        limit * creditOf (runInSession config environment sessionId segment session).session ≤
          limit * credit session + limit * if hasFlag segment.flags flagAck then 1 else 0
      rw [weigh_replies hreply (reply_runInSession config environment sessionId segment session),
        Nat.zero_add, ← Nat.mul_add]
      apply Nat.mul_le_mul_left
      cases hnext : (runInSession config environment sessionId segment session).session with
      | none => exact Nat.zero_le _
      | some next => exact (runInSession_sending config environment sessionId hnext).credit_le
    | write flags what =>
      show 0 + limit * credit (addFromL7 session flags what) ≤ limit * credit session + limit * 0
      rw [credit_addFromL7, Nat.zero_add, Nat.mul_zero, Nat.add_zero]
    | visit accepts => exact weigh_senderVisit (hsent session rfl) accepts

theorem countP_eq_sum (segments : List OutSegment) :
    segments.countP carries = (segments.map fun out ↦ if carries out then 1 else 0).sum := by
  induction segments with
  | nil => rfl
  | cons out rest ih => rw [List.countP_cons, ih, List.map_cons, List.sum_cons, Nat.add_comm]

/-- The weights over a history are those of the segments that were put out. -/
theorem sum_weigh (weight : OutSegment → ℕ) (trace : Trace) :
    (trace.map fun entry ↦ weigh weight entry.2).sum = ((emittedIn trace).map weight).sum := by
  induction trace with
  | nil => rfl
  | cons entry rest ih =>
    have hsplit : emittedIn (entry :: rest) = emitted entry.2 ++ emittedIn rest :=
      List.flatMap_cons
    rw [List.map_cons, List.sum_cons, ih, hsplit, List.map_append, List.sum_append, weigh]

/-- The credit over a history is that of the acknowledgements that were received. -/
theorem sum_ackCredit (limit : ℕ) (trace : Trace) :
    (trace.map fun entry ↦ limit * ackCredit entry).sum =
      limit * (acksReceivedIn trace).length := by
  induction trace with
  | nil => rfl
  | cons entry rest ih =>
    rw [List.map_cons, List.sum_cons, ih, acksReceivedIn, acksReceivedIn, ← Nat.mul_add]
    congr 1
    obtain ⟨event, outputs⟩ := entry
    cases event with
    | segment environment segment =>
      by_cases hack : hasFlag segment.flags flagAck = true
      · simp only [ackCredit, hack, if_true, List.filterMap_cons, List.length_cons, Nat.add_comm]
      · simp [ackCredit, hack]
    | write flags what => simp [ackCredit]
    | visit accepts => simp [ackCredit]

/-- What is sent over a run is paid for. -/
theorem weight_le_credit {weight : OutSegment → ℕ} {session : Session} {limit : ℕ}
    (hreply : ∀ out, IsReply out → weight out = 0)
    (hsent : ∀ current, window current = window session →
      weight (senderHeader current (visitPayload current) (visitFin current)) ≤ limit)
    (events : List SessionEvent) :
    ((emittedIn (run (traced (sessionStep config sessionId)) (some session) events).2).map
        weight).sum ≤ limit * (credit session + (acksReceivedIn (run (traced (sessionStep config
          sessionId)) (some session) events).2).length) := by
  have hstart : HasWindow (window session) (some session) := by
    intro current hcurrent
    rw [← Option.some.inj hcurrent]
  have hpaid := cost_le_of_potential (fun state ↦ limit * creditOf state)
    (fun entry ↦ weigh weight entry.2) (fun entry ↦ limit * ackCredit entry)
    (fun _ event h ↦ hasWindow_step config sessionId h event)
    (fun _ event h ↦ step_paid config sessionId hreply
      (fun current hcurrent ↦ hsent current (h current hcurrent)) event) hstart events
  rw [sum_weigh, sum_ackCredit] at hpaid
  rw [Nat.mul_add]
  exact hpaid

end Run

/-- Acknowledgements clock the sender. Over every run of a session the segments with data or a FIN
are no more than the acknowledgements that were received, and one if nothing was in flight at the
start, and the bytes in them are no more than a window for each. -/
theorem sent_follows_acks (config : Config) (sessionId : UInt64) (session : Session)
    (events : List SessionEvent) :
    let trace := (run (traced (sessionStep config sessionId)) (some session) events).2
    (emittedIn trace).countP carries ≤ credit session + (acksReceivedIn trace).length ∧
      ((emittedIn trace).map fun out ↦ out.payload.length).sum ≤
        min 65536 session.mss.value * (credit session + (acksReceivedIn trace).length) := by
  intro trace
  constructor
  · have hcounted : ((emittedIn trace).map fun out ↦ if carries out then 1 else 0).sum ≤
        1 * (credit session + (acksReceivedIn trace).length) := by
      apply weight_le_credit config sessionId
      · intro out hreply
        exact if_neg (by simp [carries, hreply.1, hreply.2])
      · intro current _
        split_ifs
        · exact le_refl 1
        · exact Nat.zero_le 1
    rw [Nat.one_mul] at hcounted
    rwa [countP_eq_sum]
  · apply weight_le_credit config sessionId
    · intro out hreply
      rw [hreply.1]
      rfl
    · intro current hwindow
      have hshort : (visitPayload current).length ≤ window current := by
        simp [visitPayload, window]
      exact hshort.trans hwindow.le

end MyIPNG.Tcp
