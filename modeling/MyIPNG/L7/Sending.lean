import MyIPNG.Shm.Wrapping
import MyIPNG.Tcp.RunOut

/-!
# Writing to a session

`send_func` and `fin_func` of `utils/tcp-helpers.cpp`: the thread of a session sends the TCP server
a message with the id of the session, the flags and the data, and `run_out` of the TCP server reads
these back (`writeFor_givenMessage`).
-/

set_option autoImplicit false
set_option relaxedAutoImplicit false

namespace MyIPNG.L7

open Base Shm

/-- What the thread of a session gives to the TCP server: data with `send_func`, or its FIN with
`fin_func`. -/
inductive Given
  | data (bytes : List UInt8)
  | fin
deriving DecidableEq, Repr

/-- The data. -/
def Given.bytes : Given → List UInt8
  | data bytes => bytes
  | fin => []

/-- The flags in the message. -/
def Given.flags : Given → UInt32
  | data _ => 0
  | fin => Tcp.miTcpFin

/-- The message of `send_func`. -/
def sendFuncMessage (sessionId : UInt64) (bytes : List UInt8) : List UInt8 :=
  writeAll (List.replicate (12 + bytes.length) 0)
    [(0, leBytes 8 sessionId.toNat), (8, leBytes 4 0), (12, bytes)]

/-- `send_func`: the message and the result, which is an `int`. -/
def sendFunc (sendOk : Bool) (sessionId : UInt64) (bytes : List UInt8) : List UInt8 × ℤ :=
  (sendFuncMessage sessionId bytes, if sendOk then (bytes.length : ℤ).bmod (2 ^ 32) else -1)

/-- The message of `fin_func`. -/
def finFuncMessage (sessionId : UInt64) : List UInt8 :=
  writeAll (List.replicate 12 0)
    [(0, leBytes 8 sessionId.toNat), (8, leBytes 4 Tcp.miTcpFin.toNat)]

/-- The message with which something is given. -/
def givenMessage (sessionId : UInt64) : Given → List UInt8
  | .data bytes => sendFuncMessage sessionId bytes
  | .fin => finFuncMessage sessionId

/-- What `run_out` of the TCP server makes of a message for a session: the flags and the data. -/
def writeFor (sessionId : UInt64) (m : List UInt8) : Option (UInt32 × List UInt8) :=
  if 12 ≤ m.length ∧ Tcp.messageId m = sessionId then some (Tcp.messageFlags m, m.drop 12)
  else none

section Messages

variable (sessionId : UInt64)

/-- The layout of a message: eight bytes of session id, four bytes of flags, data. -/
theorem sendFuncMessage_eq (bytes : List UInt8) : sendFuncMessage sessionId bytes =
    leBytes 8 sessionId.toNat ++ (leBytes 4 0 ++ (bytes ++ [])) := by
  have hfits : ∀ write ∈ [(0, leBytes 8 sessionId.toNat), (8, leBytes 4 0), (12, bytes)],
      write.1 + write.2.length ≤ (List.replicate (12 + bytes.length) (0 : UInt8)).length := by
    simp only [List.forall_mem_cons, length_leBytes, List.length_replicate]
    refine ⟨by omega, by omega, by omega, ?_⟩
    exact fun write hmem ↦ absurd hmem List.not_mem_nil
  have hapart : [(0, leBytes 8 sessionId.toNat), (8, leBytes 4 0), (12, bytes)].Pairwise
      Apart := by
    simp [Apart, length_leBytes]
  have hholds := holds_writeAll _ _ hfits hapart
  have hlength := (length_writeAll _ _ hfits).trans List.length_replicate
  rw [← sendFuncMessage] at hholds hlength
  simp only [Holds, List.forall_mem_cons] at hholds
  obtain ⟨hid, hflags, hbytes, -⟩ := hholds
  rw [← List.drop_zero (l := sendFuncMessage sessionId bytes)]
  refine drop_eq_append hid (drop_eq_append ?_ (drop_eq_append ?_ ?_))
  · rwa [length_leBytes]
  · rwa [length_leBytes, length_leBytes]
  · apply List.drop_eq_nil_of_le
    rw [hlength, length_leBytes, length_leBytes]

@[inherit_doc sendFuncMessage_eq]
theorem finFuncMessage_eq : finFuncMessage sessionId =
    leBytes 8 sessionId.toNat ++ (leBytes 4 Tcp.miTcpFin.toNat ++ []) := by
  have hfits : ∀ write ∈ [(0, leBytes 8 sessionId.toNat), (8, leBytes 4 Tcp.miTcpFin.toNat)],
      write.1 + write.2.length ≤ (List.replicate 12 (0 : UInt8)).length := by
    simp [length_leBytes]
  have hapart : [(0, leBytes 8 sessionId.toNat), (8, leBytes 4 Tcp.miTcpFin.toNat)].Pairwise
      Apart := by
    simp [Apart, length_leBytes]
  have hholds := holds_writeAll _ _ hfits hapart
  have hlength := (length_writeAll _ _ hfits).trans List.length_replicate
  rw [← finFuncMessage] at hholds hlength
  simp only [Holds, List.forall_mem_cons] at hholds
  obtain ⟨hid, hflags, -⟩ := hholds
  rw [← List.drop_zero (l := finFuncMessage sessionId)]
  refine drop_eq_append hid (drop_eq_append ?_ ?_)
  · rwa [length_leBytes]
  · apply List.drop_eq_nil_of_le
    rw [hlength, length_leBytes, length_leBytes]

/-- `run_out` reads the fields of a message in this layout. -/
theorem writeFor_layout (flags : UInt32) (bytes : List UInt8) :
    writeFor sessionId (leBytes 8 sessionId.toNat ++ (leBytes 4 flags.toNat ++ (bytes ++ []))) =
      some (flags, bytes) := by
  generalize hm : leBytes 8 sessionId.toNat ++ (leBytes 4 flags.toNat ++ (bytes ++ [])) = m
  have hlength : 12 ≤ m.length := by
    rw [← hm, List.length_append, List.length_append, length_leBytes, length_leBytes]
    omega
  have hid : Tcp.messageId m = sessionId := by
    have hslice : slice m 0 8 = leBytes 8 sessionId.toNat := by
      rw [← hm, slice, List.drop_zero, List.take_left' (length_leBytes _ _)]
    rw [Tcp.messageId, hslice, leValue_leBytes 8 _ sessionId.toNat_lt, UInt64.ofNat_toNat]
  have hflags : Tcp.messageFlags m = flags := by
    have hslice : slice m 8 4 = leBytes 4 flags.toNat := by
      rw [← hm, slice, List.drop_left' (length_leBytes _ _), List.take_left' (length_leBytes _ _)]
    rw [Tcp.messageFlags, hslice, leValue_leBytes 4 _ flags.toNat_lt, UInt32.ofNat_toNat]
  have hbytes : m.drop 12 = bytes := by
    rw [← hm, ← List.append_assoc, List.append_nil]
    exact List.drop_left' (by rw [List.length_append, length_leBytes, length_leBytes])
  rw [writeFor, if_pos ⟨hlength, hid⟩, hflags, hbytes]

/-- What the thread of a session gives is what `run_out` adds to the session. -/
theorem writeFor_givenMessage (given : Given) :
    writeFor sessionId (givenMessage sessionId given) = some (given.flags, given.bytes) := by
  cases given with
  | data bytes =>
    rw [givenMessage, sendFuncMessage_eq]
    exact writeFor_layout sessionId 0 bytes
  | fin =>
    rw [givenMessage, finFuncMessage_eq]
    exact writeFor_layout sessionId Tcp.miTcpFin []

end Messages

end MyIPNG.L7
