import SimpleServer.Types

/-!
# The log line of one request

A `LogEntry` is a zeroed buffer and the offset of the next `log_append`. The
room left is computed in `size_t`, so it wraps once the offset has passed the
buffer's size, and the offset advances by the length of the whole text even
when `vsnprintf` cuts it.
-/

namespace SimpleServer

open CString

def logBufSize : ℕ := maxRequestSize + 128

structure LogEntry where
  buf : Bytes
  offset : ℕ
  deriving DecidableEq, Repr

/-- `LogEntry le = {0}`: the bytes behind the written ones are NUL. -/
def LogEntry.zero : LogEntry := ⟨[], 0⟩

def respValToStatusString : ClientResponse → Bytes
  | .resp200 => ascii "200"
  | .resp400 => ascii "400"
  | .resp403 => ascii "403"
  | .resp404 => ascii "404"
  | .resp414 => ascii "414"
  | .resp500 => ascii "500"
  | .resp501 => ascii "501"
  | .resp505 => ascii "505"
  | .numClientResp => ascii "000"

/-- `%d` of a `size_t`: the low 32 bits read as a signed `int`. -/
def decimalInt (n : ℕ) : Bytes :=
  let m := n % 2 ^ 32
  if m < 2 ^ 31 then decimal m else ascii "-" ++ decimal (2 ^ 32 - m)

def logAppend (le : LogEntry) (text : Bytes) : LogEntry :=
  let room := (logBufSize + 2 ^ 64 - le.offset) % 2 ^ 64
  { buf := (le.buf ++ List.replicate (le.offset - le.buf.length) 0).take le.offset ++
      text.take (room - 1)
    offset := le.offset + text.length }

def doLogging (le : LogEntry) : List Event := [.logLine (cstr le.buf)]

def Flags.logging (flags : Flags) : Bool := flags.v || flags.l

section Room

variable {le : LogEntry} {text : Bytes}

theorem logAppend_fits (hoff : le.offset = le.buf.length)
    (hroom : le.buf.length + text.length < logBufSize) :
    logAppend le text = ⟨le.buf ++ text, (le.buf ++ text).length⟩ := by
  have hb : logBufSize = 8320 := rfl
  have hr : (logBufSize + 2 ^ 64 - le.buf.length) % 2 ^ 64 = logBufSize - le.buf.length := by
    omega
  simp only [logAppend, hoff, hr, Nat.sub_self, List.replicate_zero, List.append_nil,
    List.take_length, List.length_append]
  rw [List.take_of_length_le (show text.length ≤ logBufSize - le.buf.length - 1 by omega)]

/-- The entry holds exactly this text, and the room behind it does not wrap. -/
structure LogEntry.Holds (le : LogEntry) (text : Bytes) : Prop where
  buf : le.buf = text
  offset : le.offset = text.length
  room : le.offset < logBufSize
  unwrapped : (logBufSize + 2 ^ 64 - le.offset) % 2 ^ 64 = logBufSize - le.offset

theorem LogEntry.zero_holds : LogEntry.zero.Holds [] := ⟨rfl, rfl, by decide, by decide⟩

theorem LogEntry.Holds.append {done : Bytes} (h : le.Holds done)
    (hroom : done.length + text.length < logBufSize) :
    (logAppend le text).Holds (done ++ text) := by
  have hb : logBufSize = 8320 := rfl
  have hoff : le.offset = le.buf.length := by rw [h.offset, h.buf]
  rw [← h.buf] at hroom ⊢
  rw [logAppend_fits hoff hroom]
  rw [← List.length_append] at hroom
  refine ⟨rfl, rfl, hroom, ?_⟩
  simp only
  omega

end Room

theorem decimal_noNul (n : ℕ) : 0 ∉ decimal n :=
  fun h => absurd (decimal_digit h).1 (by decide)

theorem respValToStatusString_noNul (r : ClientResponse) : 0 ∉ respValToStatusString r := by
  cases r <;> decide

theorem respValToStatusString_length (r : ClientResponse) :
    (respValToStatusString r).length = 3 := by
  cases r <;> rfl

end SimpleServer
