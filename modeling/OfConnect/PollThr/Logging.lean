import OfConnect.Lib.CString

/-!
# The log line of a received packet

`CC_LOG_DEBUG` formats its message three times: `g_log` for itself, then `sprintf` into a buffer
of `LOG_MSG_SIZE` bytes, from which it is appended to the name of the domain in a second buffer
of that size. `process_tcpfd_pollin_func` logs every packet in this way before it looks at it,
with the bytes it has read taken for a string. Where that string ends is up to the peer.
-/

namespace OfConnect.PollThr.Logging

open OfConnect.Lib.CString

def logMsgSize : Nat := 400
def maxbuf : Nat := 4096
def ccLogDomain : String := "cc_onf_driver_lib"
def gLogLevelDebug : Nat := 128

/-- `CC_LOG_DEBUG`, with the contents of `lmsg`. `g_log` allocates what it needs. -/
def ccLogDebug (fmt : String) (args : List Arg) : Option (List UInt8) := do
  let _ ← format fmt.toList args
  let lmsgTemp ← sprintf logMsgSize fmt args
  let lmsg ← sprintf logMsgSize "%s %d:" [.str (lit ccLogDomain ++ [0]), .int gLogLevelDebug]
  strcat logMsgSize lmsg lmsgTemp

/-- The name of a poll thread, as it is passed to the callbacks. -/
structure ThreadName where
  bytes : List UInt8
  nonzero : 0 ∉ bytes

/-- What `tcp_read` has stored in `buf`. The bytes behind it are not initialised. -/
structure Received where
  bytes : List UInt8
  pos : 0 < bytes.length
  le : bytes.length ≤ maxbuf

/-- `CC_LOG_DEBUG("%s(%d)[%s]: Received a message %s", ...)` in `process_tcpfd_pollin_func`. The
call is on lines 156 and 157; whichever of them is `__LINE__`, it has three digits. -/
def logReceived (tname : ThreadName) (buf : Received) : Option (List UInt8) :=
  ccLogDebug "%s(%d)[%s]: Received a message %s"
    [.str (lit "process_tcpfd_pollin_func" ++ [0]), .int 156, .str (tname.bytes ++ [0]),
      .str buf.bytes]

/-- The prefix of a debug line. -/
theorem sprintf_domain :
    sprintf logMsgSize "%s %d:" [.str (lit ccLogDomain ++ [0]), .int gLogLevelDebug] =
      some (lit "cc_onf_driver_lib 128:") := by
  decide +kernel

/-- A line is in bounds if no argument is read past its bytes and the text leaves room for the
prefix and the terminator. -/
theorem ccLogDebug_isSome_iff (fmt : String) (args : List Arg) :
    (ccLogDebug fmt args).isSome ↔ ∃ s, format fmt.toList args = some s ∧ s.length ≤ 377 := by
  have hlen : (lit "cc_onf_driver_lib 128:").length = 22 := by decide
  unfold ccLogDebug
  rw [sprintf_domain]
  cases hs : format fmt.toList args with
  | none => simp
  | some s =>
    by_cases hfit : s.length + 1 ≤ logMsgSize
    · have hput : sprintf logMsgSize fmt args = some s := sprintf_eq_some.mpr ⟨hs, hfit⟩
      simp only [hput, Option.bind_eq_bind, Option.bind_some, strcat, store_isSome_iff,
        List.length_append, hlen, Option.some.injEq]
      unfold logMsgSize
      constructor
      · intro h
        exact ⟨s, rfl, by omega⟩
      · rintro ⟨_, rfl, h⟩
        omega
    · have hover : sprintf logMsgSize fmt args = none := by
        rw [sprintf, hs, Option.bind_some, store, if_neg hfit]
      simp only [hover, Option.bind_eq_bind, Option.bind_some, Option.bind_none]
      constructor
      · nofun
      · rintro ⟨r, hr, h⟩
        obtain rfl := Option.some.inj hr
        unfold logMsgSize at hfit
        omega

/-- The text of the line: 53 bytes of its own, the name of the thread and the string in `buf`. -/
theorem format_received (tname : ThreadName) (buf : Received) :
    format "%s(%d)[%s]: Received a message %s".toList
        [.str (lit "process_tcpfd_pollin_func" ++ [0]), .int 156, .str (tname.bytes ++ [0]),
          .str buf.bytes] =
      (readStr buf.bytes).map fun s =>
        lit "process_tcpfd_pollin_func(156)[" ++ tname.bytes ++ lit "]: Received a message " ++ s := by
  have htext : "%s(%d)[%s]: Received a message %s".toList =
      '%' :: 's' :: ("(".toList ++ '%' :: 'd' :: (")[".toList ++
        '%' :: 's' :: ("]: Received a message ".toList ++ ['%', 's']))) := by decide
  have hfunc : readStr (lit "process_tcpfd_pollin_func" ++ [0]) =
      some (lit "process_tcpfd_pollin_func") := readStr_terminated (by decide)
  have hline : decimal 156 = lit "156" := by decide
  have hlast : format ['%', 's'] [.str buf.bytes] = readStr buf.bytes := by
    simp [format]
  rw [htext, format_str hfunc, format_lit (by decide), format_int, format_lit (by decide),
    format_str (readStr_terminated tname.nonzero), format_lit (by decide), hlast, hline]
  simp only [Option.map_map]
  congr 1
  funext s
  simp [lit]

/-- Logging a received packet stays in bounds exactly if the packet has a zero byte and what is
before it, with the name of the thread, is at most 324 bytes long. -/
theorem received_logged_in_bounds_iff (tname : ThreadName) (buf : Received) :
    (logReceived tname buf).isSome ↔
      0 ∈ buf.bytes ∧ buf.bytes.idxOf 0 + tname.bytes.length ≤ 324 := by
  have hfunc : (lit "process_tcpfd_pollin_func(156)[").length = 31 := by decide
  have htext : (lit "]: Received a message ").length = 22 := by decide
  rw [logReceived, ccLogDebug_isSome_iff, format_received, readStr_eq]
  by_cases hzero : 0 ∈ buf.bytes
  · have hidx : buf.bytes.idxOf 0 < buf.bytes.length := List.idxOf_lt_length_of_mem hzero
    rw [if_pos hzero, Option.map_some]
    simp only [Option.some.injEq, exists_eq_left', List.length_append, List.length_take, hfunc,
      htext, hzero, true_and]
    omega
  · rw [if_neg hzero]
    simp [hzero]

/-- A packet without a zero byte is read past its end, and 325 letters with a terminator are too
many for `lmsg` whatever the thread is called. -/
theorem received_logged_out_of_bounds :
    logReceived ⟨lit "rwthr_1", by decide⟩ ⟨lit "hello", by decide, by decide⟩ = none ∧
      logReceived ⟨[], by decide⟩
        ⟨List.replicate 325 65 ++ [0], by decide +kernel, by decide +kernel⟩ = none := by
  decide +kernel

end OfConnect.PollThr.Logging
