import Mathlib.Algebra.Group.Nat.Defs
import OfConnect.Lib.CString

/-!
# The name of the log file

`create_logfile` builds the name of the log file from `$HOME` and a time stamp, with `sprintf`
into three blocks of fixed size, and `cc_of_log_clear` puts it into the command it passes to a
shell. The sizes go together but for one: the block for the time stamp is too small for any.
-/

namespace OfConnect.Log.Names

open OfConnect.Lib.CString

def logFileNameSize : Nat := 160

/-- What `localtime` returns, as far as it is used. -/
structure Tm where
  tmYear : Nat
  tmMon : Fin 12
  tmMday : Fin 32
  tmHour : Fin 24
  tmMin : Fin 60
  tmSec : Fin 61

/-- `getenv("HOME")`. -/
structure Home where
  bytes : List UInt8
  nonzero : 0 ∉ bytes

/-- What `%0wd` writes. -/
def padded (w n : Nat) : List UInt8 := List.replicate (w - (decimal n).length) 48 ++ decimal n

/-- The text of `"%04d-%02d-%02d-%02d%02d%02d"`. The month counts from zero. -/
def timeStamp (tm : Tm) : List UInt8 :=
  padded 4 (tm.tmYear + 1900) ++ lit "-" ++ padded 2 tm.tmMon ++ lit "-" ++ padded 2 tm.tmMday ++
    lit "-" ++ padded 2 tm.tmHour ++ padded 2 tm.tmMin ++ padded 2 tm.tmSec

/-- `get_time_stamp` with a block of this size. -/
def getTimeStamp (size : Nat) (tm : Tm) : Option (List UInt8) := store size (timeStamp tm)

/-- `create_logfile`, as far as it writes names, with a block of this size for the time stamp. -/
def createLogfileWith (size : Nat) (home : Home) (tm : Tm) : Option (List UInt8) := do
  let logdir ← sprintf 144 "%s/.OFconnect" [.str (home.bytes ++ [0])]
  let tstamp ← getTimeStamp size tm
  sprintf logFileNameSize "%s/log-%s" [.str (logdir ++ [0]), .str (tstamp ++ [0])]

def createLogfile (home : Home) (tm : Tm) : Option (List UInt8) := createLogfileWith 16 home tm

/-- The command of `cc_of_log_clear`. -/
def clearlog (oflogFile : List UInt8) : Option (List UInt8) :=
  sprintf 176 "cat /dev/null > %s" [.str (oflogFile ++ [0])]

/-! ## Lengths -/

theorem length_padded {w n : Nat} (hw : 0 < w) (hn : n < 10 ^ w) : (padded w n).length = w := by
  have hlen : (decimal n).length ≤ w := by
    unfold decimal
    rw [List.length_map]
    exact (Nat.length_toDigits_le_iff (by decide) hw).mpr hn
  unfold padded
  rw [List.length_append, List.length_replicate]
  omega

theorem le_length_padded (w n : Nat) : w ≤ (padded w n).length := by
  unfold padded
  rw [List.length_append, List.length_replicate]
  omega

theorem length_timeStamp (tm : Tm) :
    (timeStamp tm).length = (padded 4 (tm.tmYear + 1900)).length + 13 := by
  have hmon := length_padded (w := 2) (by decide) (show (tm.tmMon : Nat) < 10 ^ 2 by omega)
  have hmday := length_padded (w := 2) (by decide) (show (tm.tmMday : Nat) < 10 ^ 2 by omega)
  have hhour := length_padded (w := 2) (by decide) (show (tm.tmHour : Nat) < 10 ^ 2 by omega)
  have hmin := length_padded (w := 2) (by decide) (show (tm.tmMin : Nat) < 10 ^ 2 by omega)
  have hsec := length_padded (w := 2) (by decide) (show (tm.tmSec : Nat) < 10 ^ 2 by omega)
  have hdash : (lit "-").length = 1 := by decide
  simp only [timeStamp, List.length_append, hmon, hmday, hhour, hmin, hsec, hdash]

/-- No time stamp has less than 17 bytes. -/
theorem le_length_timeStamp (tm : Tm) : 17 ≤ (timeStamp tm).length := by
  rw [length_timeStamp]
  have hyear := le_length_padded 4 (tm.tmYear + 1900)
  omega

/-! ## Texts without zero bytes -/

theorem zero_not_mem_decimal (n : Nat) : 0 ∉ decimal n := by
  intro h
  obtain ⟨c, hc, hzero⟩ := List.mem_map.mp h
  have hdigit := Nat.isDigit_of_mem_toDigits (by decide) (by decide) hc
  simp only [Char.isDigit, Bool.and_eq_true, decide_eq_true_eq] at hdigit
  have hlow : 48 ≤ c.toNat := hdigit.1
  have hhigh : c.toNat ≤ 57 := hdigit.2
  have hval := congrArg UInt8.toNat hzero
  rw [show (c.toNat.toUInt8).toNat = c.toNat % 2 ^ 8 from rfl] at hval
  have hz : (0 : UInt8).toNat = 0 := rfl
  omega

theorem zero_not_mem_padded (w n : Nat) : 0 ∉ padded w n := by
  unfold padded
  rw [List.mem_append, not_or]
  refine ⟨fun h => ?_, zero_not_mem_decimal n⟩
  exact absurd (List.eq_of_mem_replicate h) (by decide)

theorem zero_not_mem_timeStamp (tm : Tm) : 0 ∉ timeStamp tm := by
  have hdash : (0 : UInt8) ∉ lit "-" := by decide
  simp only [timeStamp, List.mem_append, zero_not_mem_padded, hdash, or_self, not_false_eq_true]

theorem format_logdir {home : List UInt8} (h : 0 ∉ home) :
    format "%s/.OFconnect".toList [.str (home ++ [0])] = some (home ++ lit "/.OFconnect") := by
  have htext : "%s/.OFconnect".toList = '%' :: 's' :: ("/.OFconnect".toList ++ []) := by decide
  rw [htext, format_str (readStr_terminated h), format_lit (by decide)]
  simp [format, lit]

theorem format_logfile {logdir tstamp : List UInt8} (hd : 0 ∉ logdir) (ht : 0 ∉ tstamp) :
    format "%s/log-%s".toList [.str (logdir ++ [0]), .str (tstamp ++ [0])] =
      some (logdir ++ (lit "/log-" ++ tstamp)) := by
  have htext : "%s/log-%s".toList = '%' :: 's' :: ("/log-".toList ++ '%' :: 's' :: []) := by decide
  rw [htext, format_str (readStr_terminated hd), format_lit (by decide),
    format_str (readStr_terminated ht)]
  simp [format, lit]

theorem format_clearlog {file : List UInt8} (h : 0 ∉ file) :
    format "cat /dev/null > %s".toList [.str (file ++ [0])] =
      some (lit "cat /dev/null > " ++ file) := by
  have htext : "cat /dev/null > %s".toList = "cat /dev/null > ".toList ++ '%' :: 's' :: [] := by
    decide
  rw [htext, format_lit (by decide), format_str (readStr_terminated h)]
  simp [format, lit]

/-! ## Which names fit -/

/-- The name that `create_logfile` stores. -/
def logName (home : Home) (tm : Tm) : List UInt8 :=
  home.bytes ++ lit "/.OFconnect" ++ (lit "/log-" ++ timeStamp tm)

theorem length_logName (home : Home) (tm : Tm) :
    (logName home tm).length = home.bytes.length + (timeStamp tm).length + 16 := by
  have hdir : (lit "/.OFconnect").length = 11 := by decide
  have hlog : (lit "/log-").length = 5 := by decide
  simp only [logName, List.length_append, hdir, hlog]
  omega

theorem zero_not_mem_logdir (home : Home) : 0 ∉ home.bytes ++ lit "/.OFconnect" := by
  have hdir : (0 : UInt8) ∉ lit "/.OFconnect" := by decide
  simp only [List.mem_append, home.nonzero, hdir, or_self, not_false_eq_true]

theorem zero_not_mem_logName (home : Home) (tm : Tm) : 0 ∉ logName home tm := by
  have hlog : (0 : UInt8) ∉ lit "/log-" := by decide
  unfold logName
  rw [List.mem_append, not_or]
  refine ⟨zero_not_mem_logdir home, ?_⟩
  simp only [List.mem_append, hlog, zero_not_mem_timeStamp, or_self, not_false_eq_true]

/-- A name is stored exactly if the time stamp fits into its block, and the whole into its own:
the block for the directory is then large enough. -/
theorem createLogfileWith_eq_some_iff {size : Nat} {home : Home} {tm : Tm} {name : List UInt8} :
    createLogfileWith size home tm = some name ↔
      (timeStamp tm).length < size ∧ home.bytes.length + (timeStamp tm).length ≤ 143 ∧
        name = logName home tm := by
  have hstamp := le_length_timeStamp tm
  have hlen := length_logName home tm
  have hdir : (lit "/.OFconnect").length = 11 := by decide
  unfold createLogfileWith getTimeStamp store
  simp only [Option.bind_eq_bind, Option.bind_eq_some_iff, sprintf_eq_some,
    format_logdir home.nonzero, Option.some.injEq, Option.ite_none_right_eq_some]
  constructor
  · rintro ⟨logdir, ⟨rfl, -⟩, tstamp, ⟨hfit, rfl⟩, hname, hsize⟩
    rw [format_logfile (zero_not_mem_logdir home) (zero_not_mem_timeStamp tm)] at hname
    obtain rfl := Option.some.inj hname
    have hlen' : (logName home tm).length + 1 ≤ logFileNameSize := hsize
    unfold logFileNameSize at hlen'
    exact ⟨hfit, by omega, rfl⟩
  · rintro ⟨hfit, hle, rfl⟩
    refine ⟨_, ⟨rfl, ?_⟩, _, ⟨hfit, rfl⟩, ?_, ?_⟩
    · rw [List.length_append, hdir]
      omega
    · exact format_logfile (zero_not_mem_logdir home) (zero_not_mem_timeStamp tm)
    · unfold logFileNameSize
      omega

/-- The time stamp overruns its block of 16 bytes whatever the time is. In a block that holds it
the name is stored exactly if `$HOME` has at most `143` bytes less the time stamp's, and whatever
name is stored then also fits into the command that clears the file. -/
theorem log_names_fit (home : Home) (tm : Tm) :
    createLogfile home tm = none ∧
      ∀ size, (timeStamp tm).length < size →
        ((createLogfileWith size home tm).isSome ↔
          home.bytes.length + (timeStamp tm).length ≤ 143) ∧
        ∀ name, createLogfileWith size home tm = some name → (clearlog name).isSome := by
  have hstamp := le_length_timeStamp tm
  refine ⟨?_, fun size hsize => ⟨?_, fun name hname => ?_⟩⟩
  · apply Option.eq_none_iff_forall_ne_some.mpr
    intro name hname
    obtain ⟨hfit, -⟩ := createLogfileWith_eq_some_iff.mp hname
    omega
  · rw [Option.isSome_iff_exists]
    constructor
    · intro hsome
      obtain ⟨name, hname⟩ := hsome
      exact (createLogfileWith_eq_some_iff.mp hname).2.1
    · intro hle
      exact ⟨_, createLogfileWith_eq_some_iff.mpr ⟨hsize, hle, rfl⟩⟩
  · obtain ⟨-, hle, rfl⟩ := createLogfileWith_eq_some_iff.mp hname
    have hlen := length_logName home tm
    have hcat : (lit "cat /dev/null > ").length = 16 := by decide
    unfold clearlog sprintf
    rw [format_clearlog (zero_not_mem_logName home tm), Option.bind_some, store_isSome_iff,
      List.length_append, hcat]
    omega

end OfConnect.Log.Names
