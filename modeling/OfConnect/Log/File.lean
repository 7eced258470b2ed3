import OfConnect.Lib.Run
import OfConnect.Lib.Streams

/-!
# The log file

`cc_of_log_toggle` opens a new file and closes it again, `write_logfile_lock` appends a line to
it, `cc_of_log_read` closes the stream, reads the file back and opens it again, and
`cc_of_log_clear` empties the file from a shell. All but the last one hold `oflog_lock`. What
`fprintf` was given reaches the file when the C library writes it out, at the latest in
`fclose`.

A run ends with the first step that is undefined: a stream that is `NULL` or was closed, a name
that was not stored or was freed, or a thread that locks `oflog_lock` while it holds it.
-/

namespace OfConnect.Log.File

open OfConnect.Lib.Run OfConnect.Lib.Streams

abbrev Path := String

/-- `oflog_fd`. -/
inductive LogFd where
  | null
  | append (s : Appender Path UInt8)
  | read
  | closed

/-- The block `oflog_file` points to. -/
inductive LogFile where
  | unset
  | name (path : Path)
  | freed
  deriving DecidableEq, Repr

inductive Fault where
  | nullStream
  | closedStream
  | badName
  | lockedTwice
  deriving DecidableEq, Repr

/-- A call of `cc_of_log_read` that returned contents, with what had been put into the file. -/
structure Contents where
  data : List UInt8
  keptBack : List UInt8
  since : List UInt8
  deriving DecidableEq, Repr

/-- The log part of `cc_of_global_t` and the files. `reader` is a thread that is in the middle of
`read_logfile`, with `oflog_lock`. The history and the contents that were read are for the
statements only. -/
structure Sys where
  oflogEnable : Bool
  oflogFd : LogFd
  oflogFile : LogFile
  files : Files Path UInt8
  reader : Bool
  fault : Option Fault
  history : History Path UInt8
  contents : List Contents

/-- `cc_of_lib_init`, over whatever files there are. -/
def start (files : Files Path UInt8) : Sys where
  oflogEnable := false
  oflogFd := .null
  oflogFile := .unset
  files := files
  reader := false
  fault := none
  history := ⟨fun _ => [], files⟩
  contents := []

def fclose (s : Sys) : Except Fault Sys :=
  match s.oflogFd with
  | .null => .error .nullStream
  | .closed => .error .closedStream
  | .append stream => .ok { s with files := stream.close s.files, oflogFd := .closed }
  | .read => .ok { s with oflogFd := .closed }

/-- `g_fopen` of the name in `oflog_file`, to append. -/
def reopen (s : Sys) (opened : Bool) : Except Fault Sys :=
  match s.oflogFile with
  | .name path => .ok { s with oflogFd := if opened then .append ⟨path, []⟩ else .null }
  | _ => .error .badName

/-- `create_logfile`: the name is stored whether or not the file can be opened. -/
def createLogfile (s : Sys) (path : Path) (opened : Bool) : Except Fault Sys :=
  match s.oflogFile with
  | .freed => .error .badName
  | _ => reopen { s with oflogFile := .name path } opened

def ccOfLogToggle (s : Sys) (loggingOn : Bool) (path : Path) (opened : Bool) : Except Fault Sys :=
  if s.oflogEnable = loggingOn then .ok s
  else (if loggingOn then createLogfile s path opened else fclose s) >>= fun t =>
    .ok { t with oflogEnable := loggingOn }

def writeLogfileLock (s : Sys) (msg : List UInt8) : Except Fault Sys :=
  if s.oflogEnable then
    match s.oflogFd with
    | .null => .error .nullStream
    | .closed => .error .closedStream
    | .read => .ok s
    | .append stream => .ok { s with
        oflogFd := .append (stream.put msg)
        history := s.history.put stream.name msg }
  else .ok s

/-- `cc_of_log_read` up to the `g_fopen` for reading. -/
def readStart (s : Sys) (opened : Bool) : Except Fault Sys :=
  if s.oflogEnable then do
    let t ← fclose s
    return { t with oflogFd := if opened then .read else .null, reader := true }
  else .ok s

/-- The rest of it. Where the contents cannot be read, `CC_LOG_ERROR` writes a line to the log,
which takes `oflog_lock`. -/
def readEnd (s : Sys) (found opened : Bool) : Except Fault Sys :=
  match s.oflogFile with
  | .name path =>
    if found then do
      let t ← fclose s
      let u ← reopen t opened
      return { u with
        reader := false
        contents := u.contents ++
          [⟨s.files path, s.history.keptBack path, s.history.since path⟩] }
    else .error .lockedTwice
  | _ => .error .badName

/-- The stream to append to, if there is one. -/
def Sys.stream (s : Sys) : Option (Appender Path UInt8) :=
  match s.oflogFd with
  | .append stream => some stream
  | _ => none

/-- `cc_of_log_clear`, by `cat /dev/null > oflog_file`. -/
def ccOfLogClear (s : Sys) : Except Fault Sys :=
  match s.oflogFile with
  | .name path => .ok { s with
      files := truncate path s.files
      history := s.history.truncate path (pending s.stream path) }
  | _ => .error .badName

/-- The end of `cc_of_lib_free`. -/
def libFree (s : Sys) : Except Fault Sys := do
  let t ← ccOfLogToggle s false "" false
  match t.oflogFile with
  | .freed => .error .badName
  | _ => return { t with oflogFile := .freed }

/-- The C library writes out a part of what the stream holds back. -/
def writeOut (s : Sys) (n : Nat) : Sys :=
  match s.oflogFd with
  | .append stream => { s with
      files := stream.writeOut n s.files
      oflogFd := .append { stream with buffer := stream.buffer.drop n } }
  | _ => s

/-- `opened` and `found` are what the system answers. -/
inductive Act where
  | toggle (loggingOn : Bool) (path : Path) (opened : Bool)
  | write (msg : List UInt8)
  | readStart (opened : Bool)
  | readEnd (found opened : Bool)
  | clear
  | libFree
  | writeOut (n : Nat)

/-- While a thread reads the file, the others wait for `oflog_lock`. -/
def Act.enabled (s : Sys) : Act → Bool
  | .readEnd _ _ => s.reader
  | .clear | .writeOut _ => true
  | _ => !s.reader

def perform (s : Sys) : Act → Except Fault Sys
  | .toggle loggingOn path opened => ccOfLogToggle s loggingOn path opened
  | .write msg => writeLogfileLock s msg
  | .readStart opened => readStart s opened
  | .readEnd found opened => readEnd s found opened
  | .clear => ccOfLogClear s
  | .libFree => libFree s
  | .writeOut n => .ok (writeOut s n)

def step (s : Sys) (a : Act) : Option Sys :=
  if s.fault = none ∧ a.enabled s then
    match perform s a with
    | .ok t => some t
    | .error fault => some { s with fault := some fault }
  else none

/-! ## Where the stream can be -/

/-- `oflog_enable`, whether a thread is reading, `oflog_file` and `oflog_fd`, as they go together.
A closed stream is left in `oflog_fd` only while logging is off. -/
inductive Shape : Bool → Bool → LogFile → LogFd → Prop where
  | offNull (file : LogFile) : Shape false false file .null
  | offClosed (file : LogFile) : Shape false false file .closed
  | onNull (path : Path) : Shape true false (.name path) .null
  | onAppend (path : Path) (buffer : List UInt8) :
      Shape true false (.name path) (.append ⟨path, buffer⟩)
  | readNull (path : Path) : Shape true true (.name path) .null
  | reading (path : Path) : Shape true true (.name path) .read

def Shaped (s : Sys) : Prop := Shape s.oflogEnable s.reader s.oflogFile s.oflogFd

theorem shaped_start (files : Files Path UInt8) : Shaped (start files) := .offNull .unset

theorem shape_reopened (path : Path) (opened : Bool) :
    Shape true false (.name path) (if opened then .append ⟨path, []⟩ else .null) := by
  cases opened with
  | false => exact .onNull path
  | true => exact .onAppend path []

theorem Shape.of_append {enable reader : Bool} {file : LogFile} {stream : Appender Path UInt8}
    (h : Shape enable reader file (.append stream)) :
    enable = true ∧ reader = false ∧ file = .name stream.name := by
  cases h
  exact ⟨rfl, rfl, rfl⟩

theorem Shape.named {reader : Bool} {file : LogFile} {fd : LogFd} (h : Shape true reader file fd) :
    ∃ path, file = .name path := by
  cases h with
  | onNull path => exact ⟨path, rfl⟩
  | onAppend path buffer => exact ⟨path, rfl⟩
  | readNull path => exact ⟨path, rfl⟩
  | reading path => exact ⟨path, rfl⟩

theorem Shape.of_reader {enable : Bool} {file : LogFile} {fd : LogFd}
    (h : Shape enable true file fd) : enable = true := by
  cases h with
  | readNull path => rfl
  | reading path => rfl

/-- While logging is off nothing depends on the name. -/
theorem Shape.of_off {reader : Bool} {file : LogFile} {fd : LogFd}
    (h : Shape false reader file fd) (file' : LogFile) : Shape false reader file' fd := by
  cases h with
  | offNull => exact .offNull file'
  | offClosed => exact .offClosed file'

/-- While logging is off, or a thread is reading, no stream is open to append. -/
theorem Shaped.no_stream {s : Sys} (h : Shaped s)
    (hidle : s.oflogEnable = false ∨ s.reader = true) : s.stream = none := by
  unfold Shaped at h
  unfold Sys.stream
  cases hfd : s.oflogFd with
  | append stream =>
    rw [hfd] at h
    obtain ⟨hon, hfree, -⟩ := h.of_append
    rw [hon, hfree] at hidle
    simp at hidle
  | null => rfl
  | read => rfl
  | closed => rfl

theorem bind_ok {x : Except Fault Sys} {f : Sys → Except Fault Sys} {t : Sys}
    (h : x >>= f = .ok t) : ∃ u, x = .ok u ∧ f u = .ok t := by
  cases x with
  | error fault => cases h
  | ok u => exact ⟨u, rfl, h⟩

theorem step_cases {s s' : Sys} {a : Act} (h : step s a = some s') :
    s.fault = none ∧ a.enabled s = true ∧
      (perform s a = .ok s' ∨ ∃ fault, perform s a = .error fault ∧
        s' = { s with fault := some fault }) := by
  unfold step at h
  split at h
  · rename_i hen
    refine ⟨hen.1, hen.2, ?_⟩
    split at h
    · rename_i t ht
      obtain rfl := Option.some.inj h
      exact .inl ht
    · rename_i fault hf
      exact .inr ⟨fault, hf, (Option.some.inj h).symm⟩
  · cases h

/-! ## Nothing is missing from the file -/

/-- The files hold what was put into them, and so did what was read. -/
structure Kept (s : Sys) : Prop where
  shaped : Shaped s
  holds : Holds s.history s.files s.stream
  contents : ∀ c ∈ s.contents, c.data = c.keptBack ++ c.since

theorem kept_start (files : Files Path UInt8) : Kept (start files) := by
  refine ⟨shaped_start files, fun name => ?_, nofun⟩
  simp [start, Sys.stream, pending]

theorem fclose_spec {s t : Sys} (h : fclose s = .ok t) (hh : Holds s.history s.files s.stream) :
    ∃ files, t = { s with files := files, oflogFd := .closed } ∧ Holds s.history files none := by
  unfold fclose at h
  unfold Sys.stream at hh
  split at h
  · cases h
  · cases h
  · rename_i stream hfd
    obtain rfl := Except.ok.inj h
    rw [hfd] at hh
    exact ⟨_, rfl, hh.close⟩
  · rename_i hfd
    obtain rfl := Except.ok.inj h
    rw [hfd] at hh
    exact ⟨_, rfl, hh⟩

/-- A stream that is opened has nothing to write. -/
theorem holds_reopened {h : History Path UInt8} {files : Files Path UInt8} (hh : Holds h files none)
    {s : Sys} {path : Path} {opened : Bool}
    (hfd : s.oflogFd = if opened then .append ⟨path, []⟩ else .null) : Holds h files s.stream := by
  unfold Sys.stream
  rw [hfd]
  cases opened with
  | false => exact hh
  | true => exact hh.open path

theorem reopen_spec {s t : Sys} {opened : Bool} (h : reopen s opened = .ok t) :
    ∃ path, s.oflogFile = .name path ∧
      t = { s with oflogFd := if opened then .append ⟨path, []⟩ else .null } := by
  unfold reopen at h
  split at h
  · rename_i path hfile
    exact ⟨path, hfile, (Except.ok.inj h).symm⟩
  · cases h

theorem createLogfile_spec {s t : Sys} {path : Path} {opened : Bool}
    (h : createLogfile s path opened = .ok t) :
    t = { s with
      oflogFile := .name path
      oflogFd := if opened then .append ⟨path, []⟩ else .null } := by
  unfold createLogfile at h
  split at h
  · cases h
  · obtain ⟨path', hfile, rfl⟩ := reopen_spec h
    obtain rfl := LogFile.name.inj hfile
    rfl

theorem kept_toggle {s t : Sys} {on : Bool} {path : Path} {opened : Bool} (hk : Kept s)
    (hrd : s.reader = false) (h : ccOfLogToggle s on path opened = .ok t) : Kept t := by
  unfold ccOfLogToggle at h
  split at h
  · obtain rfl := Except.ok.inj h
    exact hk
  · rename_i hne
    cases on with
    | true =>
      have hoff : s.oflogEnable = false := by simpa using hne
      obtain ⟨u, hu, h⟩ := bind_ok h
      obtain rfl := Except.ok.inj h
      obtain rfl := createLogfile_spec hu
      have hholds := hk.holds
      rw [hk.shaped.no_stream (.inl hoff)] at hholds
      refine ⟨?_, holds_reopened hholds rfl, hk.contents⟩
      show Shape true s.reader (.name path) _
      rw [hrd]
      exact shape_reopened path opened
    | false =>
      obtain ⟨u, hu, h⟩ := bind_ok h
      obtain rfl := Except.ok.inj h
      obtain ⟨files, rfl, hholds⟩ := fclose_spec hu hk.holds
      refine ⟨?_, hholds, hk.contents⟩
      show Shape false s.reader s.oflogFile .closed
      rw [hrd]
      exact .offClosed s.oflogFile

theorem kept_write {s t : Sys} {msg : List UInt8} (hk : Kept s)
    (h : writeLogfileLock s msg = .ok t) : Kept t := by
  unfold writeLogfileLock at h
  split at h
  · split at h
    · cases h
    · cases h
    · obtain rfl := Except.ok.inj h
      exact hk
    · rename_i stream hfd
      obtain rfl := Except.ok.inj h
      have hholds := hk.holds
      have hshape := hk.shaped
      unfold Sys.stream at hholds
      unfold Shaped at hshape
      rw [hfd] at hholds hshape
      obtain ⟨hon, hfree, hfile⟩ := hshape.of_append
      refine ⟨?_, hholds.put msg, hk.contents⟩
      show Shape s.oflogEnable s.reader s.oflogFile (.append (stream.put msg))
      rw [hon, hfree, hfile]
      exact .onAppend stream.name (stream.buffer ++ msg)
  · obtain rfl := Except.ok.inj h
    exact hk

theorem kept_readStart {s t : Sys} {opened : Bool} (hk : Kept s)
    (h : readStart s opened = .ok t) : Kept t := by
  unfold readStart at h
  split at h
  · rename_i hon
    obtain ⟨u, hu, h⟩ := bind_ok h
    obtain rfl := Except.ok.inj h
    have hshape := hk.shaped
    unfold Shaped at hshape
    rw [hon] at hshape
    obtain ⟨path, hfile⟩ := hshape.named
    obtain ⟨files, rfl, hholds⟩ := fclose_spec hu hk.holds
    refine ⟨?_, ?_, hk.contents⟩
    · show Shape s.oflogEnable true s.oflogFile (if opened then .read else .null)
      rw [hon, hfile]
      cases opened with
      | false => exact .readNull path
      | true => exact .reading path
    · cases opened with
      | false => exact hholds
      | true => exact hholds
  · obtain rfl := Except.ok.inj h
    exact hk

/-- What is read is in the file: the stream was closed before. -/
theorem kept_readEnd {s t : Sys} {found opened : Bool} (hk : Kept s) (hrd : s.reader = true)
    (h : readEnd s found opened = .ok t) : Kept t := by
  unfold readEnd at h
  split at h
  · rename_i path hfile
    split at h
    · obtain ⟨u, hu, h⟩ := bind_ok h
      obtain ⟨v, hv, h⟩ := bind_ok h
      obtain rfl := Except.ok.inj h
      obtain ⟨files, rfl, hholds⟩ := fclose_spec hu hk.holds
      obtain ⟨path', hfile', rfl⟩ := reopen_spec hv
      have hpath : path' = path := LogFile.name.inj (hfile'.symm.trans hfile)
      subst hpath
      have hread := hk.holds path'
      rw [hk.shaped.no_stream (.inr hrd)] at hread
      have hshape := hk.shaped
      unfold Shaped at hshape
      rw [hrd] at hshape
      have hon : s.oflogEnable = true := hshape.of_reader
      refine ⟨?_, holds_reopened hholds rfl, fun c hc => ?_⟩
      · show Shape s.oflogEnable false s.oflogFile _
        rw [hon, hfile]
        exact shape_reopened path' opened
      · rcases List.mem_append.mp hc with hc | hc
        · exact hk.contents c hc
        · rw [List.mem_singleton.mp hc]
          simpa only [pending, List.append_nil] using hread
    · cases h
  · cases h

theorem kept_clear {s t : Sys} (hk : Kept s) (h : ccOfLogClear s = .ok t) : Kept t := by
  unfold ccOfLogClear at h
  split at h
  · rename_i path hfile
    obtain rfl := Except.ok.inj h
    exact ⟨hk.shaped, hk.holds.truncate path, hk.contents⟩
  · cases h

theorem toggle_off {s t : Sys} {path : Path} {opened : Bool}
    (h : ccOfLogToggle s false path opened = .ok t) : t.oflogEnable = false := by
  unfold ccOfLogToggle at h
  split at h
  · rename_i hoff
    obtain rfl := Except.ok.inj h
    exact hoff
  · obtain ⟨u, -, h⟩ := bind_ok h
    obtain rfl := Except.ok.inj h
    rfl

theorem kept_libFree {s t : Sys} (hk : Kept s) (hrd : s.reader = false)
    (h : libFree s = .ok t) : Kept t := by
  obtain ⟨u, hu, h⟩ := bind_ok h
  split at h
  · cases h
  · obtain rfl := Except.ok.inj h
    have hku := kept_toggle hk hrd hu
    refine ⟨?_, hku.holds, hku.contents⟩
    have hshape := hku.shaped
    unfold Shaped at hshape
    rw [toggle_off hu] at hshape
    show Shape u.oflogEnable u.reader .freed u.oflogFd
    rw [toggle_off hu]
    exact hshape.of_off .freed

theorem kept_writeOut {s : Sys} (hk : Kept s) (n : Nat) : Kept (writeOut s n) := by
  unfold writeOut
  split
  · rename_i stream hfd
    have hholds := hk.holds
    have hshape := hk.shaped
    unfold Sys.stream at hholds
    unfold Shaped at hshape
    rw [hfd] at hholds hshape
    obtain ⟨hon, hfree, hfile⟩ := hshape.of_append
    refine ⟨?_, hholds.writeOut n, hk.contents⟩
    show Shape s.oflogEnable s.reader s.oflogFile (.append { stream with buffer := _ })
    rw [hon, hfree, hfile]
    exact .onAppend stream.name _
  · exact hk

theorem kept_step {s s' : Sys} {a : Act} (hk : Kept s) (hs : step s a = some s') : Kept s' := by
  obtain ⟨-, hen, hp | ⟨fault, -, rfl⟩⟩ := step_cases hs
  · cases a with
    | toggle on path opened => exact kept_toggle hk (by simpa [Act.enabled] using hen) hp
    | write msg => exact kept_write hk hp
    | readStart opened => exact kept_readStart hk hp
    | readEnd found opened => exact kept_readEnd hk (by simpa [Act.enabled] using hen) hp
    | clear => exact kept_clear hk hp
    | libFree => exact kept_libFree hk (by simpa [Act.enabled] using hen) hp
    | writeOut n =>
      obtain rfl := Except.ok.inj hp
      exact kept_writeOut hk n
  · exact ⟨hk.shaped, hk.holds, hk.contents⟩

/-- Whatever is written, read, cleared and switched on and off, in any order and with the C
library writing when it likes: what `cc_of_log_read` returns is what had not been written when
the file was last cleared, followed by everything that was logged since. -/
theorem reads_are_complete (files : Files Path UInt8) (acts : List Act) :
    Always step (fun s => ∀ c ∈ s.contents, c.data = c.keptBack ++ c.since) (start files) acts := by
  have hall : Always step Kept (start files) acts :=
    always_of_step (fun _ _ _ hk hs => kept_step hk hs) (kept_start files) acts
  exact hall.mono fun s hk => hk.contents

/-- The line that is still in the buffer comes back after the file was cleared. -/
example : (run step (start fun _ => []) [.toggle true "log" true, .write [97], .clear, .write [98],
    .readStart true, .readEnd true true]).map Sys.contents = some [⟨[97, 98], [97], [98]⟩] := by
  decide +kernel

/-! ## Which steps are defined -/

/-- `oflog_fd` is not the `NULL` that a failed `g_fopen` has left in it, where it is used. -/
def Streamed (s : Sys) : Prop := s.oflogEnable = true → s.oflogFd ≠ .null

/-- The system has opened the file when it was asked last, it can be read where it is to be read,
and `oflog_file` holds a name where one is needed. -/
def Served (s : Sys) : Act → Prop
  | .toggle true _ _ => s.oflogEnable = false → s.oflogFile ≠ .freed
  | .toggle false _ _ | .write _ | .readStart _ => Streamed s
  | .readEnd found _ => found = true ∧ s.oflogFd ≠ .null
  | .clear => ∃ path, s.oflogFile = .name path
  | .libFree => Streamed s ∧ s.oflogFile ≠ .freed
  | .writeOut _ => True

def Defined (x : Except Fault Sys) : Prop := ∃ t, x = .ok t

theorem defined_ok (s : Sys) : Defined (.ok s) := ⟨s, rfl⟩

theorem not_defined_error (fault : Fault) : ¬Defined (.error fault) := by
  rintro ⟨t, ht⟩
  cases ht

theorem defined_bind {x : Except Fault Sys} {f : Sys → Except Fault Sys} :
    Defined (x >>= f) ↔ ∃ u, x = .ok u ∧ Defined (f u) := by
  constructor
  · rintro ⟨t, ht⟩
    obtain ⟨u, hu, ht⟩ := bind_ok ht
    exact ⟨u, hu, t, ht⟩
  · rintro ⟨u, rfl, t, ht⟩
    exact ⟨t, ht⟩

theorem defined_bind_ok {x : Except Fault Sys} {f : Sys → Sys} :
    Defined (x >>= fun u => .ok (f u)) ↔ Defined x := by
  rw [defined_bind]
  constructor
  · rintro ⟨u, hu, -⟩
    exact ⟨u, hu⟩
  · rintro ⟨u, hu⟩
    exact ⟨u, hu, defined_ok (f u)⟩

/-- While logging is on no stream that was closed is left. -/
theorem Shape.not_closed {reader : Bool} {file : LogFile} {fd : LogFd}
    (h : Shape true reader file fd) : fd ≠ .closed := by
  rintro rfl
  cases h

theorem Shaped.not_closed {s : Sys} (h : Shaped s) (hon : s.oflogEnable = true) :
    s.oflogFd ≠ .closed := by
  unfold Shaped at h
  rw [hon] at h
  exact h.not_closed

theorem fclose_defined_iff {s : Sys} (h : s.oflogFd ≠ .closed) :
    Defined (fclose s) ↔ s.oflogFd ≠ .null := by
  unfold fclose
  cases hfd : s.oflogFd with
  | null => exact iff_of_false (not_defined_error _) (fun hne => hne rfl)
  | closed => exact absurd hfd h
  | append stream => exact iff_of_true (defined_ok _) nofun
  | read => exact iff_of_true (defined_ok _) nofun

theorem createLogfile_defined_iff {s : Sys} {path : Path} {opened : Bool} :
    Defined (createLogfile s path opened) ↔ s.oflogFile ≠ .freed := by
  unfold createLogfile
  cases hfile : s.oflogFile with
  | freed => exact iff_of_false (not_defined_error _) (fun hne => hne rfl)
  | unset => exact iff_of_true (defined_ok _) nofun
  | name path' => exact iff_of_true (defined_ok _) nofun

theorem toggle_defined_iff {s : Sys} {on : Bool} {path : Path} {opened : Bool} (h : Shaped s) :
    Defined (ccOfLogToggle s on path opened) ↔ Served s (.toggle on path opened) := by
  unfold ccOfLogToggle
  cases on with
  | true =>
    by_cases hon : s.oflogEnable = true
    · rw [if_pos hon]
      refine iff_of_true (defined_ok s) fun hoff => ?_
      rw [hon] at hoff
      cases hoff
    · rw [if_neg hon, if_pos rfl]
      apply defined_bind_ok.trans
      rw [createLogfile_defined_iff]
      have hoff : s.oflogEnable = false := by simpa using hon
      exact ⟨fun hne _ => hne, fun hne => hne hoff⟩
  | false =>
    by_cases hoff : s.oflogEnable = false
    · rw [if_pos hoff]
      refine iff_of_true (defined_ok s) fun hon => ?_
      rw [hoff] at hon
      cases hon
    · rw [if_neg hoff, if_neg Bool.false_ne_true]
      apply defined_bind_ok.trans
      have hon : s.oflogEnable = true := by simpa using hoff
      rw [fclose_defined_iff (h.not_closed hon)]
      exact ⟨fun hne _ => hne, fun hne => hne hon⟩

theorem write_defined_iff {s : Sys} {msg : List UInt8} (h : Shaped s) :
    Defined (writeLogfileLock s msg) ↔ Streamed s := by
  unfold writeLogfileLock Streamed
  split
  · rename_i hon
    have hclosed := h.not_closed hon
    cases hfd : s.oflogFd with
    | null => exact iff_of_false (not_defined_error _) (fun hne => hne hon rfl)
    | closed => exact absurd hfd hclosed
    | append stream => exact iff_of_true (defined_ok _) nofun
    | read => exact iff_of_true (defined_ok _) nofun
  · rename_i hoff
    exact iff_of_true (defined_ok s) fun hon => absurd hon hoff

theorem readStart_defined_iff {s : Sys} {opened : Bool} (h : Shaped s) :
    Defined (readStart s opened) ↔ Streamed s := by
  unfold readStart Streamed
  split
  · rename_i hon
    apply defined_bind_ok.trans
    rw [fclose_defined_iff (h.not_closed hon)]
    exact ⟨fun hne _ => hne, fun hne => hne hon⟩
  · rename_i hoff
    exact iff_of_true (defined_ok s) fun hon => absurd hon hoff

theorem fclose_frame {s t : Sys} (h : fclose s = .ok t) :
    ∃ files, t = { s with files := files, oflogFd := .closed } := by
  unfold fclose at h
  split at h
  · cases h
  · cases h
  · exact ⟨_, (Except.ok.inj h).symm⟩
  · exact ⟨_, (Except.ok.inj h).symm⟩

theorem readEnd_defined_iff {s : Sys} {found opened : Bool} (h : Shaped s)
    (hrd : s.reader = true) :
    Defined (readEnd s found opened) ↔ found = true ∧ s.oflogFd ≠ .null := by
  have hshape := h
  unfold Shaped at hshape
  rw [hrd] at hshape
  have hon := hshape.of_reader
  rw [hon] at hshape
  obtain ⟨path, hfile⟩ := hshape.named
  unfold readEnd
  rw [hfile]
  cases found with
  | false => exact iff_of_false (not_defined_error _) (by simp)
  | true =>
    simp only [if_true, true_and]
    rw [← fclose_defined_iff (h.not_closed hon), defined_bind]
    constructor
    · rintro ⟨u, hu, -⟩
      exact ⟨u, hu⟩
    · rintro ⟨u, hu⟩
      refine ⟨u, hu, defined_bind_ok.mpr ?_⟩
      obtain ⟨files, rfl⟩ := fclose_frame hu
      unfold reopen
      rw [hfile]
      exact defined_ok _

theorem toggle_off_file {s t : Sys} {path : Path} {opened : Bool}
    (h : ccOfLogToggle s false path opened = .ok t) : t.oflogFile = s.oflogFile := by
  unfold ccOfLogToggle at h
  split at h
  · obtain rfl := Except.ok.inj h
    rfl
  · obtain ⟨u, hu, h⟩ := bind_ok h
    obtain ⟨files, rfl⟩ := fclose_frame hu
    obtain rfl := Except.ok.inj h
    rfl

theorem libFree_defined_iff {s : Sys} (h : Shaped s) :
    Defined (libFree s) ↔ Streamed s ∧ s.oflogFile ≠ .freed := by
  have htoggle : Defined (ccOfLogToggle s false "" false) ↔ Streamed s := toggle_defined_iff h
  unfold libFree
  rw [defined_bind, ← htoggle]
  constructor
  · rintro ⟨u, hu, hdef⟩
    refine ⟨⟨u, hu⟩, fun hfreed => ?_⟩
    rw [toggle_off_file hu, hfreed] at hdef
    exact not_defined_error _ hdef
  · rintro ⟨⟨u, hu⟩, hne⟩
    refine ⟨u, hu, ?_⟩
    rw [toggle_off_file hu]
    cases hfile : s.oflogFile with
    | freed => exact absurd hfile hne
    | unset => exact defined_ok _
    | name path => exact defined_ok _

theorem perform_defined_iff {s : Sys} {a : Act} (h : Shaped s) (hen : a.enabled s = true) :
    Defined (perform s a) ↔ Served s a := by
  cases a with
  | toggle on path opened => exact toggle_defined_iff h
  | write msg => exact write_defined_iff h
  | readStart opened => exact readStart_defined_iff h
  | readEnd found opened => exact readEnd_defined_iff h (by simpa [Act.enabled] using hen)
  | clear =>
    unfold perform ccOfLogClear
    cases hfile : s.oflogFile with
    | name path => exact iff_of_true (defined_ok _) ⟨path, hfile⟩
    | unset =>
      refine iff_of_false (not_defined_error _) ?_
      rintro ⟨path, hpath⟩
      rw [hfile] at hpath
      cases hpath
    | freed =>
      refine iff_of_false (not_defined_error _) ?_
      rintro ⟨path, hpath⟩
      rw [hfile] at hpath
      cases hpath
  | libFree => exact libFree_defined_iff h
  | writeOut n => exact iff_of_true (defined_ok _) trivial

theorem toggle_fault {s t : Sys} {on : Bool} {path : Path} {opened : Bool}
    (h : ccOfLogToggle s on path opened = .ok t) : t.fault = s.fault := by
  unfold ccOfLogToggle at h
  split at h
  · obtain rfl := Except.ok.inj h
    rfl
  · obtain ⟨u, hu, h⟩ := bind_ok h
    obtain rfl := Except.ok.inj h
    cases on with
    | true =>
      obtain rfl := createLogfile_spec hu
      rfl
    | false =>
      obtain ⟨files, rfl⟩ := fclose_frame hu
      rfl

/-- A step that is defined reports no fault. -/
theorem perform_fault {s t : Sys} {a : Act} (h : perform s a = .ok t) : t.fault = s.fault := by
  cases a with
  | toggle on path opened => exact toggle_fault h
  | write msg =>
    simp only [perform, writeLogfileLock] at h
    split at h
    · split at h
      · cases h
      · cases h
      · obtain rfl := Except.ok.inj h
        rfl
      · obtain rfl := Except.ok.inj h
        rfl
    · obtain rfl := Except.ok.inj h
      rfl
  | readStart opened =>
    simp only [perform, readStart] at h
    split at h
    · obtain ⟨u, hu, h⟩ := bind_ok h
      obtain ⟨files, rfl⟩ := fclose_frame hu
      obtain rfl := Except.ok.inj h
      rfl
    · obtain rfl := Except.ok.inj h
      rfl
  | readEnd found opened =>
    simp only [perform, readEnd] at h
    split at h
    · split at h
      · obtain ⟨u, hu, h⟩ := bind_ok h
        obtain ⟨v, hv, h⟩ := bind_ok h
        obtain ⟨files, rfl⟩ := fclose_frame hu
        obtain ⟨path, -, rfl⟩ := reopen_spec hv
        obtain rfl := Except.ok.inj h
        rfl
      · cases h
    · cases h
  | clear =>
    simp only [perform, ccOfLogClear] at h
    split at h
    · obtain rfl := Except.ok.inj h
      rfl
    · cases h
  | libFree =>
    obtain ⟨u, hu, h⟩ := bind_ok h
    split at h
    · cases h
    · obtain rfl := Except.ok.inj h
      show u.fault = s.fault
      exact toggle_fault hu
  | writeOut n =>
    obtain rfl := Except.ok.inj h
    unfold writeOut
    split
    · rfl
    · rfl

theorem fault_step_iff {s s' : Sys} {a : Act} (h : Shaped s) (hs : step s a = some s') :
    s'.fault = none ↔ Served s a := by
  obtain ⟨hnone, hen, hp | ⟨fault, hp, rfl⟩⟩ := step_cases hs
  · rw [← perform_defined_iff h hen, perform_fault hp]
    exact iff_of_true hnone ⟨s', hp⟩
  · rw [← perform_defined_iff h hen, hp]
    exact iff_of_false nofun (not_defined_error fault)

/-- No step of a run is undefined exactly if each of them is served: the library uses no stream
that it has closed, and takes `oflog_lock` a second time only where the file cannot be read. -/
theorem defined_iff_served (files : Files Path UInt8) (acts : List Act) :
    Always step (fun s => s.fault = none) (start files) acts ↔
      Guarded step Served (start files) acts := by
  apply always_iff_guarded_of_invariant (Q := Kept)
  · intro s a t hk hs
    exact kept_step hk hs
  · intro s a t hk _ hs
    exact fault_step_iff hk.shaped hs
  · exact kept_start files
  · rfl

end OfConnect.Log.File
