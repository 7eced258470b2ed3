import OfConnect.Core.Effects
import OfConnect.PollThr.Framing

/-!
# Sending to a channel and destroying it

`cc_of_send_pkt` returns once its record is in the data pipe; `cc_of_destroy_channel`
returns once the thread has handled its `DELETE_FD`, which comes by the other pipe and is
handled first. A record that is still in the data pipe then names an fd the thread has
forgotten, and `pollthr_data_pipe_process_func` asserts that it knows it.

The locks are part of the step function: a call of either function is not made while a
destruction is under way. Between its two ends the threads go on, each through rounds of
`poll`, primary pipe, data pipe.
-/

namespace OfConnect.PollThr.Teardown

open OfConnect.Lib.Bytes OfConnect.Lib.Tables OfConnect.Lib.Run
open OfConnect.PollThr.Thread OfConnect.PollThr.Framing
open OfConnect.Core.State OfConnect.Core.Api OfConnect.Core.Effects

/-- A poll thread with its pipes and what `poll` has reported and the round has still to
handle. -/
structure Worker where
  thr : PollthrPrivate
  priPipe : List ThrMsg
  dataPipe : List UInt8
  priDue : Bool
  dataDue : Bool

/-- A call of `cc_of_destroy_channel` that holds the locks. -/
structure Destroying where
  key : ChannelKey
  fd : Fd
  tmgr : Option MgrId
  acked : Bool

structure Sys where
  g : Global
  sendMsgBuf : Mem
  workers : MgrId → Worker
  destroying : Option Destroying

inductive Act where
  | send (dpId : UInt64) (auxId : UInt8) (ofMsg : Option (List UInt8))
  | destroyStart (key : ChannelKey)
  | destroyEnd (closeRet : Int)
  | poll (m : MgrId)
  | handlePri (m : MgrId)
  | handleData (m : MgrId) (stack : Mem) (dpId : UInt64) (auxId : UInt8)

def Sys.setWorker (s : Sys) (m : MgrId) (w : Worker) : Sys :=
  { s with workers := Function.update s.workers m w }

/-- `cc_of_send_pkt` takes `ofchannel_htbl_lock`. -/
def sendStep (s : Sys) (dpId : UInt64) (auxId : UInt8) (ofMsg : Option (List UInt8)) : Option Sys :=
  if s.destroying.isSome then none
  else
    match (ccOfSendPkt s.g dpId auxId ofMsg).2 with
    | none => some s
    | some p =>
      let w := s.workers p.tmgr
      some { s.setWorker p.tmgr
          { w with dataPipe := w.dataPipe ++ sendRecord s.sendMsgBuf p.fd p.payload } with
        sendMsgBuf := fillSendMsgBuf s.sendMsgBuf p.fd p.payload }

/-- `cc_of_destroy_channel` up to `adp_thr_mgr_add_del_fd`. A channel that is not found is
an error and changes nothing; a socket without a manager needs no acknowledgement. -/
def destroyStart (s : Sys) (key : ChannelKey) : Option Sys :=
  if s.destroying.isSome then none
  else
    match s.g.ofchannelHtbl.lookup key with
    | none => some s
    | some ofchannInfo =>
      match s.g.ofrwHtbl.lookup ofchannInfo.rwSockfd with
      | none => some s
      | some rwinfo =>
        let fd := ofchannInfo.rwSockfd
        match rwinfo.thrMgr with
        | none => some { s with destroying := some ⟨key, fd, none, true⟩ }
        | some m =>
          let w := s.workers m
          some { s.setWorker m { w with priPipe := w.priPipe ++ [socketDeleteMsg fd] } with
            destroying := some ⟨key, fd, some m, false⟩ }

/-- The rest of `cc_of_destroy_channel`, once the thread has acknowledged. -/
def destroyEnd (s : Sys) (closeRet : Int) : Option Sys :=
  match s.destroying with
  | none => none
  | some t =>
    if t.acked then (ccOfDestroyChannel s.g t.key closeRet).map fun r =>
      { s with g := r.2, destroying := none }
    else none

/-- The thread handles the primary pipe and signals the caller that waits. -/
def handlePri (s : Sys) (m : MgrId) : Option Sys :=
  let w := s.workers m
  match w.priDue, w.priPipe with
  | true, msg :: rest => (pollthrPriPipeProcessFunc w.thr msg).map fun thr =>
      { s.setWorker m { w with thr := thr, priPipe := rest, priDue := false } with
        destroying := s.destroying.map fun t =>
          { t with acked := t.acked || decide (t.tmgr = some m) } }
  | _, _ => none

def handleData (s : Sys) (m : MgrId) (stack : Mem) (dpId : UInt64) (auxId : UInt8) : Option Sys :=
  let w := s.workers m
  if w.priDue = false ∧ w.dataDue = true then
    (dataPipeRead w.dataPipe stack).bind fun r =>
      (pollthrDataPipeProcessFunc w.thr r.1.fd ⟨dpId, auxId, r.1.data⟩).map fun thr =>
        s.setWorker m { w with thr := thr, dataPipe := r.2, dataDue := false }
  else none

def step (s : Sys) : Act → Option Sys
  | .send dpId auxId ofMsg => sendStep s dpId auxId ofMsg
  | .destroyStart key => destroyStart s key
  | .destroyEnd closeRet => destroyEnd s closeRet
  | .poll m =>
    let w := s.workers m
    if w.priDue || w.dataDue then none
    else some (s.setWorker m
      { w with priDue := !w.priPipe.isEmpty, dataDue := !w.dataPipe.isEmpty })
  | .handlePri m => handlePri s m
  | .handleData m stack dpId auxId => handleData s m stack dpId auxId

/-- Whenever a thread is to handle its data pipe, it knows the fd of the message. -/
def NoAbort (s : Sys) : Prop :=
  ∀ m stack e rest, (s.workers m).priDue = false → (s.workers m).dataDue = true →
    dataPipeRead (s.workers m).dataPipe stack = some (e, rest) → e.fd ∈ (s.workers m).thr.fds

/-- The fd in the header at the start of some bytes. -/
def headerFd (bytes : List UInt8) : Fd := (UInt32.ofNat (leNat ((bytes.drop 4).take 4))).toInt32

/-- One of the blocks in which the thread will read the pipe starts with this fd. -/
def StartsBlock (pipe : List UInt8) (fd : Fd) : Prop :=
  ∃ k, k * sendMsgBufSize < pipe.length ∧ headerFd (pipe.drop (k * sendMsgBufSize)) = fd

/-- A record fits the buffer and the block it is written into, and a `DELETE_FD` finds no
block that starts with its fd. -/
def TearsDownSafely (s : Sys) : Act → Prop
  | .send dpId auxId ofMsg => ∀ p, (ccOfSendPkt s.g dpId auxId ofMsg).2 = some p →
      (s.workers p.tmgr).dataPipe.length % sendMsgBufSize + (p.payload.length + hdrSize) ≤
        sendMsgBufSize
  | .handlePri m => ∀ msg ∈ (s.workers m).priPipe.head?,
      ¬StartsBlock (s.workers m).dataPipe msg.fd
  | _ => True

/-! ## Blocks of the data pipe -/

/-- A block that starts with a record for one of the fds. -/
def HeadIn (fds : List Fd) (c : List UInt8) : Prop :=
  ∃ r more f d, c = r ++ more ∧ IsRecord r f d ∧ f ∈ fds

theorem headerFd_record {r more : List UInt8} {f : Fd} {d : List UInt8} (h : IsRecord r f d) :
    headerFd (r ++ more) = f := by
  obtain ⟨⟨rest, hrest, rfl⟩, -⟩ := h
  have hpow : 256 ^ 4 = 2 ^ 32 := by norm_num
  have hbytes : ((leBytes 4 (d.length + hdrSize) ++ leBytes 4 f.toUInt32.toNat ++ rest ++ d ++
      more).drop 4).take 4 = leBytes 4 f.toUInt32.toNat := by
    simp [List.append_assoc]
  unfold headerFd
  rw [hbytes, leNat_leBytes, hpow, UInt32.ofNat_mod_size, UInt32.ofNat_toNat,
    Int32.toInt32_toUInt32]

theorem startsBlock_of_mem {cs : List (List UInt8)} {r more : List UInt8} {f : Fd}
    {d : List UInt8} (hc : Chunked sendMsgBufSize cs) (hm : r ++ more ∈ cs) (hr : IsRecord r f d) :
    StartsBlock cs.flatten f := by
  induction cs with
  | nil => cases hm
  | cons c cs ih =>
    have hlen := hr.length
    rcases List.mem_cons.mp hm with rfl | hm
    · refine ⟨0, ?_, ?_⟩
      · simp only [Nat.zero_mul, List.flatten_cons, List.length_append]
        unfold hdrSize at hlen
        omega
      · rw [Nat.zero_mul, List.drop_zero, List.flatten_cons, List.append_assoc]
        exact headerFd_record hr
    · obtain ⟨k, hk, hhead⟩ := ih hc.tail hm
      have hne : cs ≠ [] := List.ne_nil_of_mem hm
      have hfull : c.length = sendMsgBufSize := by
        obtain ⟨e, cs, rfl⟩ := List.exists_cons_of_ne_nil hne
        exact hc.full c (by simp)
      refine ⟨k + 1, ?_, ?_⟩
      · rw [List.flatten_cons, List.length_append, hfull]
        rw [Nat.succ_mul]
        omega
      · rw [Nat.succ_mul, Nat.add_comm, ← List.drop_drop, hc.read.2]
        exact hhead

/-- The data pipe is a sequence of blocks that start with records for these fds. -/
def BlocksIn (fds : List Fd) (pipe : List UInt8) : Prop :=
  ∃ cs, pipe = cs.flatten ∧ Chunked sendMsgBufSize cs ∧ ∀ c ∈ cs, HeadIn fds c

theorem blocksIn_send {fds : List Fd} {pipe : List UInt8} {buf : Mem} {f : Fd} {d : List UInt8}
    (h : BlocksIn fds pipe) (hf : f ∈ fds)
    (hfit : pipe.length % sendMsgBufSize + (d.length + hdrSize) ≤ sendMsgBufSize) :
    BlocksIn fds (pipe ++ sendRecord buf f d) := by
  obtain ⟨cs, rfl, hc, hin⟩ := h
  have hr := isRecord_sendRecord buf f (d := d) (by omega)
  have hlen := hr.length
  have hnew : HeadIn fds (sendRecord buf f d) := ⟨_, [], f, d, by simp, hr, hf⟩
  by_cases hmod : cs.flatten.length % sendMsgBufSize = 0
  · -- a block of its own
    have hne : sendRecord buf f d ≠ [] := by
      intro he
      rw [he] at hlen
      simp [hdrSize] at hlen
    refine ⟨cs ++ [sendRecord buf f d], by simp, hc.append hne (by omega) hmod, fun c hcm => ?_⟩
    rcases List.mem_append.mp hcm with hcm | hcm
    · exact hin c hcm
    · rw [List.mem_singleton.mp hcm]
      exact hnew
  · -- behind the records of the last block
    rcases List.eq_nil_or_concat cs with rfl | ⟨cs, c, rfl⟩
    · simp at hmod
    · rw [List.concat_eq_append] at *
      rw [hc.length_mod] at hfit hmod
      have hlt : c.length < sendMsgBufSize := by
        rcases Nat.lt_or_eq_of_le (hc.le c (by simp)) with hlt | heq
        · exact hlt
        · rw [heq, Nat.mod_self] at hmod
          exact absurd rfl hmod
      rw [Nat.mod_eq_of_lt hlt] at hfit
      refine ⟨cs ++ [c ++ sendRecord buf f d], by simp, hc.extend (by omega), fun e he => ?_⟩
      rcases List.mem_append.mp he with he | he
      · exact hin e (by simp [he])
      · obtain ⟨r, more, f', d', rfl, hr', hf'⟩ := hin c (by simp)
        rw [List.mem_singleton.mp he]
        exact ⟨r, more ++ sendRecord buf f d, f', d', by simp, hr', hf'⟩

/-- What a read takes is a message for one of the fds, and leaves such blocks. -/
theorem blocksIn_read {fds : List Fd} {pipe rest : List UInt8} {stack : Mem} {e : Extracted}
    (h : BlocksIn fds pipe) (hread : dataPipeRead pipe stack = some (e, rest)) :
    e.fd ∈ fds ∧ BlocksIn fds rest := by
  obtain ⟨cs, rfl, hc, hin⟩ := h
  cases cs with
  | nil => simp [dataPipeRead] at hread
  | cons c cs =>
    obtain ⟨r, more, f, d, rfl, hr, hf⟩ := hin c (by simp)
    rw [dataPipeRead_chunk stack more hc hr] at hread
    obtain ⟨rfl, rfl⟩ := Prod.mk.inj (Option.some.inj hread)
    exact ⟨hf, cs, rfl, hc.tail, fun c hcm => hin c (by simp [hcm])⟩

theorem blocksIn_delete {fds fds' : List Fd} {pipe : List UInt8} {fd : Fd} (h : BlocksIn fds pipe)
    (hno : ¬StartsBlock pipe fd) (hkeep : ∀ f ∈ fds, f ≠ fd → f ∈ fds') : BlocksIn fds' pipe := by
  obtain ⟨cs, rfl, hc, hin⟩ := h
  refine ⟨cs, rfl, hc, fun c hcm => ?_⟩
  obtain ⟨r, more, f, d, rfl, hr, hf⟩ := hin c hcm
  refine ⟨r, more, f, d, rfl, hr, hkeep f hf ?_⟩
  rintro rfl
  exact hno (startsBlock_of_mem hc hcm hr)

/-! ## Runs -/

/-- `DELETE_FD` takes no other fd off the list. -/
theorem mem_fds_deleteFd {t : PollthrPrivate} {msg : ThrMsg} {f : Fd} (h : f ∈ t.fds)
    (hne : f ≠ msg.fd) : f ∈ (deleteFd t msg).fds := by
  unfold deleteFd
  split
  · exact h
  · split
    · exact h
    · obtain ⟨e, he, rfl⟩ := List.mem_map.mp h
      refine List.mem_map.mpr ⟨e, ?_, rfl⟩
      refine (List.mem_eraseP_of_neg ?_).mpr he
      simpa using hne

theorem fds_dataPipe {t t' : PollthrPrivate} {fd : Fd} {info : SendMsgInfo}
    (h : pollthrDataPipeProcessFunc t fd info = some t') : t'.fds = t.fds := by
  unfold pollthrDataPipeProcessFunc at h
  split at h
  · cases h
  · obtain rfl := Option.some.inj h
    rfl

/-- The `DELETE_FD` that a destruction has still in a primary pipe. -/
def pendingDelete (d : Option Destroying) (m : MgrId) : List ThrMsg :=
  match d with
  | none => []
  | some t => if t.tmgr = some m ∧ t.acked = false then [socketDeleteMsg t.fd] else []

/-- What holds of the thread of the manager `m`. A socket is polled by its thread, unless
it is being destroyed. -/
structure WorkerReady (g : Global) (d : Option Destroying) (m : MgrId) (w : Worker) : Prop where
  polled : ∀ fd info, g.ofrwHtbl.lookup fd = some info → info.thrMgr = some m →
    (∀ t, d = some t → t.fd ≠ fd) → fd ∈ w.thr.fds
  blocks : BlocksIn w.thr.fds w.dataPipe
  pending : w.priPipe = pendingDelete d m

structure Ready (s : Sys) : Prop where
  pooled : Pooled s.g
  workers : ∀ m, WorkerReady s.g s.destroying m (s.workers m)
  /-- The tables still lead to the socket that is being destroyed. -/
  found : ∀ t, s.destroying = some t → ∃ ci info,
    s.g.ofchannelHtbl.lookup t.key = some ci ∧ ci.rwSockfd = t.fd ∧
    s.g.ofrwHtbl.lookup t.fd = some info

theorem noAbort_of_ready {s : Sys} (h : Ready s) : NoAbort s :=
  fun m _ _ _ _ _ hread => (blocksIn_read (h.workers m).blocks hread).1

/-- What the new worker and all the others satisfy, every worker satisfies. -/
theorem forall_setWorker {P : MgrId → Worker → Prop} {s : Sys} {m : MgrId} {w : Worker}
    (hm : P m w) (ho : ∀ m', m' ≠ m → P m' (s.workers m')) (m' : MgrId) :
    P m' ((s.setWorker m w).workers m') := by
  by_cases h : m' = m
  · subst h
    simpa [Sys.setWorker] using hm
  · simpa [Sys.setWorker, h] using ho m' h

/-- A successful send is on a socket with a manager. -/
theorem sendPkt_spec {g : Global} {dpId : UInt64} {auxId : UInt8} {ofMsg : Option (List UInt8)}
    {p : Packet} (h : (ccOfSendPkt g dpId auxId ofMsg).2 = some p) :
    ∃ info, g.ofrwHtbl.lookup p.fd = some info ∧ info.thrMgr = some p.tmgr := by
  unfold ccOfSendPkt at h
  split at h
  · cases h
  · split at h
    · cases h
    · split at h
      · cases h
      · rename_i m hm
        obtain rfl := Option.some.inj h
        unfold findThrmgrRwsocketLockfree at hm
        rw [Option.join_eq_some_iff] at hm
        obtain ⟨info, hl, hi⟩ := Option.map_eq_some_iff.mp hm
        exact ⟨info, hl, hi⟩

theorem ready_send {s s' : Sys} {dpId : UInt64} {auxId : UInt8} {ofMsg : Option (List UInt8)}
    (h : Ready s) (hok : TearsDownSafely s (.send dpId auxId ofMsg))
    (hs : sendStep s dpId auxId ofMsg = some s') : Ready s' := by
  unfold sendStep at hs
  split at hs
  · cases hs
  · rename_i hidle
    have hnone : s.destroying = none := by simpa using hidle
    split at hs
    · obtain rfl := Option.some.inj hs
      exact h
    · rename_i p hp
      obtain rfl := Option.some.inj hs
      obtain ⟨info, hl, hi⟩ := sendPkt_spec hp
      have hw := h.workers p.tmgr
      have hf : p.fd ∈ (s.workers p.tmgr).thr.fds :=
        hw.polled p.fd info hl hi fun t ht => by rw [hnone] at ht; cases ht
      refine ⟨h.pooled, forall_setWorker ?_ fun m' _ => h.workers m', h.found⟩
      exact ⟨hw.polled, blocksIn_send hw.blocks hf (hok p hp), hw.pending⟩

theorem ready_destroyStart {s s' : Sys} {key : ChannelKey} (h : Ready s)
    (hs : destroyStart s key = some s') : Ready s' := by
  unfold destroyStart at hs
  split at hs
  · cases hs
  · rename_i hidle
    have hnone : s.destroying = none := by simpa using hidle
    have hempty : ∀ m, (s.workers m).priPipe = [] := by
      intro m
      rw [(h.workers m).pending, hnone]
      rfl
    split at hs
    · obtain rfl := Option.some.inj hs
      exact h
    · rename_i ci hci
      split at hs
      · obtain rfl := Option.some.inj hs
        exact h
      · rename_i info hl
        -- the socket is now exempt from being polled; nothing else is asked of the threads
        have hkeep : ∀ (t : Destroying) (m : MgrId) (fd : Fd) (fi : RwInfo),
            s.g.ofrwHtbl.lookup fd = some fi → fi.thrMgr = some m →
            (∀ t', some t = some t' → t'.fd ≠ fd) → fd ∈ (s.workers m).thr.fds :=
          fun t m fd fi hfd hi _ =>
            (h.workers m).polled fd fi hfd hi fun t' ht' => by rw [hnone] at ht'; cases ht'
        split at hs
        · obtain rfl := Option.some.inj hs
          refine ⟨h.pooled, fun m => ⟨hkeep _ m, (h.workers m).blocks, ?_⟩, ?_⟩
          · show (s.workers m).priPipe = _
            rw [hempty]
            rfl
          · intro t ht
            obtain rfl := Option.some.inj ht
            exact ⟨ci, info, hci, rfl, hl⟩
        · rename_i m hm
          obtain rfl := Option.some.inj hs
          refine ⟨h.pooled, forall_setWorker ?_ fun m' hm' => ?_, ?_⟩
          · refine ⟨hkeep _ m, (h.workers m).blocks, ?_⟩
            show (s.workers m).priPipe ++ [socketDeleteMsg ci.rwSockfd] = _
            rw [hempty]
            simp [pendingDelete]
          · refine ⟨hkeep _ m', (h.workers m').blocks, ?_⟩
            rw [hempty]
            simp [pendingDelete, Ne.symm hm']
          · intro t ht
            obtain rfl := Option.some.inj ht
            exact ⟨ci, info, hci, rfl, hl⟩

theorem ready_destroyEnd {s s' : Sys} {closeRet : Int} (h : Ready s)
    (hs : destroyEnd s closeRet = some s') : Ready s' := by
  unfold destroyEnd at hs
  split at hs
  · cases hs
  · rename_i t ht
    split at hs
    · rename_i hack
      obtain ⟨r, hr, rfl⟩ := Option.map_eq_some_iff.mp hs
      obtain ⟨ci, info, hci, hfd, hl⟩ := h.found t ht
      rw [← hfd] at hl
      unfold ccOfDestroyChannel at hr
      simp only [hci, hl] at hr
      obtain ⟨-, dev, -, hclosed⟩ := closeConn_spec h.pooled hl hr
      refine ⟨hclosed.pooled h.pooled, fun m => ⟨fun fd fi hfi hi _ => ?_, (h.workers m).blocks, ?_⟩,
        fun t' ht' => by cases ht'⟩
      · rw [hclosed.ofrw] at hfi
        split at hfi
        · cases hfi
        · rename_i hne
          refine (h.workers m).polled fd fi hfi hi fun t' ht' => ?_
          rw [ht] at ht'
          obtain rfl := Option.some.inj ht'
          rw [← hfd]
          exact Ne.symm hne
      · show (s.workers m).priPipe = []
        rw [(h.workers m).pending, ht]
        simp [pendingDelete, hack]
    · cases hs

theorem ready_handlePri {s s' : Sys} {m : MgrId} (h : Ready s)
    (hok : TearsDownSafely s (.handlePri m)) (hs : handlePri s m = some s') : Ready s' := by
  unfold handlePri at hs
  dsimp only at hs
  split at hs
  · rename_i msg rest _ hpipe
    obtain ⟨thr, hthr, rfl⟩ := Option.map_eq_some_iff.mp hs
    have hw := h.workers m
    -- the message is the `DELETE_FD` of the destruction under way
    have hmsg := hw.pending
    rw [hpipe] at hmsg
    unfold pendingDelete at hmsg
    split at hmsg
    · cases hmsg
    · rename_i t ht
      split at hmsg
      · rename_i hm
        obtain ⟨rfl, rfl⟩ := List.cons.inj hmsg
        have hkeep : ∀ f ∈ (s.workers m).thr.fds, f ≠ t.fd → f ∈ thr.fds := by
          intro f hf hne
          obtain rfl := Option.some.inj hthr
          exact mem_fds_deleteFd hf hne
        have hno := hok (socketDeleteMsg t.fd) (by rw [hpipe]; rfl)
        have hacked : (s.destroying.map fun t : Destroying =>
            { t with acked := t.acked || decide (t.tmgr = some m) }) =
            some { t with acked := t.acked || decide (t.tmgr = some m) } := by
          rw [ht]
          rfl
        refine ⟨h.pooled, forall_setWorker ?_ fun m' hm' => ?_, ?_⟩
        · refine ⟨fun fd fi hfi hi hother => ?_, blocksIn_delete hw.blocks hno hkeep, ?_⟩
          · have hne := hother _ hacked
            refine hkeep fd (hw.polled fd fi hfi hi fun t' ht' => ?_) (Ne.symm hne)
            rw [ht] at ht'
            obtain rfl := Option.some.inj ht'
            exact hne
          · simp [ht, pendingDelete, hm.1]
        · have hw' := h.workers m'
          refine ⟨fun fd fi hfi hi hother => ?_, hw'.blocks, ?_⟩
          · refine hw'.polled fd fi hfi hi fun t' ht' => ?_
            rw [ht] at ht'
            obtain rfl := Option.some.inj ht'
            have hne := hother _ hacked
            exact hne
          · rw [hw'.pending, ht]
            simp [pendingDelete, hm.1, Ne.symm hm']
        · intro t' ht'
          simp only [ht, Option.map_some, Option.some.injEq] at ht'
          subst ht'
          exact h.found t ht
      · cases hmsg
  · cases hs

theorem ready_handleData {s s' : Sys} {m : MgrId} {stack : Mem} {dpId : UInt64} {auxId : UInt8}
    (h : Ready s) (hs : handleData s m stack dpId auxId = some s') : Ready s' := by
  unfold handleData at hs
  dsimp only at hs
  split at hs
  · obtain ⟨⟨e, rest⟩, hread, hs⟩ := Option.bind_eq_some_iff.mp hs
    obtain ⟨thr, hthr, rfl⟩ := Option.map_eq_some_iff.mp hs
    have hw := h.workers m
    have hfds := fds_dataPipe hthr
    refine ⟨h.pooled, forall_setWorker ?_ fun m' _ => h.workers m', h.found⟩
    refine ⟨?_, ?_, hw.pending⟩
    · rw [hfds]
      exact hw.polled
    · rw [hfds]
      exact (blocksIn_read hw.blocks hread).2
  · cases hs

theorem ready_step {s s' : Sys} {a : Act} (h : Ready s) (hok : TearsDownSafely s a)
    (hs : step s a = some s') : Ready s' := by
  cases a with
  | send dpId auxId ofMsg => exact ready_send h hok hs
  | destroyStart key => exact ready_destroyStart h hs
  | destroyEnd closeRet => exact ready_destroyEnd h hs
  | poll m =>
    simp only [step] at hs
    split at hs
    · cases hs
    · obtain rfl := Option.some.inj hs
      have hw := h.workers m
      exact ⟨h.pooled, forall_setWorker ⟨hw.polled, hw.blocks, hw.pending⟩ fun m' _ => h.workers m',
        h.found⟩
  | handlePri m => exact ready_handlePri h hok hs
  | handleData m stack dpId auxId => exact ready_handleData h hs

/-- No call under way, and empty pipes. -/
def start (g : Global) (sendMsgBuf : Mem) (thr : MgrId → PollthrPrivate) : Sys where
  g := g
  sendMsgBuf := sendMsgBuf
  workers := fun m => ⟨thr m, [], [], false, false⟩
  destroying := none

/-- From established channels, every thread knows the fd of every message it handles, in a
run in which records keep to the blocks of the pipe and no `DELETE_FD` overtakes a record
for its fd. -/
theorem no_abort_of_tears_down_safely (g : Global) (sendMsgBuf : Mem)
    (thr : MgrId → PollthrPrivate) (acts : List Act) (hp : Pooled g)
    (hpolled : ∀ fd info m, g.ofrwHtbl.lookup fd = some info → info.thrMgr = some m →
      fd ∈ (thr m).fds)
    (hg : Guarded step TearsDownSafely (start g sendMsgBuf thr) acts) :
    Always step NoAbort (start g sendMsgBuf thr) acts := by
  have hblocks : ∀ fds, BlocksIn fds [] := fun _ => ⟨[], rfl, chunked_nil, by simp⟩
  have hstart : Ready (start g sendMsgBuf thr) := by
    refine ⟨hp, fun m => ⟨fun fd info hl hi _ => hpolled fd info m hl hi, hblocks _, rfl⟩, ?_⟩
    intro t ht
    cases ht
  have hall : Always step Ready (start g sendMsgBuf thr) acts :=
    always_of_guarded (fun s a t h hok hs => ready_step h hok hs) hstart hg
  exact hall.mono fun s h => noAbort_of_ready h

/-- A thread with the pipes 13 and 15 that polls socket 5. -/
def pollsFive : PollthrPrivate :=
  let t := newThread (fun _ => ⟨0, ⟨false, false⟩, ⟨false, false⟩⟩) ⟨13, 15, by decide⟩
  (addFd t (tcpAddMsg 5)).getD t

/-- A packet is handled, and then its channel is destroyed. -/
theorem no_abort_of_tears_down_safely_at_handled_packet :
    ∃ g, oneChannel = some g ∧
      Always step NoAbort (start g (fun _ => 0) fun _ => pollsFive)
        [.send 7 0 (some [1]), .poll 0, .handleData 0 (fun _ => 0) 0 0, .destroyStart ⟨7, 0⟩,
          .poll 0, .handlePri 0, .destroyEnd 0] := by
  -- the one entry of `ofrw_htbl`
  have honly : ∀ g, oneChannel = some g → ∀ fd info, g.ofrwHtbl.lookup fd = some info →
      fd = 5 ∧ info = ⟨.down, some 0, ⟨1, 2, 6633⟩, ⟨0, 0⟩, .tcp⟩ := by
    intro g hg fd info hl
    obtain rfl := Option.some.inj hg
    have hmem := lookup_eq_some_iff.mp hl
    have hentry := List.mem_singleton.mp hmem
    cases hentry
    exact ⟨rfl, rfl⟩
  refine ⟨_, rfl, no_abort_of_tears_down_safely _ _ _ _ ?_ ?_ ?_⟩
  · intro fd info m hl hm
    obtain ⟨-, rfl⟩ := honly _ rfl fd info hl
    obtain rfl := Option.some.inj hm
    decide
  · intro fd info m hl hm
    obtain ⟨rfl, -⟩ := honly _ rfl fd info hl
    decide
  · refine guarded_cons.mpr fun t ht => ⟨fun p hp => ?_, ?_⟩
    · obtain rfl := Option.some.inj hp
      decide
    obtain rfl := Option.some.inj ht
    refine guarded_cons.mpr fun t ht => ⟨trivial, ?_⟩
    obtain rfl := Option.some.inj ht
    refine guarded_cons.mpr fun t ht => ⟨trivial, ?_⟩
    obtain rfl := Option.some.inj ht
    refine guarded_cons.mpr fun t ht => ⟨trivial, ?_⟩
    obtain rfl := Option.some.inj ht
    refine guarded_cons.mpr fun t ht => ⟨trivial, ?_⟩
    obtain rfl := Option.some.inj ht
    refine guarded_cons.mpr fun t ht => ⟨?_, ?_⟩
    · rintro msg - ⟨k, hk, -⟩
      exact absurd hk (Nat.not_lt_zero _)
    · exact guarded_cons.mpr fun t ht => ⟨trivial, guarded_nil⟩

/-- A packet is still in the data pipe when the thread handles the `DELETE_FD`. -/
theorem delete_overtakes_send :
    ∃ g s, oneChannel = some g ∧
      run step (start g (fun _ => 0) fun _ => pollsFive)
        [.send 7 0 (some [1]), .destroyStart ⟨7, 0⟩, .poll 0, .handlePri 0] = some s ∧
      ¬NoAbort s := by
  refine ⟨_, _, rfl, rfl, fun h => ?_⟩
  have hmem := h 0 (fun _ => 0) ⟨5, [1], 1⟩ [] rfl rfl (by decide)
  revert hmem
  decide

end OfConnect.PollThr.Teardown
