import OfConnect.Pool.Moves
import OfConnect.Pool.Traced

/-!
# Opening, system call by system call

`tcp_open_clientfd`, `udp_open_clientfd`, `tcp_open_listenfd`, `udp_open_serverfd` and
`tcp_accept` with what the kernel answers to each of their calls. A call that cannot add its
descriptor closes it before it returns. One that cannot set the descriptor up returns as it is:
the descriptor stays open, and nothing refers to it.
-/

namespace OfConnect.Pool.Opening

open OfConnect.Lib.Tables OfConnect.Lib.Run OfConnect.PollThr.Thread OfConnect.Core.State
open OfConnect.Core.Effects OfConnect.Pool.Moves
open OfConnect.Pool.Traced (Sys start close)

/-- What the kernel answers. `descriptor` is the result of `socket`, or that of `accept`, and
`fcntl` that of `F_GETFL`. -/
structure Answers where
  descriptor : Fd
  setsockopt : Int32
  fcntl : Int32
  bind : Int32
  connect : Int32
  listen : Int32
  deriving DecidableEq, Repr

/-! ## The descriptor -/

/-- A call that sets the descriptor up: a negative result is returned, or an assertion excludes
`-1`. -/
inductive Setup where
  | check (status : Int32)
  | asserted (result : Int32)

def setUp : List Setup → Option (Option Int32)
  | [] => some none
  | .check status :: rest => if status < 0 then some (some status) else setUp rest
  | .asserted result :: rest => if result = -1 then none else setUp rest

def opened (s : Sys) (fd : Fd) : Sys := { s with own := fd :: s.own }

/-- What the five have in common. `failed` is what they make of a negative result. -/
def withDescriptor (s : Sys) (fd : Fd) (failed : Int32 → Ret) (setup : List Setup)
    (add : Sys → Option (Ret × Sys)) : Option (Ret × Sys) :=
  if fd < 0 then some (failed fd, s)
  else (setUp setup).bind fun
    | some status => some (failed status, opened s fd)
    | none => add (opened s fd)

/-- The end of the three that open a read/write socket. -/
def addOrClose (s : Sys) (fd : Fd) (key : DevKey) (proto : L4Type) (ofchannKey : ChannelKey)
    (block : SockAddr) : Option (Ret × Sys) :=
  (ccAddSockfdRwPollthrSafe s.g fd key proto ofchannKey block).map fun r =>
    if r.1 < 0 then (r.1, close { s with g := r.2 } fd) else (fd.toInt, { s with g := r.2 })

/-- The end of `tcp_open_listenfd`. The listen thread refuses a socket that it has no room
for. -/
def listenOrClose (s : Sys) (fd : Fd) : Option (Ret × Sys) :=
  (adpThrMgrAddDelFd s.g.oflistenPollthr .addFd fd).map fun r =>
    let s := { s with g := { s.g with oflistenPollthr := r.2 } }
    if r.1 < 0 then (r.1, close s fd) else (fd.toInt, s)

/-- The end of `tcp_accept`. -/
def acceptOrClose (s : Sys) (fd : Fd) (key : DevKey) (channKey : ChannelKey) (block : SockAddr) :
    Option (Ret × Sys) :=
  (addOrClose s fd key .tcp channKey block).map fun r =>
    if r.1 < 0 then r
    else
      match r.2.g.ofdevHtbl.lookup key with
      | none => (ccOfEhtbl, close r.2 fd)
      | some _ =>
        let up := Core.Api.setRwUp r.2.g fd
        (up.1, { r.2 with g := up.2 })

/-! ## The calls -/

def tcpOpenClientfd (s : Sys) (k : Answers) (key : DevKey) (ofchannKey : ChannelKey)
    (block : SockAddr) : Option (Ret × Sys) :=
  withDescriptor s k.descriptor Int32.toInt
    [.check k.setsockopt, .asserted k.fcntl, .check k.bind, .check k.connect]
    fun s => addOrClose s k.descriptor key .tcp ofchannKey block

def udpOpenClientfd (s : Sys) (k : Answers) (key : DevKey) (ofchannKey : ChannelKey)
    (block : SockAddr) : Option (Ret × Sys) :=
  withDescriptor s k.descriptor Int32.toInt
    [.check k.setsockopt, .check k.bind, .check k.connect]
    fun s => addOrClose s k.descriptor key .udp ofchannKey block

def tcpOpenListenfd (s : Sys) (k : Answers) : Option (Ret × Sys) :=
  withDescriptor s k.descriptor Int32.toInt
    [.check k.setsockopt, .check k.bind, .check k.listen]
    fun s => listenOrClose s k.descriptor

def udpOpenServerfd (s : Sys) (k : Answers) (key : DevKey) (block : SockAddr) :
    Option (Ret × Sys) :=
  withDescriptor s k.descriptor (fun _ => -1) [.check k.setsockopt, .check k.bind]
    fun s => addOrClose s k.descriptor key .udp (dummyKey k.descriptor) block

def tcpAccept (s : Sys) (k : Answers) (key : DevKey) (channKey : ChannelKey)
    (block : SockAddr) : Option (Ret × Sys) :=
  withDescriptor s k.descriptor Int32.toInt [.asserted k.fcntl]
    fun s => acceptOrClose s k.descriptor key channKey block

inductive Call where
  | tcpOpenClientfd (key : DevKey) (ofchannKey : ChannelKey) (block : SockAddr)
  | udpOpenClientfd (key : DevKey) (ofchannKey : ChannelKey) (block : SockAddr)
  | tcpOpenListenfd
  | udpOpenServerfd (key : DevKey) (block : SockAddr)
  | tcpAccept (key : DevKey) (channKey : ChannelKey) (block : SockAddr)

def call (s : Sys) (k : Answers) : Call → Option (Ret × Sys)
  | .tcpOpenClientfd key ofchannKey block => tcpOpenClientfd s k key ofchannKey block
  | .udpOpenClientfd key ofchannKey block => udpOpenClientfd s k key ofchannKey block
  | .tcpOpenListenfd => tcpOpenListenfd s k
  | .udpOpenServerfd key block => udpOpenServerfd s k key block
  | .tcpAccept key channKey block => tcpAccept s k key channKey block

/-- One of the five calls, for which the kernel gives out no descriptor that is open, or any
other call. -/
inductive Op where
  | opening (c : Call) (k : Answers)
  | other (op : Traced.Op)

def step (s : Sys) : Op → Option Sys
  | .opening c k => if k.descriptor ∈ s.own then none else (call s k c).map Prod.snd
  | .other op => Traced.step s op

/-! ## What is asked of them -/

/-- The tables, what the threads poll, and the pool are as they were. -/
structure Same (g g' : Global) : Prop where
  ofdev : ∀ key, g'.ofdevHtbl.lookup key = g.ofdevHtbl.lookup key
  ofchannel : ∀ ck, g'.ofchannelHtbl.lookup ck = g.ofchannelHtbl.lookup ck
  ofrw : ∀ fd, g'.ofrwHtbl.lookup fd = g.ofrwHtbl.lookup fd
  polled : ∀ m, (g'.mgrs m).fds = (g.mgrs m).fds
  listen : g'.oflistenPollthr.fds = g.oflistenPollthr.fds
  pool : g'.ofrwPollthrList = g.ofrwPollthrList

structure Unchanged (s s' : Sys) : Prop where
  own : ∀ fd, fd ∈ s'.own ↔ fd ∈ s.own
  same : Same s.g s'.g

/-- A negative result leaves everything as it was. -/
def AllOrNothing (s : Sys) : Op → Prop
  | .opening c k => ∀ r, call s k c = some r → r.1 < 0 → Unchanged s r.2
  | .other _ => True

/-- The results that a call returns where they are negative. -/
def Call.checks (k : Answers) : Call → List Int32
  | .tcpOpenClientfd _ _ _ | .udpOpenClientfd _ _ _ => [k.setsockopt, k.bind, k.connect]
  | .tcpOpenListenfd => [k.setsockopt, k.bind, k.listen]
  | .udpOpenServerfd _ _ => [k.setsockopt, k.bind]
  | .tcpAccept _ _ _ => []

/-- The device that the socket is for. -/
def Call.device : Call → Option DevKey
  | .tcpOpenClientfd key _ _ | .udpOpenClientfd key _ _ => some key
  | .udpOpenServerfd key _ | .tcpAccept key _ _ => some key
  | .tcpOpenListenfd => none

/-- The first manager of the pool can take another socket. -/
def HasRoom (g : Global) : Prop :=
  ∃ elem rest, g.ofrwPollthrList = elem :: rest ∧ room g elem ≠ 0

/-- Where the device is not registered there is a manager with room, and no old entry for the
descriptor. -/
def AddsClean (g : Global) (fd : Fd) (key : DevKey) : Prop :=
  g.ofdevHtbl.lookup key = none → HasRoom g ∧ fd ∉ g.ofrwHtbl

/-- There is no descriptor, or setting it up does not fail and it is added cleanly. -/
def Clean (s : Sys) : Op → Prop
  | .opening c k => k.descriptor < 0 ∨ (∀ status ∈ c.checks k, ¬status < 0) ∧
      ∀ key, c.device = some key → AddsClean s.g k.descriptor key
  | .other _ => True

/-! ## Setting the descriptor up -/

def checks (setup : List Setup) : List Int32 :=
  setup.filterMap fun
    | .check status => some status
    | .asserted _ => none

theorem setUp_eq {setup : List Setup} {failure : Option Int32} (h : setUp setup = some failure) :
    failure = (checks setup).find? (fun status => status < 0) := by
  induction setup with
  | nil => exact (Option.some.inj h).symm
  | cons call rest ih =>
    cases call with
    | check status =>
      unfold setUp at h
      split at h
      · rename_i hneg
        obtain rfl := Option.some.inj h
        exact (List.find?_cons_of_pos (by simpa using hneg)).symm
      · rename_i hpos
        rw [ih h]
        exact (List.find?_cons_of_neg (by simpa using hpos)).symm
    | asserted result =>
      unfold setUp at h
      split at h
      · cases h
      · exact ih h

theorem toInt_nonneg {fd : Fd} (h : ¬fd < 0) : ¬fd.toInt < 0 := by
  rw [Int32.lt_iff_toInt_lt] at h
  exact h

theorem toInt_neg {status : Int32} (h : status < 0) : status.toInt < 0 := by
  rw [Int32.lt_iff_toInt_lt] at h
  exact h

/-- There is no descriptor; or the first failure is returned, with the descriptor open; or there
is none. -/
theorem withDescriptor_cases {s : Sys} {fd : Fd} {failed : Int32 → Ret} {setup : List Setup}
    {add : Sys → Option (Ret × Sys)} {r : Ret × Sys}
    (h : withDescriptor s fd failed setup add = some r)
    (hfailed : ∀ status, status < 0 → failed status < 0) :
    (fd < 0 ∧ r.2 = s) ∨
    (¬fd < 0 ∧ r.1 < 0 ∧ r.2 = opened s fd ∧ ∃ status, status < 0 ∧
      (checks setup).find? (fun status => status < 0) = some status) ∨
    (¬fd < 0 ∧ (checks setup).find? (fun status => status < 0) = none ∧
      add (opened s fd) = some r) := by
  unfold withDescriptor at h
  split at h
  · rename_i hneg
    obtain rfl := Option.some.inj h
    exact .inl ⟨hneg, rfl⟩
  · rename_i hpos
    obtain ⟨failure, hfailure, h⟩ := Option.bind_eq_some_iff.mp h
    have heq := setUp_eq hfailure
    cases failure with
    | some status =>
      obtain rfl := Option.some.inj h
      have hneg : status < 0 := by simpa using List.find?_some heq.symm
      exact .inr (.inl ⟨hpos, hfailed status hneg, rfl, status, hneg, heq.symm⟩)
    | none => exact .inr (.inr ⟨hpos, heq.symm, h⟩)

/-- How a call ends where the descriptor could be set up. -/
def Call.ending (s : Sys) (k : Answers) : Call → Option (Ret × Sys)
  | .tcpOpenClientfd key ofchannKey block => addOrClose s k.descriptor key .tcp ofchannKey block
  | .udpOpenClientfd key ofchannKey block => addOrClose s k.descriptor key .udp ofchannKey block
  | .tcpOpenListenfd => listenOrClose s k.descriptor
  | .udpOpenServerfd key block =>
    addOrClose s k.descriptor key .udp (dummyKey k.descriptor) block
  | .tcpAccept key channKey block => acceptOrClose s k.descriptor key channKey block

theorem call_cases {s : Sys} {k : Answers} {c : Call} {r : Ret × Sys} (h : call s k c = some r) :
    (k.descriptor < 0 ∧ r.2 = s) ∨
    (¬k.descriptor < 0 ∧ r.1 < 0 ∧ r.2 = opened s k.descriptor ∧ ∃ status, status < 0 ∧
      (c.checks k).find? (fun status => status < 0) = some status) ∨
    (¬k.descriptor < 0 ∧ (c.checks k).find? (fun status => status < 0) = none ∧
      c.ending (opened s k.descriptor) k = some r) := by
  have htoInt : ∀ status : Int32, status < 0 → status.toInt < 0 := fun _ => toInt_neg
  cases c with
  | tcpOpenClientfd key ck block =>
    unfold call Opening.tcpOpenClientfd at h
    exact withDescriptor_cases h htoInt
  | udpOpenClientfd key ck block =>
    unfold call Opening.udpOpenClientfd at h
    exact withDescriptor_cases h htoInt
  | tcpOpenListenfd =>
    unfold call Opening.tcpOpenListenfd at h
    exact withDescriptor_cases h htoInt
  | udpOpenServerfd key block =>
    unfold call Opening.udpOpenServerfd at h
    exact withDescriptor_cases h fun _ _ => by decide
  | tcpAccept key ck block =>
    unfold call Opening.tcpAccept at h
    exact withDescriptor_cases h htoInt

/-! ## Adding it -/

theorem opened_close {s : Sys} {fd : Fd} (hfd : fd ∉ s.own) (g' : Global) :
    (close { opened s fd with g := g' } fd).own = s.own := by
  have hkeep : ∀ f ∈ s.own, decide (f ≠ fd) = true := by
    intro f hf
    exact decide_eq_true fun heq => hfd (heq ▸ hf)
  show (fd :: s.own).filter (fun f => decide (f ≠ fd)) = s.own
  rw [List.filter_cons_of_neg (by simp), List.filter_eq_self.mpr hkeep]

/-- Without a device the addition fails, and leaves everything as it was if it found a manager
and the descriptor had no entry. -/
theorem addSockfd_same_iff {g : Global} {fd : Fd} {key : DevKey} {proto : L4Type}
    {ck : ChannelKey} {block : SockAddr} {r : Ret × Global}
    (hnone : g.ofdevHtbl.lookup key = none)
    (h : ccAddSockfdRwPollthrSafe g fd key proto ck block = some r) :
    r.1 < 0 ∧ (Same g r.2 ↔ HasRoom g ∧ fd ∉ g.ofrwHtbl) := by
  rcases addSockfd_cases h with ⟨hret, -, hrolled⟩ | ⟨dev, m, -, hadded⟩
  · refine ⟨by rw [hret]; decide, fun hsame => ?_, fun ⟨hroom, hfd⟩ => ?_⟩
    · constructor
      · rcases findOrCreate_cases g with ⟨elem, rest, hl, hroom, -⟩ | ⟨-, hcreate⟩
        · exact ⟨elem, rest, hl, hroom⟩
        · -- a manager was created, and is in the pool
          have hpool : r.2.ofrwPollthrList = g.nextMgr :: g.ofrwPollthrList := by
            rcases addSockfd_inversion hcreate h with ⟨-, rfl⟩ | ⟨dev, t, -, -, rfl⟩
            · rfl
            · rfl
          have hlen := congrArg List.length (hpool.symm.trans hsame.pool)
          simp at hlen
      · apply AList.lookup_eq_none.mp
        rw [← hsame.ofrw, hrolled.ofrw, if_pos rfl]
    · obtain ⟨elem, rest, hl, hroom⟩ := hroom
      have hmanagers : r.2.mgrs = g.mgrs ∧ r.2.oflistenPollthr = g.oflistenPollthr ∧
          r.2.ofrwPollthrList = g.ofrwPollthrList := by
        rcases findOrCreate_cases g with ⟨elem', rest', -, -, hfound⟩ | ⟨hfull, -⟩
        · rcases addSockfd_inversion hfound h with ⟨-, rfl⟩ | ⟨dev, t, hdev, -, -⟩
          · exact ⟨rfl, rfl, rfl⟩
          · rw [hnone] at hdev
            cases hdev
        · exact absurd (hfull elem rest hl) hroom
      obtain ⟨hmgrs, hlisten, hpool⟩ := hmanagers
      exact ⟨fun k => by rw [hrolled.ofdev], fun k => by rw [hrolled.ofchannel],
        hrolled.lookup_ofrw hfd, fun m => by rw [hmgrs], by rw [hlisten], hpool⟩
  · have hreg := hadded.registered
    rw [hnone] at hreg
    cases hreg

theorem addSockfd_of_registered {g : Global} {fd : Fd} {key : DevKey} {proto : L4Type}
    {ck : ChannelKey} {block : SockAddr} {r : Ret × Global}
    (hreg : g.ofdevHtbl.lookup key ≠ none)
    (h : ccAddSockfdRwPollthrSafe g fd key proto ck block = some r) :
    ¬r.1 < 0 ∧ ∃ dev info, info.devKey = key ∧
      Added g r.2 fd dev (openKey g.ofdevType fd ck) info := by
  rcases addSockfd_cases h with ⟨-, hnone, -⟩ | ⟨dev, m, hret, hadded⟩
  · exact absurd hnone hreg
  · exact ⟨by rw [hret]; decide, dev, _, rfl, hadded⟩

theorem addOrClose_iff {s : Sys} {fd : Fd} {key : DevKey} {proto : L4Type} {ck : ChannelKey}
    {block : SockAddr} {r : Ret × Sys} (hfd : fd ∉ s.own) (hpos : ¬fd < 0)
    (h : addOrClose (opened s fd) fd key proto ck block = some r) :
    (r.1 < 0 → Unchanged s r.2) ↔ AddsClean s.g fd key := by
  obtain ⟨q, hq, rfl⟩ := Option.map_eq_some_iff.mp h
  by_cases hnone : s.g.ofdevHtbl.lookup key = none
  · obtain ⟨hneg, hiff⟩ := addSockfd_same_iff hnone hq
    rw [if_pos hneg]
    have hown := opened_close hfd q.2
    constructor
    · intro hkeep _
      exact hiff.mp (hkeep hneg).same
    · intro hclean _
      exact ⟨fun f => by rw [hown], hiff.mpr (hclean hnone)⟩
  · obtain ⟨hok, -⟩ := addSockfd_of_registered hnone hq
    rw [if_neg hok]
    constructor
    · intro _ hnone'
      exact absurd hnone' hnone
    · intro _ hneg
      exact absurd hneg (toInt_nonneg hpos)

theorem acceptOrClose_iff {s : Sys} {fd : Fd} {key : DevKey} {ck : ChannelKey} {block : SockAddr}
    {r : Ret × Sys} (hfd : fd ∉ s.own) (hpos : ¬fd < 0)
    (h : acceptOrClose (opened s fd) fd key ck block = some r) :
    (r.1 < 0 → Unchanged s r.2) ↔ AddsClean s.g fd key := by
  obtain ⟨q, hq, hr⟩ := Option.map_eq_some_iff.mp h
  have hiff := addOrClose_iff hfd hpos hq
  obtain ⟨a, ha, hend⟩ := Option.map_eq_some_iff.mp hq
  by_cases hnone : s.g.ofdevHtbl.lookup key = none
  · have hneg : q.1 < 0 := by
      obtain ⟨hneg, -⟩ := addSockfd_same_iff hnone ha
      rw [if_pos hneg] at hend
      rw [← hend]
      exact hneg
    rw [if_pos hneg] at hr
    obtain rfl := hr
    exact hiff
  · -- the device is found again, and so is the entry
    obtain ⟨hok, dev, info, rfl, hadded⟩ := addSockfd_of_registered hnone ha
    rw [if_neg hok] at hend
    obtain rfl := hend
    have hdev : a.2.ofdevHtbl.lookup info.devKey =
        some { dev with ofrwSocketList := dev.ofrwSocketList ++ [fd] } := by
      rw [hadded.ofdev, lookup_insert_eq, if_pos rfl]
    have hentry : a.2.ofrwHtbl.lookup fd = some info := by
      rw [hadded.ofrw, if_pos rfl]
    rw [if_neg (toInt_nonneg hpos)] at hr
    simp only [hdev, Core.Api.setRwUp, hentry] at hr
    obtain rfl := hr
    constructor
    · intro _ hnone'
      exact absurd hnone' hnone
    · intro _ hneg
      exact absurd hneg (toInt_nonneg hpos)

/-- The listen thread is as it was where it refuses the socket. -/
theorem listenOrClose_unchanged {s : Sys} {fd : Fd} {r : Ret × Sys} (hfd : fd ∉ s.own)
    (hpos : ¬fd < 0) (h : listenOrClose (opened s fd) fd = some r) (hneg : r.1 < 0) :
    Unchanged s r.2 := by
  obtain ⟨q, hq, rfl⟩ := Option.map_eq_some_iff.mp h
  dsimp only at hneg ⊢
  split at hneg
  · rename_i hrefused
    have hsame : q.2 = s.g.oflistenPollthr := by
      simp only [adpThrMgrAddDelFd] at hq
      split at hq
      · obtain rfl := Option.some.inj hq
        rfl
      · split at hq
        · cases hq
        · obtain rfl := Option.some.inj hq
          exact absurd hrefused (toInt_nonneg hpos)
    rw [if_pos hrefused, hsame]
    refine ⟨fun f => ?_, fun _ => rfl, fun _ => rfl, fun _ => rfl, fun _ => rfl, rfl, rfl⟩
    rw [opened_close hfd]
  · exact absurd hneg (toInt_nonneg hpos)

theorem ending_iff {s : Sys} {k : Answers} {c : Call} {r : Ret × Sys}
    (hfd : k.descriptor ∉ s.own) (hpos : ¬k.descriptor < 0)
    (h : c.ending (opened s k.descriptor) k = some r) :
    (r.1 < 0 → Unchanged s r.2) ↔
      ∀ key, c.device = some key → AddsClean s.g k.descriptor key := by
  have hdevice : ∀ key, (∀ key', some key = some key' → AddsClean s.g k.descriptor key') ↔
      AddsClean s.g k.descriptor key := by
    intro key
    simp only [Option.some.injEq, forall_eq']
  cases c with
  | tcpOpenClientfd key ck block => exact (addOrClose_iff hfd hpos h).trans (hdevice key).symm
  | udpOpenClientfd key ck block => exact (addOrClose_iff hfd hpos h).trans (hdevice key).symm
  | tcpOpenListenfd => exact iff_of_true (listenOrClose_unchanged hfd hpos h) nofun
  | udpOpenServerfd key block => exact (addOrClose_iff hfd hpos h).trans (hdevice key).symm
  | tcpAccept key ck block => exact (acceptOrClose_iff hfd hpos h).trans (hdevice key).symm

/-! ## The calls are all or nothing -/

/-- A descriptor that could not be set up is left open. -/
theorem not_unchanged_opened {s : Sys} {fd : Fd} (hfd : fd ∉ s.own) :
    ¬Unchanged s (opened s fd) :=
  fun h => hfd ((h.own fd).mp List.mem_cons_self)

theorem call_iff {s : Sys} {k : Answers} {c : Call} {r : Ret × Sys} (hfd : k.descriptor ∉ s.own)
    (h : call s k c = some r) : (r.1 < 0 → Unchanged s r.2) ↔ Clean s (.opening c k) := by
  rcases call_cases h with ⟨hneg, hsame⟩ | ⟨hpos, hret, hopen, status, hneg, hfind⟩ |
    ⟨hpos, hnone, hend⟩
  · refine iff_of_true (fun _ => ?_) (.inl hneg)
    rw [hsame]
    exact ⟨fun _ => Iff.rfl, fun _ => rfl, fun _ => rfl, fun _ => rfl, fun _ => rfl, rfl, rfl⟩
  · refine iff_of_false (fun hkeep => ?_) ?_
    · exact not_unchanged_opened hfd (hopen ▸ hkeep hret)
    · rintro (hneg' | ⟨hall, -⟩)
      · exact hpos hneg'
      · exact hall status (List.mem_of_find?_eq_some hfind) hneg
  · have hall : ∀ status ∈ c.checks k, ¬status < 0 := by
      simpa using List.find?_eq_none.mp hnone
    simp only [ending_iff hfd hpos hend, Clean, or_iff_right hpos, and_iff_right hall]

/-- At every step of every run: what the call returns is all or nothing if and only if the call
was clean. -/
theorem all_or_nothing_iff (devType : DevType) (ops : List Op) :
    Guarded step (fun s op => AllOrNothing s op ↔ Clean s op) (start devType) ops := by
  intro pre op s s' _ _ hs
  cases op with
  | opening c k =>
    obtain ⟨hfd, hs⟩ := Option.ite_none_left_eq_some.mp hs
    obtain ⟨r, hr, -⟩ := Option.map_eq_some_iff.mp hs
    rw [← call_iff hfd hr]
    constructor
    · intro h
      exact h r hr
    · intro h r' hr'
      obtain rfl := Option.some.inj (hr.symm.trans hr')
      exact h
  | other op => exact Iff.rfl

/-- A switch registers a device and cannot connect to its controller: the call returns `-1`, and
descriptor `5` is open. -/
theorem refused_connection_leaks :
    ∃ s r, run step (start .switch) [.other (.devRegister ⟨1, 2, 6633⟩ 0 ⟨0, 0, 0⟩ 0)] = some s ∧
      call s ⟨5, 0, 0, 0, -1, 0⟩ (.tcpOpenClientfd ⟨1, 2, 6633⟩ ⟨7, 0⟩ ⟨0, 0⟩) = some r ∧
      r.1 = -1 ∧ s.own = [] ∧ r.2.own = [5] ∧ ¬Unchanged s r.2 := by
  refine ⟨_, _, rfl, rfl, by decide, by decide, by decide, fun h => ?_⟩
  exact absurd ((h.own 5).mp (by decide)) (by decide)

/-! ## Without the descriptors -/

/-- What obtaining a descriptor and setting it up come to: the first failure, or the
descriptor. -/
def settled (fd : Fd) (checks : List Int32) : Fd :=
  ((fd :: checks).find? fun status => status < 0).getD fd

/-- The calls as `Core.Api` and `Udp.Demux` have them, for a descriptor that is ready, or
negative. -/
def ready (g : Global) (fd : Fd) : Call → Option Global
  | .tcpOpenClientfd key ofchannKey block =>
    (Core.Api.ccOfCreateChannel g key ofchannKey .tcp fd block).map Prod.snd
  | .udpOpenClientfd key ofchannKey block =>
    (Core.Api.ccOfCreateChannel g key ofchannKey .udp fd block).map Prod.snd
  | .tcpOpenListenfd => (Core.Api.tcpOpenListenfd g fd).map Prod.snd
  | .udpOpenServerfd key block => (Udp.Demux.udpOpenServerfd g key fd block).map Prod.snd
  | .tcpAccept key channKey block => (Core.Api.tcpAccept g fd key channKey block).map Prod.snd

theorem ready_of_neg (g : Global) {fd : Fd} (h : fd < 0) (c : Call) : ready g fd c = some g := by
  cases c with
  | tcpOpenClientfd key ck block =>
    simp only [ready, Core.Api.ccOfCreateChannel, if_pos h, Option.map_some]
  | udpOpenClientfd key ck block =>
    simp only [ready, Core.Api.ccOfCreateChannel, if_pos h, Option.map_some]
  | tcpOpenListenfd =>
    simp only [ready, Core.Api.tcpOpenListenfd, if_pos h, Option.map_some]
  | udpOpenServerfd key block =>
    simp only [ready, Udp.Demux.udpOpenServerfd, if_pos h, Option.map_some]
  | tcpAccept key ck block =>
    simp only [ready, Core.Api.tcpAccept, if_pos h, Option.map_some]

theorem addOrClose_ready {s : Sys} {fd : Fd} {key : DevKey} {proto : L4Type} {ck : ChannelKey}
    {block : SockAddr} {r : Ret × Sys}
    (h : addOrClose (opened s fd) fd key proto ck block = some r) :
    ∃ q, ccAddSockfdRwPollthrSafe s.g fd key proto ck block = some q ∧ r.2.g = q.2 ∧
      (¬fd < 0 → (r.1 < 0 ↔ q.1 < 0)) := by
  obtain ⟨q, hq, rfl⟩ := Option.map_eq_some_iff.mp h
  refine ⟨q, hq, ?_, fun hpos => ?_⟩
  · split
    · rfl
    · rfl
  · split
    · exact Iff.rfl
    · rename_i hok
      exact iff_of_false (toInt_nonneg hpos) hok

theorem ending_ready {s : Sys} {k : Answers} {c : Call} {r : Ret × Sys}
    (hpos : ¬k.descriptor < 0) (h : c.ending (opened s k.descriptor) k = some r) :
    ready s.g k.descriptor c = some r.2.g := by
  cases c with
  | tcpOpenClientfd key ck block =>
    obtain ⟨q, hq, hg, -⟩ := addOrClose_ready h
    simp only [ready, Core.Api.ccOfCreateChannel, if_neg hpos, hq, Option.map_some,
      apply_ite Prod.snd, ite_self, hg]
  | udpOpenClientfd key ck block =>
    obtain ⟨q, hq, hg, -⟩ := addOrClose_ready h
    simp only [ready, Core.Api.ccOfCreateChannel, if_neg hpos, hq, Option.map_some,
      apply_ite Prod.snd, ite_self, hg]
  | tcpOpenListenfd =>
    obtain ⟨q, hq, rfl⟩ := Option.map_eq_some_iff.mp h
    have hq : adpThrMgrAddDelFd s.g.oflistenPollthr .addFd k.descriptor = some q := hq
    simp only [ready, Core.Api.tcpOpenListenfd, if_neg hpos, hq, Option.map_some]
    split
    · rfl
    · rfl
  | udpOpenServerfd key block =>
    obtain ⟨q, hq, hg, -⟩ := addOrClose_ready h
    simp only [ready, Udp.Demux.udpOpenServerfd, if_neg hpos, hq, Option.map_some,
      apply_ite Prod.snd, ite_self, hg]
  | tcpAccept key ck block =>
    obtain ⟨a, ha, rfl⟩ := Option.map_eq_some_iff.mp h
    obtain ⟨q, hq, hg, hret⟩ := addOrClose_ready ha
    simp only [ready, Core.Api.tcpAccept, if_neg hpos, hq, Option.map_some, hret hpos, ← hg]
    split
    · exact congrArg some hg.symm
    · cases a.2.g.ofdevHtbl.lookup key with
      | none => rfl
      | some dev => rfl

/-- The calls do to the tables what they do with a descriptor that is ready. What they leave open
is not seen there. -/
theorem ready_of_call {s : Sys} {k : Answers} {c : Call} {r : Ret × Sys}
    (h : call s k c = some r) :
    ready s.g (settled k.descriptor (c.checks k)) c = some r.2.g := by
  unfold settled
  rcases call_cases h with ⟨hneg, hsame⟩ | ⟨hpos, -, hopen, status, hneg, hfind⟩ |
    ⟨hpos, hnone, hend⟩
  · rw [List.find?_cons_of_pos (by simpa using hneg), hsame]
    exact ready_of_neg s.g hneg c
  · rw [List.find?_cons_of_neg (by simpa using hpos), hfind, hopen]
    exact ready_of_neg s.g hneg c
  · rw [List.find?_cons_of_neg (by simpa using hpos), hnone]
    exact ending_ready hpos hend

/-! ## What is left open adds up -/

/-- The call comes to a descriptor, and cannot set it up. -/
def Fails : Op → Prop
  | .opening c k => ¬k.descriptor < 0 ∧ ∃ status ∈ c.checks k, status < 0
  | .other _ => False

theorem step_fails {s s' : Sys} {op : Op} (hf : Fails op) (hs : step s op = some s') :
    ∃ fd, fd ∉ s.own ∧ s' = opened s fd := by
  cases op with
  | opening c k =>
    obtain ⟨hpos, status, hmem, hneg⟩ := hf
    obtain ⟨hfd, hs⟩ := Option.ite_none_left_eq_some.mp hs
    obtain ⟨r, hr, rfl⟩ := Option.map_eq_some_iff.mp hs
    rcases call_cases hr with ⟨hneg', -⟩ | ⟨-, -, hopen, -⟩ | ⟨-, hnone, -⟩
    · exact absurd hneg' hpos
    · exact ⟨k.descriptor, hfd, hopen⟩
    · exact absurd (decide_eq_true hneg) (List.find?_eq_none.mp hnone status hmem)
  | other op => exact hf.elim

/-- Each call that fails so leaves one descriptor more open, and nothing else changes. -/
theorem failures_add_up (ops : List Op) {s s' : Sys} (hf : ∀ op ∈ ops, Fails op)
    (hr : run step s ops = some s') :
    s'.own.length = s.own.length + ops.length ∧ s.own ⊆ s'.own ∧ s'.g = s.g := by
  induction ops generalizing s with
  | nil =>
    obtain rfl := Option.some.inj hr
    exact ⟨rfl, fun _ hm => hm, rfl⟩
  | cons op ops ih =>
    rw [run_cons] at hr
    obtain ⟨s₁, hs, hr⟩ := Option.bind_eq_some_iff.mp hr
    obtain ⟨fd, -, rfl⟩ := step_fails (hf op List.mem_cons_self) hs
    obtain ⟨hlen, hsub, hg⟩ := ih (fun op hop => hf op (List.mem_cons_of_mem _ hop)) hr
    refine ⟨?_, fun f hm => hsub (List.mem_cons_of_mem _ hm), hg⟩
    rw [hlen, List.length_cons]
    show s.own.length + 1 + ops.length = s.own.length + (ops.length + 1)
    omega

end OfConnect.Pool.Opening
