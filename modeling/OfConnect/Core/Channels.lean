import Mathlib.Data.Set.Function
import OfConnect.Core.Consistency
import OfConnect.Lib.Refine
import OfConnect.PollThr.Framing

/-!
# What the tables are for

The library keeps channels: connections of registered devices, each with a name by which the
application speaks of it and a socket by which the threads do. `ChannelMap` is that and nothing
else, and `Does` says what a call may do to it. The three tables refine it: every sequence of calls
whose callers keep to the rules of `Consistency.step` does to the channels what `Does` says, and a
packet goes to the socket of the channel that it is sent to.
-/

namespace OfConnect.Core.Channels

open OfConnect.Lib.Tables OfConnect.Lib.Run OfConnect.Lib.Refine OfConnect.PollThr.Thread
open OfConnect.Core.State OfConnect.Core.Api OfConnect.Core.Effects OfConnect.Core.Consistency

structure Channel where
  name : ChannelKey
  socket : Fd
  device : DevKey
  proto : L4Type
  state : RwState

/-- The channel on the socket `fd` is called `ck` from now on. -/
def Channel.renamed (c : Channel) (fd : Fd) (ck : ChannelKey) : Channel :=
  if c.socket = fd then { c with name := ck } else c

theorem Channel.renamed_socket (c : Channel) (fd : Fd) (ck : ChannelKey) :
    (c.renamed fd ck).socket = c.socket := by
  unfold renamed
  split
  · rfl
  · rfl

/-- Registered devices and their channels. Names and sockets are unique. -/
structure ChannelMap where
  devices : Set DevKey
  channels : Set Channel
  name_unique : Set.InjOn Channel.name channels
  socket_unique : Set.InjOn Channel.socket channels
  registered : ∀ c ∈ channels, c.device ∈ devices

namespace ChannelMap

def empty : ChannelMap := ⟨∅, ∅, Set.injOn_empty _, Set.injOn_empty _, fun _ h => h.elim⟩

def register (m : ChannelMap) (key : DevKey) : ChannelMap where
  devices := insert key m.devices
  channels := m.channels
  name_unique := m.name_unique
  socket_unique := m.socket_unique
  registered c hc := Set.mem_insert_of_mem key (m.registered c hc)

/-- The channels that `p` picks out are left. -/
def keep (m : ChannelMap) (p : Channel → Prop) : ChannelMap where
  devices := m.devices
  channels := {c ∈ m.channels | p c}
  name_unique := m.name_unique.mono (Set.sep_subset _ _)
  socket_unique := m.socket_unique.mono (Set.sep_subset _ _)
  registered c hc := m.registered c hc.1

/-- A device goes with its channels. -/
def unregister (m : ChannelMap) (key : DevKey) : ChannelMap where
  devices := m.devices \ {key}
  channels := {c ∈ m.channels | c.device ≠ key}
  name_unique := m.name_unique.mono (Set.sep_subset _ _)
  socket_unique := m.socket_unique.mono (Set.sep_subset _ _)
  registered c hc := ⟨m.registered c hc.1, hc.2⟩

/-- A channel of a registered device whose name and socket no other channel has. -/
structure Fresh (m : ChannelMap) (c : Channel) : Prop where
  device : c.device ∈ m.devices
  name : ∀ c' ∈ m.channels, c'.name ≠ c.name
  socket : ∀ c' ∈ m.channels, c'.socket ≠ c.socket

def add (m : ChannelMap) (c : Channel) (h : m.Fresh c) : ChannelMap where
  devices := m.devices
  channels := insert c m.channels
  name_unique := by
    refine (Set.injOn_insert fun hc => h.name c hc rfl).mpr ⟨m.name_unique, ?_⟩
    rintro ⟨c', hc', heq⟩
    exact h.name c' hc' heq
  socket_unique := by
    refine (Set.injOn_insert fun hc => h.name c hc rfl).mpr ⟨m.socket_unique, ?_⟩
    rintro ⟨c', hc', heq⟩
    exact h.socket c' hc' heq
  registered := by
    rintro c' (rfl | hc')
    · exact h.device
    · exact m.registered c' hc'

/-- The channel on a socket gets a name that no channel has. -/
def rename (m : ChannelMap) (fd : Fd) (ck : ChannelKey) (h : ∀ c ∈ m.channels, c.name ≠ ck) :
    ChannelMap where
  devices := m.devices
  channels := {c | ∃ c₀ ∈ m.channels, c = c₀.renamed fd ck}
  name_unique := by
    rintro c ⟨c₀, hc₀, rfl⟩ c' ⟨c₁, hc₁, rfl⟩ heq
    unfold Channel.renamed at heq ⊢
    split at heq
    · rename_i hfd
      split at heq
      · rename_i hfd'
        rw [m.socket_unique hc₀ hc₁ (hfd.trans hfd'.symm)]
      · exact absurd heq.symm (h c₁ hc₁)
    · split at heq
      · exact absurd heq (h c₀ hc₀)
      · rename_i hfd hfd'
        rw [if_neg hfd, if_neg hfd', m.name_unique hc₀ hc₁ heq]
  socket_unique := by
    rintro c ⟨c₀, hc₀, rfl⟩ c' ⟨c₁, hc₁, rfl⟩ heq
    rw [Channel.renamed_socket, Channel.renamed_socket] at heq
    rw [m.socket_unique hc₀ hc₁ heq]
  registered := by
    rintro c ⟨c₀, hc₀, rfl⟩
    unfold Channel.renamed
    split
    · exact m.registered c₀ hc₀
    · exact m.registered c₀ hc₀

end ChannelMap

/-- What a call may do. A call that is refused does nothing. A controller names the connections it
accepts after their sockets; they are up at once, and those that a switch opens stay down. Where
`close` fails for the listening socket, `cc_of_devfree_iter` leaves the device registered. -/
inductive Does : ChannelMap → Op → ChannelMap → Prop
  | registerRefused {m key ver cb fd} (h : maxOfverType ≤ ver) :
      Does m (.devRegister key ver cb fd) m
  | register {m key ver cb fd} (h : ver < maxOfverType) :
      Does m (.devRegister key ver cb fd) (m.register key)
  | acceptRefused {m fd key ck block} (h : fd < 0 ∨ key ∉ m.devices) :
      Does m (.accept fd key ck block) m
  | accept {m fd key ck block} (hfd : ¬fd < 0) (h : m.Fresh ⟨dummyKey fd, fd, key, .tcp, .up⟩) :
      Does m (.accept fd key ck block) (m.add _ h)
  | createRefused {m key ck proto fd block} (h : fd < 0 ∨ key ∉ m.devices) :
      Does m (.createChannel key ck proto fd block) m
  | create {m key ck proto fd block} (hfd : ¬fd < 0) (hproto : proto = .tcp ∨ proto = .udp)
      (h : m.Fresh ⟨ck, fd, key, proto, .down⟩) :
      Does m (.createChannel key ck proto fd block) (m.add _ h)
  | setReal {m fd ck} (h : ∀ c ∈ m.channels, c.name ≠ ck) :
      Does m (.setReal fd ck) (m.rename fd ck h)
  | destroyChannel {m ck closeRet} :
      Does m (.destroyChannel ck closeRet) (m.keep fun c => c.name ≠ ck)
  | closeConn {m fd closeRet} : Does m (.closeConn fd closeRet) (m.keep fun c => c.socket ≠ fd)
  | devFree {m key closeRet} : Does m (.devFree key closeRet) (m.unregister key)
  | devfreeIter {m key closeRet} : Does m (.devfreeIter key closeRet) (m.unregister key)
  | devfreeIterKept {m key closeRet} (h : ∃ fd, closeRet fd < 0) :
      Does m (.devfreeIter key closeRet) (m.keep fun c => c.device ≠ key)

/-! ## The tables -/

/-- The channel has its name in `ofchannel_htbl` and its entry in `ofrw_htbl`. -/
def Entered (g : Global) (c : Channel) : Prop :=
  Names g c.name c.socket ∧ ∃ info, g.ofrwHtbl.lookup c.socket = some info ∧
    info.devKey = c.device ∧ info.layer4Proto = c.proto ∧ info.state = c.state

/-- The tables stand for these devices and channels; every socket has a thread. -/
structure Represents (g : Global) (m : ChannelMap) : Prop where
  devices : ∀ k, k ∈ m.devices ↔ k ∈ g.ofdevHtbl
  channels : ∀ c, c ∈ m.channels ↔ Entered g c
  managed : ∀ fd info, g.ofrwHtbl.lookup fd = some info → info.thrMgr ≠ none

theorem Represents.name_free {g : Global} {m : ChannelMap} {ck : ChannelKey} (h : Represents g m)
    (hck : ck ∉ g.ofchannelHtbl) : ∀ c ∈ m.channels, c.name ≠ ck := by
  rintro c hc rfl
  exact hck ((h.channels c).mp hc).1.mem

theorem Represents.socket_free {g : Global} {m : ChannelMap} {fd : Fd} (h : Represents g m)
    (hfd : fd ∉ g.ofrwHtbl) : ∀ c ∈ m.channels, c.socket ≠ fd := by
  rintro c hc rfl
  obtain ⟨-, info, hl, -⟩ := (h.channels c).mp hc
  exact hfd (mem_iff_lookup.mpr ⟨info, hl⟩)

theorem represents_empty (devType : DevType) :
    Represents (ccOfLibInit devType) ChannelMap.empty := by
  refine ⟨fun k => ?_, fun c => ?_, fun fd info hl => ?_⟩
  · exact iff_of_false (Set.notMem_empty k) fun hk => by
      obtain ⟨d, hd⟩ := mem_iff_lookup.mp hk
      cases hd
  · refine iff_of_false (Set.notMem_empty c) ?_
    rintro ⟨⟨ci, hci, -⟩, -⟩
    cases hci
  · cases hl

section Steps

variable {g g' : Global} {m : ChannelMap}

/-- Nothing that the channels depend on has changed. -/
theorem Represents.congr (h : Represents g m) (hd : ∀ k, k ∈ g'.ofdevHtbl ↔ k ∈ g.ofdevHtbl)
    (hc : ∀ k, g'.ofchannelHtbl.lookup k = g.ofchannelHtbl.lookup k)
    (hr : ∀ f, g'.ofrwHtbl.lookup f = g.ofrwHtbl.lookup f) : Represents g' m := by
  refine ⟨fun k => (h.devices k).trans (hd k).symm, fun c => (h.channels c).trans ?_,
    fun fd info hl => h.managed fd info (by rw [← hr]; exact hl)⟩
  simp only [Entered, Names, hc, hr]

/-! ### Opening -/

theorem entered_added {fd : Fd} {dev : DevInfo} {ck : ChannelKey} {info : RwInfo}
    (hs : Consistent g) (hfd : fd ∉ g.ofrwHtbl) (hck : ck ∉ g.ofchannelHtbl)
    (ha : Added g g' fd dev ck info) (c : Channel) :
    Entered g' c ↔ c = ⟨ck, fd, info.devKey, info.layer4Proto, info.state⟩ ∨ Entered g c := by
  unfold Entered
  rw [ha.names_iff, ha.ofrw]
  constructor
  · rintro ⟨⟨hname, hsock⟩ | ⟨-, hn⟩, i, hl, hdev, hproto, hstate⟩
    · rw [if_pos hsock] at hl
      obtain rfl := Option.some.inj hl
      left
      rw [hdev, hproto, hstate, ← hname, ← hsock]
    · have hne : c.socket ≠ fd := fun heq => hfd (heq ▸ hs.channel_socket c.name c.socket hn)
      rw [if_neg hne] at hl
      exact .inr ⟨hn, i, hl, hdev, hproto, hstate⟩
  · rintro (rfl | ⟨hn, i, hl, hrest⟩)
    · exact ⟨.inl ⟨rfl, rfl⟩, info, if_pos rfl, rfl, rfl, rfl⟩
    · have hne : c.socket ≠ fd := by
        intro heq
        exact hfd (heq ▸ mem_iff_lookup.mpr ⟨i, hl⟩)
      refine ⟨.inr ⟨fun heq => hck (heq ▸ hn.mem), hn⟩, i, ?_, hrest⟩
      rw [if_neg hne]
      exact hl

theorem represents_added {fd : Fd} {dev : DevInfo} {ck : ChannelKey} {info : RwInfo}
    (h : Represents g m) (hs : Consistent g) (hfd : fd ∉ g.ofrwHtbl) (hck : ck ∉ g.ofchannelHtbl)
    (ha : Added g g' fd dev ck info) :
    ∃ hfresh : m.Fresh ⟨ck, fd, info.devKey, info.layer4Proto, info.state⟩,
      Represents g' (m.add _ hfresh) := by
  have hreg : info.devKey ∈ g.ofdevHtbl := mem_iff_lookup.mpr ⟨dev, ha.registered⟩
  refine ⟨⟨(h.devices _).mpr hreg, h.name_free hck, h.socket_free hfd⟩, fun k => ?_, fun c => ?_,
    fun f i hl => ?_⟩
  · show k ∈ m.devices ↔ k ∈ g'.ofdevHtbl
    rw [ha.ofdev, h.devices, AList.mem_insert]
    constructor
    · exact .inr
    · rintro (rfl | hk)
      · exact hreg
      · exact hk
  · show c = _ ∨ c ∈ m.channels ↔ Entered g' c
    rw [entered_added hs hfd hck ha, h.channels]
  · rw [ha.ofrw] at hl
    split at hl
    · obtain rfl := Option.some.inj hl
      obtain ⟨t, -, ht⟩ := ha.managed
      rw [ht]
      exact Option.some_ne_none t
    · exact h.managed f i hl

theorem represents_rolledBack {fd : Fd} (h : Represents g m) (hfd : fd ∉ g.ofrwHtbl)
    (hr : RolledBack g g' fd) : Represents g' m :=
  h.congr (fun k => by rw [hr.ofdev]) (fun k => by rw [hr.ofchannel]) (hr.lookup_ofrw hfd)

theorem does_accept {fd : Fd} {key : DevKey} {ck : ChannelKey} {block : SockAddr} {ret : Ret}
    (h : Represents g m) (hs : Consistent g) (htype : g.ofdevType = .controller)
    (hfd : fd ∉ g.ofrwHtbl) (hck : dummyKey fd ∉ g.ofchannelHtbl)
    (hr : tcpAccept g fd key ck block = some (ret, g')) :
    ∃ m', Does m (.accept fd key ck block) m' ∧ Represents g' m' := by
  unfold tcpAccept at hr
  split at hr
  · rename_i hneg
    obtain ⟨-, rfl⟩ := Prod.mk.inj (Option.some.inj hr)
    exact ⟨m, .acceptRefused (.inl hneg), h⟩
  · rename_i hpos
    obtain ⟨⟨ret₁, g₁⟩, hadd, hret⟩ := Option.map_eq_some_iff.mp hr
    rcases addSockfd_cases hadd with ⟨rfl, hnone, hrb⟩ | ⟨dev, t, rfl, ha⟩
    · rw [if_pos (show ccOfEinval < 0 by decide)] at hret
      obtain ⟨-, rfl⟩ := Prod.mk.inj hret
      refine ⟨m, .acceptRefused (.inr fun hk => ?_), represents_rolledBack h hfd hrb⟩
      exact AList.lookup_eq_none.mp hnone ((h.devices key).mp hk)
    · have hdev : g₁.ofdevHtbl.lookup key =
          some { dev with ofrwSocketList := dev.ofrwSocketList ++ [fd] } := by
        rw [ha.ofdev, lookup_insert_eq, if_pos rfl]
      simp only [if_neg (show ¬ccOfOk < 0 by decide), hdev] at hret
      obtain rfl : (setRwUp g₁ fd).2 = g' := congrArg Prod.snd hret
      rw [htype] at ha
      obtain ⟨hfresh, hrep⟩ := represents_added h hs hfd hck (added_setRwUp ha)
      exact ⟨m.add _ hfresh, .accept hpos hfresh, hrep⟩

theorem does_create {fd : Fd} {key : DevKey} {proto : L4Type} {ck : ChannelKey} {block : SockAddr}
    {ret : Ret} (h : Represents g m) (hs : Consistent g) (htype : g.ofdevType = .switch)
    (hfd : fd ∉ g.ofrwHtbl) (hck : ck ∉ g.ofchannelHtbl)
    (hr : ccOfCreateChannel g key ck proto fd block = some (ret, g')) :
    ∃ m', Does m (.createChannel key ck proto fd block) m' ∧ Represents g' m' := by
  rcases createChannel_cases hr with ⟨hneg, heq⟩ | ⟨hpos, hproto, q, hq, heq⟩
  · obtain ⟨-, rfl⟩ := Prod.mk.inj heq
    exact ⟨m, .createRefused (.inl hneg), h⟩
  · obtain ⟨-, rfl⟩ := Prod.mk.inj heq
    have hopen : openKey g.ofdevType fd ck = ck := by rw [htype]; rfl
    rcases addSockfd_cases hq with ⟨-, hnone, hrb⟩ | ⟨dev, t, -, ha⟩
    · refine ⟨m, .createRefused (.inr fun hk => ?_), represents_rolledBack h hfd hrb⟩
      exact AList.lookup_eq_none.mp hnone ((h.devices key).mp hk)
    · rw [hopen] at ha
      obtain ⟨hfresh, hrep⟩ := represents_added h hs hfd hck ha
      exact ⟨m.add _ hfresh, .create hpos hproto hfresh, hrep⟩

/-! ### Closing -/

theorem entered_closed {fd : Fd} {key : DevKey} {dev : DevInfo} (hc : Closed g g' fd key dev)
    (c : Channel) : Entered g' c ↔ Entered g c ∧ c.socket ≠ fd := by
  unfold Entered
  rw [hc.names_iff, hc.ofrw]
  constructor
  · rintro ⟨⟨hn, hne⟩, i, hl, hrest⟩
    rw [if_neg hne] at hl
    exact ⟨⟨hn, i, hl, hrest⟩, hne⟩
  · rintro ⟨⟨hn, i, hl, hrest⟩, hne⟩
    refine ⟨⟨hn, hne⟩, i, ?_, hrest⟩
    rw [if_neg hne]
    exact hl

theorem mem_ofdev_closed {fd : Fd} {key : DevKey} {dev : DevInfo}
    (hd : g.ofdevHtbl.lookup key = some dev) (hc : Closed g g' fd key dev) (k : DevKey) :
    k ∈ g'.ofdevHtbl ↔ k ∈ g.ofdevHtbl := by
  rw [mem_iff_lookup, mem_iff_lookup, hc.ofdev]
  by_cases hk : k = key
  · subst hk
    simp [hd]
  · simp [hk]

theorem managed_closed {fd : Fd} {key : DevKey} {dev : DevInfo} (hc : Closed g g' fd key dev)
    (h : ∀ f info, g.ofrwHtbl.lookup f = some info → info.thrMgr ≠ none) :
    ∀ f info, g'.ofrwHtbl.lookup f = some info → info.thrMgr ≠ none := by
  intro f info hl
  rw [hc.ofrw] at hl
  split at hl
  · cases hl
  · exact h f info hl

theorem represents_closeConn {fd : Fd} {info : RwInfo} {closeRet : Int} {ret : Ret}
    (h : Represents g m) (hp : Pooled g) (hl : g.ofrwHtbl.lookup fd = some info)
    (hc : closeConn g info.layer4Proto fd closeRet = some (ret, g')) :
    Represents g' (m.keep fun c => c.socket ≠ fd) := by
  obtain ⟨-, dev, hd, hclosed⟩ := closeConn_spec hp hl hc
  refine ⟨fun k => ?_, fun c => ?_, managed_closed hclosed h.managed⟩
  · rw [mem_ofdev_closed hd hclosed]
    exact h.devices k
  · rw [entered_closed hclosed, ← h.channels]
    rfl

/-- The channel of a name is the one on its socket. -/
theorem Represents.keep_name {ck : ChannelKey} {fd : Fd} (h : Represents g m) (hs : Consistent g)
    (hn : Names g ck fd) (hrep : Represents g' (m.keep fun c => c.socket ≠ fd)) :
    Represents g' (m.keep fun c => c.name ≠ ck) := by
  refine ⟨hrep.devices, fun c => Iff.trans ?_ (hrep.channels c), hrep.managed⟩
  refine and_congr_right fun hc => not_congr ?_
  have hname := ((h.channels c).mp hc).1
  constructor
  · intro heq
    exact (heq ▸ hname).unique hn
  · intro heq
    obtain ⟨k, -, huniq⟩ := hs.socket_named fd (hs.channel_socket ck fd hn)
    exact (huniq c.name (heq ▸ hname)).trans (huniq ck hn).symm

theorem does_destroy {ck : ChannelKey} {closeRet : Int} {r : Ret × Global} (h : Represents g m)
    (hs : Sound g) (hr : ccOfDestroyChannel g ck closeRet = some r) :
    Represents r.2 (m.keep fun c => c.name ≠ ck) := by
  rcases destroyChannel_cases hr with ⟨hsame, hnone⟩ | ⟨fd, info, hn, hl, hr⟩
  · rw [hsame]
    refine ⟨h.devices, fun c => ?_, h.managed⟩
    rw [← h.channels]
    refine and_iff_left_of_imp fun hc heq => ?_
    obtain ⟨hn, info, hl, -⟩ := (h.channels c).mp hc
    exact hnone c.socket (heq ▸ hn) (mem_iff_lookup.mpr ⟨info, hl⟩)
  · exact h.keep_name hs.1 hn (represents_closeConn h hs.2 hl hr)

/-! ### Renaming -/

theorem names_setReal {fd : Fd} {info : ChannelInfo} {ck : ChannelKey}
    (hold : g.ofchannelHtbl.lookup (dummyKey fd) = some info) (hfd : info.rwSockfd = fd)
    (hck : ck ∉ g.ofchannelHtbl) (c : ChannelKey) (f : Fd) :
    Names (ccOfSetRealDpidAuxid g (dummyKey fd).dpId (dummyKey fd).auxId ck).2 c f ↔
      (c = ck ∧ f = fd) ∨ (Names g c f ∧ f ≠ fd) := by
  unfold Names
  rw [lookup_setReal ck hold]
  by_cases hc : c = ck
  · subst hc
    simp [AList.lookup_eq_none.mpr hck, hfd, eq_comm]
  · rw [if_neg hc]
    simp only [lookup_foreachRemove_iff, hc, false_and, false_or]
    constructor
    · rintro ⟨ci, ⟨hci, hne⟩, rfl⟩
      exact ⟨⟨ci, hci, rfl⟩, by simpa using hne⟩
    · rintro ⟨⟨ci, hci, rfl⟩, hne⟩
      exact ⟨ci, ⟨hci, by simpa using hne⟩, rfl⟩

theorem represents_setReal {fd : Fd} {info : ChannelInfo} {ck : ChannelKey} (h : Represents g m)
    (hold : g.ofchannelHtbl.lookup (dummyKey fd) = some info) (hfd : info.rwSockfd = fd)
    (hck : ck ∉ g.ofchannelHtbl) :
    Represents (ccOfSetRealDpidAuxid g (dummyKey fd).dpId (dummyKey fd).auxId ck).2
      (m.rename fd ck (h.name_free hck)) := by
  obtain ⟨hdev, hrw, -⟩ := setReal_tables g (dummyKey fd).dpId (dummyKey fd).auxId ck
  have hname := names_setReal hold hfd hck
  refine ⟨fun k => by rw [hdev]; exact h.devices k, fun c => ?_, by rw [hrw]; exact h.managed⟩
  unfold Entered
  rw [hname, hrw]
  constructor
  · rintro ⟨c₀, hc₀, rfl⟩
    obtain ⟨hn, i, hl, hrest⟩ := (h.channels c₀).mp hc₀
    by_cases hsock : c₀.socket = fd
    · rw [show c₀.renamed fd ck = { c₀ with name := ck } from if_pos hsock]
      exact ⟨.inl ⟨rfl, hsock⟩, i, hl, hrest⟩
    · rw [show c₀.renamed fd ck = c₀ from if_neg hsock]
      exact ⟨.inr ⟨hn, hsock⟩, i, hl, hrest⟩
  · rintro ⟨⟨hck', hsock⟩ | ⟨hn, hsock⟩, i, hl, hrest⟩
    · -- the channel that had the dummy name
      refine ⟨{ c with name := dummyKey fd }, (h.channels _).mpr ⟨?_, i, hl, hrest⟩, ?_⟩
      · exact ⟨info, hold, hfd.trans hsock.symm⟩
      · unfold Channel.renamed
        rw [if_pos hsock, ← hck']
    · refine ⟨c, (h.channels c).mpr ⟨hn, i, hl, hrest⟩, ?_⟩
      unfold Channel.renamed
      rw [if_neg hsock]

/-! ### Devices -/

theorem does_register {key : DevKey} {ver : Nat} {cb : Callbacks} {fd : Fd} {ret : Ret}
    (h : Represents g m) (hr : ccOfDevRegister g key ver cb fd = some (ret, g')) :
    ∃ m', Does m (.devRegister key ver cb fd) m' ∧ Represents g' m' := by
  rcases devRegister_cases hr with ⟨hver, rfl⟩ | ⟨hver, d, t, -, hg, hd⟩
  · exact ⟨m, .registerRefused hver, h⟩
  · have hc : g'.ofchannelHtbl = g.ofchannelHtbl := by rw [hg]
    have hrw : g'.ofrwHtbl = g.ofrwHtbl := by rw [hg]
    refine ⟨m.register key, .register hver, fun k => ?_, fun c => ?_, by rw [hrw]; exact h.managed⟩
    · show k = key ∨ k ∈ m.devices ↔ k ∈ g'.ofdevHtbl
      rw [mem_iff_lookup, hd, h.devices, mem_iff_lookup]
      by_cases hk : k = key
      · simp [hk]
      · simp [hk]
    · unfold Entered Names
      rw [hc, hrw]
      exact h.channels c

/-- The walk over a list of sockets takes out the channels on them. -/
theorem represents_closeSockets {closeRet : Fd → Int} (l : List Fd) {g : Global} {m : ChannelMap}
    (h : Represents g m) (hp : Pooled g) (hw : closeSockets closeRet l g = some g') :
    Represents g' (m.keep fun c => c.socket ∉ l) ∧ Pooled g' := by
  induction l generalizing g m with
  | nil =>
    obtain rfl := Option.some.inj hw
    refine ⟨⟨h.devices, fun c => ?_, h.managed⟩, hp⟩
    rw [← h.channels]
    exact and_iff_left List.not_mem_nil
  | cons fd rest ih =>
    unfold closeSockets at hw
    split at hw
    · cases hw
    · rename_i info hl
      obtain ⟨r, hr, hw⟩ := Option.bind_eq_some_iff.mp hw
      obtain ⟨-, dev, -, hclosed⟩ := closeConn_spec hp hl hr
      obtain ⟨hrep, hp'⟩ := ih (represents_closeConn h hp hl hr) (hclosed.pooled hp) hw
      refine ⟨⟨hrep.devices, fun c => ?_, hrep.managed⟩, hp'⟩
      rw [← hrep.channels]
      show c ∈ m.channels ∧ c.socket ∉ fd :: rest ↔
        (c ∈ m.channels ∧ c.socket ≠ fd) ∧ c.socket ∉ rest
      rw [List.mem_cons, not_or, and_assoc]

/-- A device lists the sockets of its channels. -/
theorem listed_iff {key : DevKey} {dev : DevInfo} {c : Channel} (hs : Consistent g)
    (hd : g.ofdevHtbl.lookup key = some dev) (hc : Entered g c) :
    c.socket ∈ dev.ofrwSocketList ↔ c.device = key := by
  obtain ⟨-, info, hl, hdev, -⟩ := hc
  constructor
  · intro hmem
    obtain ⟨i, hi, hkey⟩ := hs.listed_socket key dev c.socket hd hmem
    obtain rfl := Option.some.inj (hl.symm.trans hi)
    exact hdev.symm.trans hkey
  · intro hkey
    obtain ⟨d, hd', hcount⟩ := hs.socket_listed c.socket info hl
    rw [hdev, hkey, hd] at hd'
    obtain rfl := Option.some.inj hd'
    exact List.count_pos_iff.mp (by omega)

theorem represents_devFreeLockfree {closeRet : Fd → Int} {key : DevKey} {r : Ret × Global}
    (h : Represents g m) (hs : Sound g) (hf : ccOfDevFreeLockfree g key closeRet = some r) :
    Represents r.2 (m.keep fun c => c.device ≠ key) ∧ ∃ fd, r.1 = closeRet fd := by
  unfold ccOfDevFreeLockfree at hf
  cases hd : g.ofdevHtbl.lookup key with
  | none =>
    rw [hd] at hf
    cases hf
  | some dev =>
    simp only [hd] at hf
    obtain ⟨g₁, hw, hf⟩ := Option.bind_eq_some_iff.mp hf
    obtain ⟨t, -, rfl⟩ := Option.map_eq_some_iff.mp hf
    obtain ⟨hrep, -⟩ := represents_closeSockets _ h hs.2 hw
    refine ⟨⟨hrep.devices, fun c => Iff.trans ?_ (hrep.channels c), hrep.managed⟩, _, rfl⟩
    refine and_congr_right fun hc => not_congr ?_
    exact (listed_iff hs.1 hd ((h.channels c).mp hc)).symm

/-- The record of a device goes when its channels are gone. -/
theorem Represents.unregister {key : DevKey} (h : Represents g (m.keep fun c => c.device ≠ key)) :
    Represents { g with ofdevHtbl := g.ofdevHtbl.erase key } (m.unregister key) := by
  refine ⟨fun k => ?_, h.channels, h.managed⟩
  show k ∈ m.devices ∧ k ≠ key ↔ k ∈ g.ofdevHtbl.erase key
  rw [AList.mem_erase, and_comm, ← h.devices]
  rfl

end Steps

/-! ## Runs -/

/-- The calls refine the specification, in every state that they leave consistent. -/
theorem simulates :
    Simulates step Does fun g m => Sound g ∧ Represents g m := by
  rintro g op g' m ⟨hs, h⟩ hstep
  have hs' := sound_step hs hstep
  suffices hdoes : ∃ m', Does m op m' ∧ Represents g' m' by
    obtain ⟨m', hdoes, h'⟩ := hdoes
    exact ⟨m', hdoes, hs', h'⟩
  cases op with
  | devRegister key ver cb fd =>
    obtain ⟨-, hstep⟩ := Option.ite_none_left_eq_some.mp hstep
    obtain ⟨r, hr, rfl⟩ := Option.map_eq_some_iff.mp hstep
    exact does_register h hr
  | accept fd key ck block =>
    obtain ⟨⟨htype, hfd, hck⟩, hstep⟩ := Option.ite_none_right_eq_some.mp hstep
    obtain ⟨r, hr, rfl⟩ := Option.map_eq_some_iff.mp hstep
    exact does_accept h hs.1 htype hfd hck hr
  | createChannel key ck proto fd block =>
    obtain ⟨⟨htype, hfd, hck⟩, hstep⟩ := Option.ite_none_right_eq_some.mp hstep
    obtain ⟨r, hr, rfl⟩ := Option.map_eq_some_iff.mp hstep
    exact does_create h hs.1 htype hfd hck hr
  | setReal fd ck =>
    obtain ⟨⟨hold, hck⟩, hstep⟩ := Option.ite_none_right_eq_some.mp hstep
    obtain ⟨info, hold, hfd⟩ := Option.map_eq_some_iff.mp hold
    obtain rfl := Option.some.inj hstep
    exact ⟨_, .setReal (h.name_free hck), represents_setReal h hold hfd hck⟩
  | destroyChannel ck closeRet =>
    obtain ⟨r, hr, rfl⟩ := Option.map_eq_some_iff.mp hstep
    exact ⟨_, .destroyChannel, does_destroy h hs hr⟩
  | closeConn fd closeRet =>
    obtain ⟨info, hl, hstep⟩ := Option.bind_eq_some_iff.mp hstep
    obtain ⟨r, hr, rfl⟩ := Option.map_eq_some_iff.mp hstep
    exact ⟨_, .closeConn, represents_closeConn h hs.2 hl hr⟩
  | devFree key closeRet =>
    obtain ⟨q, hq, rfl⟩ := Option.map_eq_some_iff.mp hstep
    unfold ccOfDevFree at hq
    split at hq
    · obtain ⟨r, hr, rfl⟩ := Option.map_eq_some_iff.mp hq
      obtain ⟨hrep, -⟩ := represents_devFreeLockfree h hs hr
      obtain ⟨-, -, dev, hd, -⟩ := devFreeLockfree_spec hs.1 hs.2 hr
      refine ⟨_, .devFree, ?_⟩
      simp only [updateGlobalHtblLockfree, if_pos (mem_iff_lookup.mpr ⟨dev, hd⟩)]
      exact hrep.unregister
    · cases hq
  | devfreeIter key closeRet =>
    obtain ⟨r, hr, rfl⟩ := Option.map_eq_some_iff.mp hstep
    obtain ⟨hrep, fd, hret⟩ := represents_devFreeLockfree h hs hr
    split
    · rename_i hneg
      exact ⟨_, .devfreeIterKept ⟨fd, hret ▸ hneg⟩, hrep⟩
    · exact ⟨_, .devfreeIter, hrep.unregister⟩

/-- A packet for the name of a channel goes to its socket. -/
theorem sends_to_socket {g : Global} {m : ChannelMap} (h : Represents g m) {c : Channel}
    (hc : c ∈ m.channels) (ofMsg : List UInt8) :
    ∃ tmgr, PollThr.Framing.ccOfSendPkt g c.name.dpId c.name.auxId (some ofMsg) =
      (ccOfOk, some ⟨tmgr, c.socket, ofMsg⟩) := by
  obtain ⟨⟨ci, hci, hsock⟩, info, hl, -⟩ := (h.channels c).mp hc
  obtain ⟨tmgr, htmgr⟩ := Option.ne_none_iff_exists'.mp (h.managed c.socket info hl)
  refine ⟨tmgr, ?_⟩
  have hsend : PollThr.Framing.sendSocket g c.name.dpId c.name.auxId = some c.socket := by
    unfold PollThr.Framing.sendSocket
    rw [hci, Option.some_or, Option.map_some, hsock]
  have hfind : (findThrmgrRwsocketLockfree g c.socket).join = some tmgr := by
    simp [findThrmgrRwsocketLockfree, hl, htmgr]
  simp only [PollThr.Framing.ccOfSendPkt, hsend, hfind]

/-- A controller registers a device, accepts two connections and learns the name of one. -/
def learnsName : List Op :=
  [.devRegister ⟨1, 0, 6633⟩ 0 ⟨0, 0, 0⟩ 4, .accept 5 ⟨1, 0, 6633⟩ ⟨0, 0⟩ ⟨0, 0⟩,
    .accept 6 ⟨1, 0, 6633⟩ ⟨0, 0⟩ ⟨0, 0⟩, .setReal 6 ⟨42, 0⟩]

end OfConnect.Core.Channels
