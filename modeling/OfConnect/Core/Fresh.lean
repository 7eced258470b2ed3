import OfConnect.Core.Keys

/-!
# The keys of new connections

A controller enters a connection under the dummy key of its descriptor, and does not look
whether the key is in use. Whether it is depends on the real keys that were set before and on
the descriptors that the kernel gives out later. Over every run that accepts connections, sets
keys and closes connections, the dummy key of a descriptor that may come next is free exactly if
no real key was a dummy key of such a descriptor when it was set, or has become one since.
-/

namespace OfConnect.Core.Fresh

open OfConnect.Lib.Tables OfConnect.Lib.Run OfConnect.PollThr.Thread OfConnect.Core.State
open OfConnect.Core.Api OfConnect.Core.Effects OfConnect.Core.Keys
open OfConnect.Core.Consistency (dummyKey_injective setReal_tables)

/-- A descriptor that the kernel may give out next. -/
def Unused (g : Global) (fd : Fd) : Prop := ¬fd < 0 ∧ fd ∉ g.ofrwHtbl

/-- A new connection takes no key that is in use, and so no channel is lost to it. -/
def NeverSteals (g : Global) : Prop :=
  ∀ fd, Unused g fd → dummyKey fd ∉ g.ofchannelHtbl ∧
    ∀ key proto channKey block r,
      ccAddSockfdRwPollthrSafe g fd key proto channKey block = some r →
      ∀ ck info, g.ofchannelHtbl.lookup ck = some info → r.2.ofchannelHtbl.lookup ck = some info

inductive Op where
  | devRegister (key : DevKey) (maxOfver : Nat) (callbacks : Callbacks) (listenfd : Fd)
  | accept (connfd : Fd) (key : DevKey) (channKey : ChannelKey) (block : SockAddr)
  | setReal (dummyDpid : UInt64) (dummyAuxid : UInt8) (ck : ChannelKey)
  | destroyChannel (ck : ChannelKey) (closeRet : Int)
  | closeConn (sockfd : Fd) (closeRet : Int)

/-- One call; the kernel gives out no descriptor that is entered. -/
def step (g : Global) : Op → Option Global
  | .devRegister key maxOfver callbacks listenfd =>
    (ccOfDevRegister g key maxOfver callbacks listenfd).map Prod.snd
  | .accept connfd key channKey block =>
    if connfd ∈ g.ofrwHtbl then none else (tcpAccept g connfd key channKey block).map Prod.snd
  | .setReal dummyDpid dummyAuxid ck => some (ccOfSetRealDpidAuxid g dummyDpid dummyAuxid ck).2
  | .destroyChannel ck closeRet => (ccOfDestroyChannel g ck closeRet).map Prod.snd
  | .closeConn sockfd closeRet =>
    (g.ofrwHtbl.lookup sockfd).bind fun rwinfo =>
      (closeConn g rwinfo.layer4Proto sockfd closeRet).map Prod.snd

/-- No other socket has got the dummy key of this one. -/
def OwnDummy (g : Global) (fd : Fd) : Prop :=
  ¬fd < 0 → ∀ fd', Names g (dummyKey fd) fd' → fd' = fd

/-- A channel is given no dummy key of a descriptor that may come next, and a socket that is
closed leaves no channel behind that has its dummy key. -/
def AvoidsDummies (g : Global) : Op → Prop
  | .setReal dummyDpid dummyAuxid ck =>
    ∀ k, matchedKey g dummyDpid dummyAuxid = some k → ∀ fd, Unused g fd → ck ≠ dummyKey fd
  | .destroyChannel ck _ => ∀ fd, Names g ck fd → OwnDummy g fd
  | .closeConn sockfd _ => OwnDummy g sockfd
  | _ => True

/-! ## The keys that are free -/

def DummiesFree (g : Global) : Prop := ∀ fd, Unused g fd → dummyKey fd ∉ g.ofchannelHtbl

theorem neverSteals_iff {g : Global} (htype : g.ofdevType = .controller) :
    NeverSteals g ↔ DummiesFree g := by
  constructor
  · intro h fd hfd
    exact (h fd hfd).1
  · intro h fd hfd
    refine ⟨h fd hfd, fun key proto channKey block r hr ck info hl => ?_⟩
    rcases addSockfd_cases hr with ⟨-, -, hrb⟩ | ⟨dev, m, -, ha⟩
    · rw [hrb.ofchannel, hl]
    · have hne : ck ≠ dummyKey fd := by
        rintro rfl
        exact h fd hfd (mem_iff_lookup.mpr ⟨info, hl⟩)
      rw [ha.ofchannel, htype, lookup_insert_eq]
      show (if ck = dummyKey fd then _ else _) = _
      rw [if_neg hne, hl]

/-- What every call keeps: the managers are in the pool, and a key names a socket. -/
structure Inv (g : Global) : Prop where
  controller : g.ofdevType = .controller
  pooled : Pooled g
  channel_socket : ∀ ck fd, Names g ck fd → fd ∈ g.ofrwHtbl

theorem mem_ofchannel_iff {g : Global} {ck : ChannelKey} :
    ck ∈ g.ofchannelHtbl ↔ ∃ fd, Names g ck fd := by
  constructor
  · intro h
    obtain ⟨info, hl⟩ := mem_iff_lookup.mp h
    exact ⟨info.rwSockfd, info, hl, rfl⟩
  · rintro ⟨fd, hn⟩
    exact hn.mem

section Tables

variable {g g' : Global}

theorem dummiesFree_congr (hrw : ∀ f, f ∈ g'.ofrwHtbl ↔ f ∈ g.ofrwHtbl)
    (hch : g'.ofchannelHtbl = g.ofchannelHtbl) (h : DummiesFree g) : DummiesFree g' := by
  intro fd hfd
  rw [hch]
  exact h fd ⟨hfd.1, fun hmem => hfd.2 ((hrw fd).mpr hmem)⟩

/-! ## Accepting -/

theorem inv_opens {fd : Fd} {key : DevKey} {ck : ChannelKey} (h : Inv g)
    (hfd : fd ∉ g.ofrwHtbl) (ho : Opens g g' fd key ck) :
    Inv g' ∧ (DummiesFree g → DummiesFree g') := by
  rcases ho with ⟨-, rfl⟩ | ⟨-, -, hr⟩ | ⟨dev, info, -, -, ha⟩
  · exact ⟨h, id⟩
  · have hmem : ∀ f, f ∈ g'.ofrwHtbl ↔ f ∈ g.ofrwHtbl := by
      intro f
      rw [mem_iff_lookup, mem_iff_lookup, hr.lookup_ofrw hfd]
    refine ⟨⟨hr.ofdevType.trans h.controller, hr.pooled h.pooled, fun c f hn => ?_⟩,
      dummiesFree_congr hmem hr.ofchannel⟩
    refine (hmem f).mpr (h.channel_socket c f ?_)
    simpa only [Names, hr.ofchannel] using hn
  · refine ⟨⟨ha.ofdevType.trans h.controller, ha.pooled h.pooled, fun c f hn => ?_⟩, ?_⟩
    · rcases ha.names_iff.mp hn with ⟨-, rfl⟩ | ⟨-, hn⟩
      · exact ha.mem_iff.mpr (.inl rfl)
      · exact ha.mem_iff.mpr (.inr (h.channel_socket c f hn))
    · -- the new key is a dummy key too, but of a socket that is entered now
      intro hfree f hf hmem
      obtain ⟨f', hn⟩ := mem_ofchannel_iff.mp hmem
      rcases ha.names_iff.mp hn with ⟨heq, -⟩ | ⟨-, hn⟩
      · rw [h.controller] at heq
        exact hf.2 (ha.mem_iff.mpr (.inl (dummyKey_injective heq)))
      · exact hfree f ⟨hf.1, fun hin => hf.2 (ha.mem_iff.mpr (.inr hin))⟩ hn.mem

/-! ## Closing -/

theorem inv_closed {fd : Fd} {key : DevKey} {dev : DevInfo} (h : Inv g)
    (hc : Closed g g' fd key dev) : Inv g' := by
  refine ⟨hc.ofdevType.trans h.controller, hc.pooled h.pooled, fun c f hn => ?_⟩
  obtain ⟨hn, hne⟩ := hc.names_iff.mp hn
  exact hc.mem_iff.mpr ⟨h.channel_socket c f hn, hne⟩

/-- The socket that was closed may come next. -/
theorem dummiesFree_closed_iff {fd : Fd} {key : DevKey} {dev : DevInfo}
    (hfree : DummiesFree g) (hc : Closed g g' fd key dev) : DummiesFree g' ↔ OwnDummy g fd := by
  constructor
  · intro h hpos fd' hn
    by_contra hne
    refine h fd ⟨hpos, fun hmem => (hc.mem_iff.mp hmem).2 rfl⟩ ?_
    exact (hc.names_iff.mpr ⟨hn, hne⟩).mem
  · intro h f hf hmem
    obtain ⟨f', hn⟩ := mem_ofchannel_iff.mp hmem
    obtain ⟨hn, hne⟩ := hc.names_iff.mp hn
    by_cases hffd : f = fd
    · subst hffd
      exact hne (h hf.1 f' hn)
    · exact hfree f ⟨hf.1, fun hin => hf.2 (hc.mem_iff.mpr ⟨hin, hffd⟩)⟩ hn.mem

/-! ## Setting a key -/

theorem names_setReal {d : UInt64} {a : UInt8} {ck k : ChannelKey} {info : ChannelInfo}
    (hk : matchedKey g d a = some k) (hl : g.ofchannelHtbl.lookup k = some info) {c : ChannelKey}
    {f : Fd} (hn : Names (ccOfSetRealDpidAuxid g d a ck).2 c f) :
    (c = ck ∧ Names g k f) ∨ Names g c f := by
  obtain ⟨ci, hci, hf⟩ := hn
  rw [(setReal_of_matched ck hk hl).2] at hci
  split at hci
  · rename_i hc
    obtain rfl := Option.some.inj hci
    exact .inl ⟨hc, info, hl, hf⟩
  · exact .inr ⟨ci, (lookup_foreachRemove_iff.mp hci).1, hf⟩

theorem inv_setReal (h : Inv g) (d : UInt64) (a : UInt8) (ck : ChannelKey) :
    Inv (ccOfSetRealDpidAuxid g d a ck).2 := by
  cases hk : matchedKey g d a with
  | none =>
    rw [setReal_of_unmatched ck hk]
    exact h
  | some k =>
    obtain ⟨info, hl⟩ := mem_iff_lookup.mp (matchedKey_mem hk)
    obtain ⟨-, hrw, hpool⟩ := setReal_tables g d a ck
    refine ⟨?_, ?_, fun c f hn => ?_⟩
    · simp only [ccOfSetRealDpidAuxid, lookup_matchedKey, hk, Option.bind_some, hl]
      exact h.controller
    · unfold Pooled
      rw [hrw, hpool]
      exact h.pooled
    · rw [hrw]
      rcases names_setReal hk hl hn with ⟨-, hn⟩ | hn
      · exact h.channel_socket k f hn
      · exact h.channel_socket c f hn

theorem dummiesFree_setReal_iff (hfree : DummiesFree g) (d : UInt64) (a : UInt8)
    (ck : ChannelKey) :
    DummiesFree (ccOfSetRealDpidAuxid g d a ck).2 ↔
      ∀ k, matchedKey g d a = some k → ∀ fd, Unused g fd → ck ≠ dummyKey fd := by
  cases hk : matchedKey g d a with
  | none =>
    rw [setReal_of_unmatched ck hk]
    exact iff_of_true hfree nofun
  | some k =>
    obtain ⟨info, hl⟩ := mem_iff_lookup.mp (matchedKey_mem hk)
    obtain ⟨-, hrw, -⟩ := setReal_tables g d a ck
    constructor
    · rintro h k' - fd hfd rfl
      refine h fd ⟨hfd.1, by rw [hrw]; exact hfd.2⟩ (mem_iff_lookup.mpr ⟨info, ?_⟩)
      rw [(setReal_of_matched _ hk hl).2, if_pos rfl]
    · intro h fd hfd hmem
      rw [Unused, hrw] at hfd
      obtain ⟨f', hn⟩ := mem_ofchannel_iff.mp hmem
      rcases names_setReal hk hl hn with ⟨heq, -⟩ | hn
      · exact h k rfl fd hfd heq.symm
      · exact hfree fd hfd hn.mem

end Tables

/-! ## Runs -/

theorem devRegister_frame {g : Global} {key : DevKey} {ver : Nat} {cb : Callbacks} {fd : Fd}
    {r : Ret × Global} (h : ccOfDevRegister g key ver cb fd = some r) :
    ∃ d t, r.2 = { g with oflistenPollthr := t, ofdevHtbl := d } := by
  rcases devRegister_cases h with ⟨-, hg⟩ | ⟨-, -, t, -, hg, -⟩
  · exact ⟨g.ofdevHtbl, g.oflistenPollthr, hg⟩
  · exact ⟨r.2.ofdevHtbl, t, hg⟩

/-- What a step can do. Only setting a key and closing a socket may leave the dummy key of an
unused descriptor in use. -/
theorem step_cases {g g' : Global} {op : Op} (h : Inv g) (hs : step g op = some g') :
    (Inv g' ∧ (DummiesFree g → DummiesFree g') ∧ AvoidsDummies g op) ∨
    (∃ d a ck, op = .setReal d a ck ∧ g' = (ccOfSetRealDpidAuxid g d a ck).2) ∨
    ∃ fd key dev, Closed g g' fd key dev ∧ (AvoidsDummies g op ↔ OwnDummy g fd) := by
  cases op with
  | devRegister key ver cb fd =>
    obtain ⟨r, hr, rfl⟩ := Option.map_eq_some_iff.mp hs
    obtain ⟨d, t, heq⟩ := devRegister_frame hr
    rw [heq]
    exact .inl ⟨⟨h.controller, h.pooled, h.channel_socket⟩, id, trivial⟩
  | accept fd key ck block =>
    obtain ⟨hfd, hs⟩ := Option.ite_none_left_eq_some.mp hs
    obtain ⟨r, hr, rfl⟩ := Option.map_eq_some_iff.mp hs
    obtain ⟨hinv, hfree⟩ := inv_opens h hfd (accept_opens hr)
    exact .inl ⟨hinv, hfree, trivial⟩
  | setReal d a ck =>
    obtain rfl := Option.some.inj hs
    exact .inr (.inl ⟨d, a, ck, rfl, rfl⟩)
  | destroyChannel ck closeRet =>
    obtain ⟨r, hr, rfl⟩ := Option.map_eq_some_iff.mp hs
    rcases destroyChannel_cases hr with ⟨hsame, hnone⟩ | ⟨fd, info, hn, hl, hr⟩
    · rw [hsame]
      exact .inl ⟨h, id, fun fd hn => absurd (h.channel_socket ck fd hn) (hnone fd hn)⟩
    · obtain ⟨-, dev, -, hc⟩ := closeConn_spec h.pooled hl hr
      refine .inr (.inr ⟨fd, info.devKey, dev, hc, fun hok => hok fd hn, fun hown f hf => ?_⟩)
      rw [← hn.unique hf]
      exact hown
  | closeConn fd closeRet =>
    obtain ⟨info, hl, hs⟩ := Option.bind_eq_some_iff.mp hs
    obtain ⟨r, hr, rfl⟩ := Option.map_eq_some_iff.mp hs
    obtain ⟨-, dev, -, hc⟩ := closeConn_spec h.pooled hl hr
    exact .inr (.inr ⟨fd, info.devKey, dev, hc, Iff.rfl⟩)

theorem inv_step {g g' : Global} {op : Op} (h : Inv g) (hs : step g op = some g') : Inv g' := by
  rcases step_cases h hs with ⟨hinv, -, -⟩ | ⟨d, a, ck, -, rfl⟩ | ⟨fd, key, dev, hc, -⟩
  · exact hinv
  · exact inv_setReal h d a ck
  · exact inv_closed h hc

theorem dummiesFree_step_iff {g g' : Global} {op : Op} (h : Inv g) (hfree : DummiesFree g)
    (hs : step g op = some g') : DummiesFree g' ↔ AvoidsDummies g op := by
  rcases step_cases h hs with ⟨-, hkeep, hok⟩ | ⟨d, a, ck, rfl, rfl⟩ | ⟨fd, key, dev, hc, hiff⟩
  · exact iff_of_true (hkeep hfree) hok
  · exact dummiesFree_setReal_iff hfree d a ck
  · rw [hiff]
    exact dummiesFree_closed_iff hfree hc

theorem inv_libInit : Inv (ccOfLibInit .controller) := by
  refine ⟨rfl, (Consistency.sound_libInit .controller).2, fun ck fd hn => ?_⟩
  obtain ⟨info, hl, -⟩ := hn
  cases hl

/-- A new connection steals no channel, in any state along a run of a controller, exactly if no
channel is given the dummy key of a descriptor that is unused, and no socket is closed whose
dummy key another socket has. -/
theorem never_steals_iff_avoids_dummies (ops : List Op) :
    Always step NeverSteals (ccOfLibInit .controller) ops ↔
      Guarded step AvoidsDummies (ccOfLibInit .controller) ops := by
  refine always_iff_guarded_of_invariant (fun _ _ _ => inv_step) (fun g op g' h hnever hs => ?_)
    inv_libInit ?_ ops
  · rw [neverSteals_iff h.controller] at hnever
    rw [neverSteals_iff (inv_step h hs).controller]
    exact dummiesFree_step_iff h hnever hs
  · rw [neverSteals_iff rfl]
    intro fd _ hmem
    cases hmem

/-- A switch with the datapath id `7` gets the key `(7, 7)`, and the next descriptor is `7`. -/
theorem dummy_key_stolen :
    ¬Always step NeverSteals (ccOfLibInit .controller)
      [.devRegister ⟨1, 0, 6633⟩ 0 ⟨7, 8, 9⟩ 4, .accept 5 ⟨1, 0, 6633⟩ ⟨0, 0⟩ ⟨0, 0⟩,
        .setReal 5 5 ⟨7, 7⟩] := by
  intro h
  have hlast := h.last rfl
  exact (hlast 7 ⟨by decide, by decide⟩).1 (by decide)

end OfConnect.Core.Fresh
