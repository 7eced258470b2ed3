import OfConnect.Core.Consistency
import OfConnect.PollThr.Framing

/-!
# Channel keys

A controller gives a new socket the key `(fd, fd mod 256)` until the real one is known, and
dummy keys and real keys are of one kind. A key that is not in the table is looked up once more
with the low byte of its `dp_id` as `aux_id`, in both modes and for every caller; and a channel
that gets its real key is found by key, but removed by the socket that its `dp_id` would be if
the key was a dummy. Each of these is right as long as the keys concerned are dummy keys.
-/

namespace OfConnect.Core.Keys

open OfConnect.Lib.Tables OfConnect.Lib.Run OfConnect.PollThr.Thread OfConnect.PollThr.Framing
open OfConnect.Core.State OfConnect.Core.Api OfConnect.Core.Effects OfConnect.Core.Consistency

/-! ## Lookups with the second key -/

/-- The key that is tried second. -/
def fallbackKey (dpId : UInt64) : ChannelKey := ⟨dpId, dpId.toUInt8⟩

/-- The key under which a channel is found. -/
def matchedKey (g : Global) (dpId : UInt64) (auxId : UInt8) : Option ChannelKey :=
  if ⟨dpId, auxId⟩ ∈ g.ofchannelHtbl then some ⟨dpId, auxId⟩
  else if fallbackKey dpId ∈ g.ofchannelHtbl then some (fallbackKey dpId)
  else none

theorem lookup_matchedKey (g : Global) (dpId : UInt64) (auxId : UInt8) :
    (g.ofchannelHtbl.lookup ⟨dpId, auxId⟩).or (g.ofchannelHtbl.lookup ⟨dpId, dpId.toUInt8⟩) =
      (matchedKey g dpId auxId).bind fun k => g.ofchannelHtbl.lookup k := by
  unfold matchedKey
  split
  · rename_i hmem
    obtain ⟨info, hl⟩ := mem_iff_lookup.mp hmem
    rw [Option.bind_some, hl, Option.some_or]
  · rename_i hnot
    rw [AList.lookup_eq_none.mpr hnot, Option.none_or]
    split
    · rfl
    · rename_i hnot'
      exact AList.lookup_eq_none.mpr hnot'

theorem matchedKey_mem {g : Global} {dpId : UInt64} {auxId : UInt8} {k : ChannelKey}
    (h : matchedKey g dpId auxId = some k) : k ∈ g.ofchannelHtbl := by
  unfold matchedKey at h
  split at h
  · obtain rfl := Option.some.inj h
    assumption
  · split at h
    · obtain rfl := Option.some.inj h
      assumption
    · cases h

/-- A dummy key is its own second key. -/
theorem fallbackKey_dummyKey (fd : Fd) : fallbackKey (dummyKey fd).dpId = dummyKey fd := by
  have haux : (dummyKey fd).dpId.toUInt8 = (dummyKey fd).auxId := by
    apply UInt8.toBitVec_inj.mp
    show BitVec.setWidth 8 (BitVec.signExtend 64 fd.toBitVec) = BitVec.setWidth 8 fd.toBitVec
    ext i hi
    rw [BitVec.getElem_setWidth, BitVec.getElem_setWidth, BitVec.getLsbD_signExtend,
      if_pos (by omega)]
    simp only [Bool.and_eq_right_iff_imp, decide_eq_true_eq]
    omega
  rw [fallbackKey, haux]

/-! ## Replacing a key -/

/-- No socket has two keys. -/
def NamedOnce (g : Global) : Prop :=
  ∀ ck ck' fd, Names g ck fd → Names g ck' fd → ck = ck'

theorem namedOnce_of_consistent {g : Global} (h : Consistent g) : NamedOnce g := by
  intro ck ck' fd hn hn'
  obtain ⟨c, -, huniq⟩ := h.socket_named fd (h.channel_socket ck fd hn)
  rw [huniq ck hn, huniq ck' hn']

/-- What is asked of `cc_of_set_real_dpid_auxid`: the entry it finds goes to the new key and
all others stay, or it fails and all stay. -/
def MovesOne (g : Global) (dpId : UInt64) (auxId : UInt8) (key : ChannelKey) : Prop :=
  ((ccOfSetRealDpidAuxid g dpId auxId key).1 = ccOfOk →
    ∃ k info, matchedKey g dpId auxId = some k ∧ g.ofchannelHtbl.lookup k = some info ∧
      ∀ c, (ccOfSetRealDpidAuxid g dpId auxId key).2.ofchannelHtbl.lookup c =
        if c = key then some info else if c = k then none else g.ofchannelHtbl.lookup c) ∧
  ((ccOfSetRealDpidAuxid g dpId auxId key).1 ≠ ccOfOk →
    ∀ c, (ccOfSetRealDpidAuxid g dpId auxId key).2.ofchannelHtbl.lookup c =
      g.ofchannelHtbl.lookup c)

theorem setReal_of_unmatched {g : Global} {dpId : UInt64} {auxId : UInt8} (key : ChannelKey)
    (h : matchedKey g dpId auxId = none) :
    ccOfSetRealDpidAuxid g dpId auxId key = (ccOfEinval, g) := by
  simp only [ccOfSetRealDpidAuxid, lookup_matchedKey, h, Option.bind_none]

theorem setReal_of_matched {g : Global} {dpId : UInt64} {auxId : UInt8} (key : ChannelKey)
    {k : ChannelKey} {info : ChannelInfo} (h : matchedKey g dpId auxId = some k)
    (hl : g.ofchannelHtbl.lookup k = some info) :
    (ccOfSetRealDpidAuxid g dpId auxId key).1 = ccOfOk ∧
    ∀ c, (ccOfSetRealDpidAuxid g dpId auxId key).2.ofchannelHtbl.lookup c =
      if c = key then some info
      else (foreachRemove (fun _ ci => ci.rwSockfd == dpId.toUInt32.toInt32)
        g.ofchannelHtbl).lookup c := by
  simp only [ccOfSetRealDpidAuxid, lookup_matchedKey, h, Option.bind_some, hl,
    delOfchannRwsocketLockfree, updateGlobalHtblLockfree, lookup_insert_eq, implies_true, and_self]

/-- The entries of one socket are removed: where it has one key, that key. -/
theorem lookup_foreachRemove_named {g : Global} {k : ChannelKey} {info : ChannelInfo}
    (hone : NamedOnce g) (hl : g.ofchannelHtbl.lookup k = some info) (c : ChannelKey) :
    (foreachRemove (fun _ ci => ci.rwSockfd == info.rwSockfd) g.ofchannelHtbl).lookup c =
      if c = k then none else g.ofchannelHtbl.lookup c := by
  apply Option.ext
  intro ci
  rw [lookup_foreachRemove_iff, beq_eq_false_iff_ne]
  split
  · rename_i hc
    subst hc
    rw [hl]
    refine iff_of_false ?_ nofun
    rintro ⟨heq, hne⟩
    obtain rfl := Option.some.inj heq
    exact hne rfl
  · rename_i hc
    exact and_iff_left_of_imp fun hci hfd => hc (hone c k _ ⟨ci, hci, hfd⟩ ⟨info, hl, rfl⟩)

/-- The channel of a connection that was just accepted, and no other. -/
def accepted : List Op :=
  [.devRegister ⟨1, 0, 6633⟩ 0 ⟨7, 8, 9⟩ 4, .accept 5 ⟨1, 0, 6633⟩ ⟨0, 0⟩ ⟨0, 0⟩]

theorem consistent_of_run {devType : DevType} {ops : List Op} {g : Global}
    (h : run step (ccOfLibInit devType) ops = some g) : Consistent g := by
  have hsound : Always step Sound (ccOfLibInit devType) ops :=
    always_of_step (fun _ _ _ h hs => sound_step h hs) (sound_libInit devType) ops
  exact (hsound.last h).1

/-- What is asked of `cc_of_send_pkt`: a packet goes to the socket of exactly its key or, where
no channel has that key, to the socket of a controller that still has its dummy key. -/
def Routed (g : Global) (dpId : UInt64) (auxId : UInt8) (ofMsg : Option (List UInt8)) : Prop :=
  (ccOfSendPkt g dpId auxId ofMsg).1 = ccOfOk →
    ∃ p, (ccOfSendPkt g dpId auxId ofMsg).2 = some p ∧
      (Names g ⟨dpId, auxId⟩ p.fd ∨
        (⟨dpId, auxId⟩ ∉ g.ofchannelHtbl ∧ g.ofdevType = .controller ∧
          Names g (dummyKey p.fd) p.fd ∧ dpId = (dummyKey p.fd).dpId))

theorem sendSocket_eq_some_iff {g : Global} {dpId : UInt64} {auxId : UInt8} {fd : Fd} :
    sendSocket g dpId auxId = some fd ↔ ∃ k, matchedKey g dpId auxId = some k ∧ Names g k fd := by
  rw [sendSocket, lookup_matchedKey, Option.map_eq_some_iff]
  constructor
  · rintro ⟨info, hinfo, hfd⟩
    obtain ⟨k, hk, hl⟩ := Option.bind_eq_some_iff.mp hinfo
    exact ⟨k, hk, info, hl, hfd⟩
  · rintro ⟨k, hk, info, hl, hfd⟩
    exact ⟨info, by rw [hk, Option.bind_some, hl], hfd⟩

/-- A packet that is sent goes to the socket of the key that was found, which has a thread. -/
theorem sendPkt_inversion {g : Global} {dpId : UInt64} {auxId : UInt8}
    {ofMsg : Option (List UInt8)} (h : (ccOfSendPkt g dpId auxId ofMsg).1 = ccOfOk) :
    ∃ k fd tmgr msg, ofMsg = some msg ∧ matchedKey g dpId auxId = some k ∧ Names g k fd ∧
      findThrmgrRwsocketLockfree g fd = some (some tmgr) ∧
      (ccOfSendPkt g dpId auxId ofMsg).2 = some ⟨tmgr, fd, msg⟩ := by
  unfold ccOfSendPkt at h ⊢
  cases ofMsg with
  | none => cases h
  | some msg =>
    dsimp only at h ⊢
    cases hfd : sendSocket g dpId auxId with
    | none =>
      rw [hfd] at h
      cases h
    | some fd =>
      obtain ⟨k, hk, hn⟩ := sendSocket_eq_some_iff.mp hfd
      cases hthr : (findThrmgrRwsocketLockfree g fd).join with
      | none =>
        simp only [hfd, hthr] at h
        cases h
      | some tmgr =>
        exact ⟨k, fd, tmgr, msg, rfl, hk, hn, Option.join_eq_some_iff.mp hthr, by simp only [hthr]⟩

theorem sendPkt_of_named {g : Global} {dpId : UInt64} {auxId : UInt8} {k : ChannelKey} {fd : Fd}
    {tmgr : MgrId} (msg : List UInt8) (hk : matchedKey g dpId auxId = some k) (hn : Names g k fd)
    (hthr : findThrmgrRwsocketLockfree g fd = some (some tmgr)) :
    ccOfSendPkt g dpId auxId (some msg) = (ccOfOk, some ⟨tmgr, fd, msg⟩) := by
  simp only [ccOfSendPkt, sendSocket_eq_some_iff.mpr ⟨k, hk, hn⟩, hthr, Option.join_some]

/-- A packet is not misrouted exactly if there is none, or its key is in use, or the key that
is tried second names no socket with a thread, or that key is the dummy key of its socket. -/
theorem sendPkt_routed_iff (g : Global) (dpId : UInt64) (auxId : UInt8)
    (ofMsg : Option (List UInt8)) :
    Routed g dpId auxId ofMsg ↔
      ofMsg = none ∨ ⟨dpId, auxId⟩ ∈ g.ofchannelHtbl ∨
        ∀ fd tmgr, Names g (fallbackKey dpId) fd →
          findThrmgrRwsocketLockfree g fd = some (some tmgr) →
          g.ofdevType = .controller ∧ fallbackKey dpId = dummyKey fd := by
  constructor
  · intro hrouted
    by_contra hnot
    push Not at hnot
    obtain ⟨hmsg, hkey, fd, tmgr, hn, hthr, hdummy⟩ := hnot
    obtain ⟨msg, rfl⟩ := Option.ne_none_iff_exists'.mp hmsg
    have hk : matchedKey g dpId auxId = some (fallbackKey dpId) := by
      rw [matchedKey, if_neg hkey, if_pos hn.mem]
    have hsend := sendPkt_of_named msg hk hn hthr
    obtain ⟨p, hp, hto⟩ := hrouted (by rw [hsend])
    rw [hsend] at hp
    obtain rfl := Option.some.inj hp
    rcases hto with hto | ⟨-, htype, -, hdp⟩
    · exact hkey hto.mem
    · exact hdummy htype (by rw [hdp, fallbackKey_dummyKey])
  · intro hcond hok
    obtain ⟨k, fd, tmgr, msg, rfl, hk, hn, hthr, hp⟩ := sendPkt_inversion hok
    refine ⟨_, hp, ?_⟩
    unfold matchedKey at hk
    split at hk
    · obtain rfl := Option.some.inj hk
      exact .inl hn
    · rename_i hkey
      split at hk
      · obtain rfl := Option.some.inj hk
        rcases hcond with hnone | hmem | hdummy
        · cases hnone
        · exact absurd hmem hkey
        · obtain ⟨htype, heq⟩ := hdummy fd tmgr hn hthr
          exact .inr ⟨hkey, htype, heq ▸ hn, congrArg ChannelKey.dpId heq⟩
      · cases hk

/-- A switch that has the auxiliary channel `(1, 1)` sends to `(1, 0)`, which it does not have;
and so does a controller whose channel has got the key `(1, 1)`. -/
theorem sendPkt_misrouted :
    (∃ g, run step (ccOfLibInit .switch) [.devRegister ⟨1, 2, 6633⟩ 0 ⟨7, 8, 9⟩ 0,
        .createChannel ⟨1, 2, 6633⟩ ⟨1, 1⟩ .tcp 5 ⟨0, 0⟩] = some g ∧
      ⟨1, 0⟩ ∉ g.ofchannelHtbl ∧ ccOfSendPkt g 1 0 (some [1]) = (ccOfOk, some ⟨0, 5, [1]⟩) ∧
      ¬Routed g 1 0 (some [1])) ∧
    (∃ g, run step (ccOfLibInit .controller) (accepted ++ [.setReal 5 ⟨1, 1⟩]) = some g ∧
      ⟨1, 0⟩ ∉ g.ofchannelHtbl ∧ ccOfSendPkt g 1 0 (some [1]) = (ccOfOk, some ⟨0, 5, [1]⟩) ∧
      ¬Routed g 1 0 (some [1])) := by
  refine ⟨⟨_, rfl, by decide, rfl, fun h => ?_⟩, ⟨_, rfl, by decide, rfl, fun h => ?_⟩⟩
  · obtain ⟨p, hp, hto⟩ := h rfl
    obtain rfl := Option.some.inj hp
    rcases hto with hto | ⟨-, htype, -⟩
    · exact absurd hto.mem (by decide)
    · cases htype
  · obtain ⟨p, hp, hto⟩ := h rfl
    obtain rfl := Option.some.inj hp
    rcases hto with hto | ⟨-, -, -, hdp⟩
    · exact absurd hto.mem (by decide)
    · exact absurd hdp (by decide)

end OfConnect.Core.Keys
