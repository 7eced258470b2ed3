import OfConnect.Core.Effects

/-!
# The socket lists of the devices

What a device lists is a socket of that device, and listed once. This is what a walk over such a
list relies on, and it holds whether or not every socket is listed: a device that is registered
again loses its list, and the sockets that were on it have their entries in `ofrw_htbl` still.
-/

namespace OfConnect.Core.SocketLists

open OfConnect.Lib.Tables OfConnect.PollThr.Thread
open OfConnect.Core.State OfConnect.Core.Api OfConnect.Core.Effects

structure Listed (g : Global) : Prop where
  socket : ∀ key dev fd, g.ofdevHtbl.lookup key = some dev → fd ∈ dev.ofrwSocketList →
    ∃ info, g.ofrwHtbl.lookup fd = some info ∧ info.devKey = key
  nodup : ∀ key dev, g.ofdevHtbl.lookup key = some dev → dev.ofrwSocketList.Nodup

theorem listed_libInit (devType : DevType) : Listed (ccOfLibInit devType) :=
  ⟨nofun, nofun⟩

variable {g g' : Global}

/-- The lists are the same, and the sockets have the devices they had. -/
theorem Listed.congr (h : Listed g) (hd : g'.ofdevHtbl = g.ofdevHtbl)
    (hr : ∀ fd info, g.ofrwHtbl.lookup fd = some info →
      ∃ info', g'.ofrwHtbl.lookup fd = some info' ∧ info'.devKey = info.devKey) : Listed g' := by
  constructor
  · intro key dev fd hl hf
    rw [hd] at hl
    obtain ⟨info, hinfo, hkey⟩ := h.socket key dev fd hl hf
    obtain ⟨info', hinfo', hkey'⟩ := hr fd info hinfo
    exact ⟨info', hinfo', hkey'.trans hkey⟩
  · rw [hd]
    exact h.nodup

/-- A socket that is not entered is in no list. -/
theorem Listed.not_listed (h : Listed g) {fd : Fd} (hfd : fd ∉ g.ofrwHtbl) {key : DevKey}
    {dev : DevInfo} (hd : g.ofdevHtbl.lookup key = some dev) : fd ∉ dev.ofrwSocketList := by
  intro hf
  obtain ⟨info, hl, -⟩ := h.socket key dev fd hd hf
  exact hfd (mem_iff_lookup.mpr ⟨info, hl⟩)

theorem Listed.rolledBack {fd : Fd} (h : Listed g) (hfd : fd ∉ g.ofrwHtbl)
    (hr : RolledBack g g' fd) : Listed g' := by
  refine h.congr hr.ofdev fun f info hl => ⟨info, ?_, rfl⟩
  rw [hr.lookup_ofrw hfd, hl]

/-- A socket is entered, and appended to the list of its device. -/
theorem Listed.append {fd : Fd} {dev : DevInfo} {info : RwInfo} (h : Listed g)
    (hfd : fd ∉ g.ofrwHtbl) (hreg : g.ofdevHtbl.lookup info.devKey = some dev)
    (hd : g'.ofdevHtbl =
      g.ofdevHtbl.insert info.devKey { dev with ofrwSocketList := dev.ofrwSocketList ++ [fd] })
    (hr : ∀ f, g'.ofrwHtbl.lookup f = if f = fd then some info else g.ofrwHtbl.lookup f) :
    Listed g' := by
  have hold : ∀ k d f, g.ofdevHtbl.lookup k = some d → f ∈ d.ofrwSocketList →
      ∃ info', g'.ofrwHtbl.lookup f = some info' ∧ info'.devKey = k := by
    intro k d f hk hf
    have hne : f ≠ fd := by
      rintro rfl
      exact h.not_listed hfd hk hf
    rw [hr, if_neg hne]
    exact h.socket k d f hk hf
  constructor
  · intro k d f hk hf
    rw [hd, lookup_insert_eq] at hk
    split at hk
    · rename_i hkey
      obtain rfl := Option.some.inj hk
      rcases List.mem_append.mp hf with hf | hf
      · rw [hkey]
        exact hold _ dev f hreg hf
      · exact ⟨info, by rw [hr, if_pos (List.mem_singleton.mp hf)], hkey.symm⟩
    · exact hold k d f hk hf
  · intro k d hk
    rw [hd, lookup_insert_eq] at hk
    split at hk
    · obtain rfl := Option.some.inj hk
      have hnew := h.not_listed hfd hreg
      exact (h.nodup _ dev hreg).append (List.nodup_singleton fd) (by simpa using hnew)
    · exact h.nodup k d hk

theorem Listed.added {fd : Fd} {dev : DevInfo} {ck : ChannelKey} {info : RwInfo} (h : Listed g)
    (hfd : fd ∉ g.ofrwHtbl) (ha : Added g g' fd dev ck info) : Listed g' :=
  h.append hfd ha.registered ha.ofdev ha.ofrw

/-- The socket is entered for a device that is registered; for another nothing comes of it. -/
theorem Listed.atomicAdd {fd : Fd} {addr : SockAddr} {m : Option MgrId} {key : DevKey}
    {proto : L4Type} {ck : ChannelKey} {a : Ret × Global} (h : Listed g) (hfd : fd ∉ g.ofrwHtbl)
    (ha : atomicAddUpdHtblsWithRwsocketLockfree g fd addr m key proto ck = some a) :
    Listed a.2 ∧ ((∀ f, a.2.ofrwHtbl.lookup f = g.ofrwHtbl.lookup f) ∨
      ∀ f, a.2.ofrwHtbl.lookup f =
        if f = fd then some ⟨.down, m, key, addr, proto⟩ else g.ofrwHtbl.lookup f) := by
  cases hd : g.ofdevHtbl.lookup key with
  | none =>
    rw [atomicAdd_of_unregistered fd addr m proto ck hd] at ha
    obtain rfl := Option.some.inj ha
    have hsame : ∀ f, ((g.ofrwHtbl.insert fd ⟨.down, m, key, addr, proto⟩).erase fd).lookup f =
        g.ofrwHtbl.lookup f := by
      intro f
      rw [lookup_erase_eq]
      split
      · rename_i hf
        rw [hf, AList.lookup_eq_none.mpr hfd]
      · rename_i hf
        rw [lookup_insert_eq, if_neg hf]
    exact ⟨h.congr rfl fun f i hl => ⟨i, (hsame f).trans hl, rfl⟩, .inl hsame⟩
  | some dev =>
    rw [atomicAdd_of_registered fd addr m proto ck hd] at ha
    obtain rfl := Option.some.inj ha
    have hentered : ∀ f, (g.ofrwHtbl.insert fd ⟨.down, m, key, addr, proto⟩).lookup f =
        if f = fd then some ⟨.down, m, key, addr, proto⟩ else g.ofrwHtbl.lookup f :=
      fun f => lookup_insert_eq _ _ _ _
    exact ⟨h.append hfd hd rfl hentered, .inr hentered⟩

theorem Listed.opens {fd : Fd} {key : DevKey} {ck : ChannelKey} (h : Listed g)
    (hfd : fd ∉ g.ofrwHtbl) (ho : Opens g g' fd key ck) : Listed g' := by
  rcases ho with ⟨-, rfl⟩ | ⟨-, -, hr⟩ | ⟨dev, info, -, -, ha⟩
  · exact h
  · exact h.rolledBack hfd hr
  · exact h.added hfd ha

theorem Listed.closed {fd : Fd} {info : RwInfo} {dev : DevInfo} (h : Listed g)
    (hl : g.ofrwHtbl.lookup fd = some info) (hd : g.ofdevHtbl.lookup info.devKey = some dev)
    (hc : Closed g g' fd info.devKey dev) : Listed g' := by
  constructor
  · intro k d f hk hf
    rw [hc.ofdev] at hk
    have hold : f ≠ fd ∧ ∃ info', g.ofrwHtbl.lookup f = some info' ∧ info'.devKey = k := by
      split at hk
      · rename_i hkey
        obtain rfl := Option.some.inj hk
        obtain ⟨hne, hf⟩ := (List.Nodup.mem_erase_iff (h.nodup _ dev hd)).mp hf
        exact ⟨hne, hkey ▸ h.socket _ dev f hd hf⟩
      · rename_i hkey
        obtain ⟨info', hinfo', hk'⟩ := h.socket k d f hk hf
        refine ⟨?_, info', hinfo', hk'⟩
        rintro rfl
        rw [hl] at hinfo'
        obtain rfl := Option.some.inj hinfo'
        exact hkey hk'.symm
    rw [hc.ofrw, if_neg hold.1]
    exact hold.2
  · intro k d hk
    rw [hc.ofdev] at hk
    split at hk
    · obtain rfl := Option.some.inj hk
      exact (h.nodup _ dev hd).erase fd
    · exact h.nodup k d hk

/-- A device is registered, perhaps once more, and has no sockets. -/
theorem Listed.register {key : DevKey} {d : DevInfo} (h : Listed g) (hempty : d.ofrwSocketList = [])
    (hr : g'.ofrwHtbl = g.ofrwHtbl)
    (hd : ∀ k, g'.ofdevHtbl.lookup k = if k = key then some d else g.ofdevHtbl.lookup k) :
    Listed g' := by
  constructor
  · intro k dev fd hk hf
    rw [hd] at hk
    rw [hr]
    split at hk
    · obtain rfl := Option.some.inj hk
      rw [hempty] at hf
      cases hf
    · exact h.socket k dev fd hk hf
  · intro k dev hk
    rw [hd] at hk
    split at hk
    · obtain rfl := Option.some.inj hk
      rw [hempty]
      exact List.nodup_nil
    · exact h.nodup k dev hk

theorem Listed.setRwUp (h : Listed g) (fd : Fd) : Listed (setRwUp g fd).2 := by
  cases hl : g.ofrwHtbl.lookup fd with
  | none =>
    unfold Api.setRwUp
    rw [hl]
    exact h
  | some info =>
    rw [setRwUp_of_entry hl]
    refine h.congr rfl fun f fi hfi => ?_
    rw [lookup_insert_eq]
    split
    · rename_i hf
      rw [hf, hl] at hfi
      obtain rfl := Option.some.inj hfi
      exact ⟨_, rfl, rfl⟩
    · exact ⟨fi, hfi, rfl⟩

end OfConnect.Core.SocketLists
