/-
The datagrams of a `saf::UdpServer` on which nothing is closed: every peer has
one connection, which is established first and then gets the datagrams of that
peer in the order of their arrival.
-/
import Libsaf.UdpServer

namespace Libsaf

universe u v

variable {K : Type u} {T : Type v} [DecidableEq K]

namespace UdpServer

variable {config : UdpServerConfig T} {s : UdpServer K T}

/-- The calls that the datagrams of a peer are to make. -/
def arrivals (s : UdpServer K T) (key : K) : List UdpCall :=
  (s.received.filter fun datagram => datagram.key = key).map
    fun datagram => .handleRead datagram.data

/-- Every peer that was heard has one connection, and a connection is
established and then gets what its peer has sent, each datagram once, unchanged
and in order: it has got a part of that, and the rest is queued on its loop. -/
def Demultiplexes (config : UdpServerConfig T) (s : UdpServer K T) : Prop :=
  (∀ datagram ∈ s.received, ∃! c : Nat, s.table.made[c]? = some datagram.key) ∧
    ∀ key c, s.table.made[c]? = some key →
      s.calls c ++ callsOf (s.tasks (config.loopOf c)) c =
        .onConnectEstablished :: s.arrivals key

omit [DecidableEq K] in
/-- The run has no close, expiry or stop; a removal is the end of a close. -/
def Undisturbed (s : UdpServer K T) : UdpServerStep K T → Prop
  | .close _ _ | .closeExpired | .visit _ | .stop | .stopped => False
  | .callRemoval => False
  | .checkEntry c =>
      match s.phase with
      | .checking now _ _ => s.table.isExpired now c = false
      | _ => True
  | _ => True

/-- The connections of the peers, while nothing is closed. -/
structure Settled (config : UdpServerConfig T) (s : UdpServer K T) : Prop where
  wired : s.Wired config
  stored : ∀ key c, s.table.made[c]? = some key →
    s.table.connections key = some c
  known : ∀ datagram ∈ s.received,
    ∃ c : Nat, s.table.made[c]? = some datagram.key
  order : ∀ key c, s.table.made[c]? = some key →
    s.upcoming config c = .onConnectEstablished :: s.arrivals key

theorem start_settled : (start : UdpServer K T).Settled config where
  wired := start_wired
  stored _ _ h := by cases h
  known _ h := absurd h List.not_mem_nil
  order _ _ h := by cases h

theorem Settled.demultiplexes (h : s.Settled config) :
    s.Demultiplexes config := by
  refine ⟨fun datagram hdatagram => ?_, h.order⟩
  obtain ⟨c, hc⟩ := h.known datagram hdatagram
  refine ⟨c, hc, fun d hd => ?_⟩
  have hsame := (h.stored _ c hc).symm.trans (h.stored _ d hd)
  exact (Option.some.inj hsame).symm

variable [DecidableEq T] {s' : UdpServer K T}

omit [DecidableEq T] in
theorem arrivals_append {key other : K} {data : List UInt8} {now : Int}
    (h : s'.received = s.received ++ [⟨key, data, now⟩]) :
    s'.arrivals other =
      s.arrivals other ++ if key = other then [.handleRead data] else [] := by
  by_cases hkey : key = other <;> simp [arrivals, h, hkey]

/-- A datagram of a peer whose connection is known. -/
theorem Settled.known_accepted (h : s.Settled config) {key : K}
    {data : List UInt8} {now : Int} {c : Nat} (hs' : s'.Wired config)
    (haccepted : s.Accepted config s' key data now c)
    (hknown : s.Known s' key c) : s'.Settled config := by
  have hpassed : s.passed key data now c = [.handleRead c data now] := by
    simp [passed, hknown.known]
  have hmade : s.table.made[c]? = some key :=
    h.wired.stored key c hknown.known
  refine ⟨hs', ?_, fun datagram hdatagram => ?_, fun other d hd => ?_⟩
  · rw [hknown.table]
    exact h.stored
  · rw [haccepted.received, List.mem_append, List.mem_singleton] at hdatagram
    rw [hknown.table]
    rcases hdatagram with hold | rfl
    · exact h.known datagram hold
    · exact ⟨c, hmade⟩
  · rw [hknown.table] at hd
    rw [haccepted.upcoming, arrivals_append haccepted.received, hpassed,
      callsOf_singleton, h.order other d hd, List.cons_append]
    have hsame : c = d ↔ key = other := by
      constructor
      · rintro rfl
        exact Option.some.inj (hmade.symm.trans hd)
      · rintro rfl
        exact Option.some.inj (hknown.known.symm.trans (h.stored key d hd))
    by_cases hconn : c = d
    · simp [UdpTask.conn, UdpTask.call, hconn, hsame.mp hconn]
    · simp [UdpTask.conn, hconn, mt hsame.mpr hconn]

/-- The first datagram of a peer. -/
theorem Settled.made_accepted (h : s.Settled config) {key : K}
    {data : List UInt8} {now : Int} {c : Nat} (hs' : s'.Wired config)
    (haccepted : s.Accepted config s' key data now c)
    (hmade : s.Made s' key now c) : s'.Settled config := by
  have hpassed : s.passed key data now c =
      [.onConnectEstablished c, .handleRead c data now] := by
    simp [passed, hmade.unknown]
  have hold : ∀ (d : Nat) (other : K), s'.table.made[d]? = some other →
      d = c ∧ other = key ∨ s.table.made[d]? = some other ∧ d ≠ c := by
    intro d other hd
    rw [hmade.made] at hd
    rcases Nat.lt_trichotomy d s.table.made.length with hlt | heq | hgt
    · rw [List.getElem?_append_left hlt] at hd
      exact Or.inr ⟨hd, by rw [hmade.conn]; omega⟩
    · rw [heq, List.getElem?_concat_length] at hd
      exact Or.inl ⟨heq.trans hmade.conn.symm, (Option.some.inj hd).symm⟩
    · rw [List.getElem?_eq_none (by simp; omega)] at hd
      cases hd
  have hunheard : ∀ (d : Nat) (other : K), s.table.made[d]? = some other →
      other ≠ key := by
    rintro d other hd rfl
    exact absurd (hmade.unknown.symm.trans (h.stored other d hd)) (by simp)
  have hsilent : s.arrivals key = [] := by
    rw [arrivals, List.map_eq_nil_iff, List.filter_eq_nil_iff]
    intro datagram hdatagram
    obtain ⟨d, hd⟩ := h.known datagram hdatagram
    simpa using hunheard d datagram.key hd
  refine ⟨hs', fun other d hd => ?_, fun datagram hdatagram => ?_,
    fun other d hd => ?_⟩
  · rw [hmade.connections]
    rcases hold d other hd with ⟨rfl, rfl⟩ | ⟨hd, _⟩
    · exact Function.update_self ..
    · rw [Function.update_of_ne (hunheard d other hd)]
      exact h.stored other d hd
  · rw [haccepted.received, List.mem_append, List.mem_singleton] at hdatagram
    rw [hmade.made]
    rcases hdatagram with hbefore | rfl
    · obtain ⟨d, hd⟩ := h.known datagram hbefore
      have hlt := (List.getElem?_eq_some_iff.mp hd).1
      exact ⟨d, (List.getElem?_append_left hlt).trans hd⟩
    · exact ⟨s.table.made.length, List.getElem?_concat_length⟩
  · rw [haccepted.upcoming, arrivals_append haccepted.received, hpassed]
    rcases hold d other hd with ⟨rfl, rfl⟩ | ⟨hd, hne⟩
    · rw [h.wired.upcoming_fresh (Nat.le_of_eq hmade.conn.symm), hsilent]
      simp [callsOf, UdpTask.conn, UdpTask.call]
    · rw [h.order other d hd]
      simp [callsOf, UdpTask.conn, Ne.symm hne, Ne.symm (hunheard d other hd)]

theorem Settled.step (h : s.Settled config) {step : UdpServerStep K T}
    (henabled : (udpServerMachine K config).enabled s step)
    (hundisturbed : s.Undisturbed step) :
    ∃ s', (udpServerMachine K config).exec s step = some s' ∧
      s'.Settled config := by
  obtain ⟨s', hexec, hs', heffect⟩ := udpServer_step h.wired henabled
  refine ⟨s', hexec, ?_⟩
  cases heffect with
  | accepted key data now c haccepted =>
      rcases haccepted.found with hknown | hmade
      · exact h.known_accepted hs' haccepted hknown
      · exact h.made_accepted hs' haccepted hmade
  | called thread now left task rest hcalled hupcoming =>
      refine ⟨hs', ?_, ?_, fun key c hc => ?_⟩
      · rw [hcalled.made, hcalled.connections]
        exact h.stored
      · rw [hcalled.made, hcalled.received]
        exact h.known
      · rw [hcalled.made] at hc
        rw [hupcoming, arrivals, hcalled.received]
        exact h.order key c hc
  | closed _ thread c hcloses hclosed =>
      cases step with
      | close _ _ => exact absurd hundisturbed id
      | closeExpired => exact absurd hundisturbed id
      | visit _ => exact absurd hundisturbed id
      | _ => cases hcloses
  | quiet _ hcloses _ hquiet =>
      have hexpires : ¬ s.Expires s' step := by
        rintro ⟨c, now, rest, deletes, rfl, hphase, hexpired, _⟩
        simp only [Undisturbed, hphase] at hundisturbed
        exact absurd (hexpired.symm.trans hundisturbed) (by decide)
      have hconnections := hquiet.kept hexpires
        (by rintro rfl; exact hundisturbed) (by rintro rfl; exact hundisturbed)
      refine ⟨hs', ?_, ?_, fun key c hc => ?_⟩
      · rw [hquiet.made, hconnections]
        exact h.stored
      · rw [hquiet.made, hquiet.received]
        exact h.known
      · rw [hquiet.made] at hc
        rw [upcoming, arrivals, hquiet.calls, hquiet.tasks, hquiet.received]
        exact h.order key c hc

end UdpServer

end Libsaf
