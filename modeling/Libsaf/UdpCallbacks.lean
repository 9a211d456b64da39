/-
The callbacks of the connections of a `saf::UdpServer`.  Every call of `close`
adds a call of `closeInLoop` to what a connection is to get; where it is the
only one and nothing comes behind it, the callbacks follow the protocol.
-/
import Libsaf.UdpServer

namespace Libsaf

universe u v

variable {K : Type u} {T : Type v}

/-- A connection is established, gets datagrams and may be closed. -/
def UdpCall.lifetime (reads : List (List UInt8)) (closed : Bool) :
    List UdpCall :=
  .onConnectEstablished :: reads.map .handleRead ++
    if closed then [.closeInLoop] else []

/-- The protocol of the callbacks: a prefix of one connect-change call, any
number of messages, and one connect-change call for the close.  A callback that
is not set is not called. -/
def UdpServerConfig.Protocol (config : UdpServerConfig T)
    (trace : List UdpCallback) : Prop :=
  ∃ reads, trace <+: (UdpCall.lifetime reads true).filterMap config.callback

namespace UdpServer

variable {config : UdpServerConfig T} {s : UdpServer K T}

/-- The callbacks of every connection follow the protocol. -/
def Behaved (config : UdpServerConfig T) (s : UdpServer K T) : Prop :=
  ∀ c, config.Protocol (s.callbacks c)

/-- The callbacks that a connection has had and is to get. -/
def announced (config : UdpServerConfig T) (s : UdpServer K T) (c : Nat) :
    List UdpCallback :=
  (s.upcoming config c).filterMap config.callback

/-- `close` is called once; on the thread of the loop it finds no functor of the
connection waiting there whose callback is set; and no datagram is accepted for
a connection afterwards. -/
def ClosesOnce (config : UdpServerConfig T) (s : UdpServer K T)
    (step : UdpServerStep K T) : Prop :=
  config.connectChange = true →
    (∀ thread c, s.closesOn config step = some (thread, c) →
      s.table.closing c = false ∧
        (thread = config.loopOf c →
          (callsOf (s.tasks thread) c).filterMap config.callback = [])) ∧
    ∀ key data now, step = .recvDatagram key data now →
      config.recvMessage = true → ∀ c, s.table.connections key = some c →
        s.table.closing c = false

/-- No functor of the connections is queued. -/
def Drained (s : UdpServer K T) : Prop := ∀ loop, s.tasks loop = []

/-- The calls of a connection, and at most one close behind them. -/
structure Orderly (config : UdpServerConfig T) (s : UdpServer K T) : Prop where
  wired : s.Wired config
  order : ∀ c < s.table.made.length, ∃ reads, s.announced config c =
    (UdpCall.lifetime reads (s.table.closing c)).filterMap config.callback

theorem start_orderly : (start : UdpServer K T).Orderly config where
  wired := start_wired
  order _ h := absurd h (Nat.not_lt_zero _)

/-- Without the connect-change callback there are only messages. -/
theorem lifetime_of_messages (hchange : config.connectChange = false)
    (calls : List UdpCall) (closed : Bool) :
    ∃ reads, calls.filterMap config.callback =
      (UdpCall.lifetime reads closed).filterMap config.callback := by
  have hlifetime : ∀ reads,
      (UdpCall.lifetime reads closed).filterMap config.callback =
        (reads.map UdpCall.handleRead).filterMap config.callback := by
    intro reads
    cases closed <;>
      simp [UdpCall.lifetime, UdpServerConfig.callback, hchange]
  induction calls with
  | nil => exact ⟨[], by rw [hlifetime]; rfl⟩
  | cons call calls ih =>
      obtain ⟨reads, hreads⟩ := ih
      rw [hlifetime] at hreads
      cases call with
      | onConnectEstablished =>
          refine ⟨reads, ?_⟩
          rw [hlifetime, ← hreads]
          simp [UdpServerConfig.callback, hchange]
      | handleRead data =>
          refine ⟨data :: reads, ?_⟩
          rw [hlifetime, List.map_cons, List.filterMap_cons,
            List.filterMap_cons, hreads]
      | closeInLoop =>
          refine ⟨reads, ?_⟩
          rw [hlifetime, ← hreads]
          simp [UdpServerConfig.callback, hchange]

/-- What has been called is the first part of what is to be called. -/
theorem callbacks_lifetime (h : s.Wired config) (c : Nat) :
    s.callbacks c <+: s.announced config c := by
  rw [h.callbacks, announced, upcoming, List.filterMap_append]
  exact List.prefix_append _ _

theorem Orderly.behaved (h : s.Orderly config) : s.Behaved config := by
  intro c
  rcases Nat.lt_or_ge c s.table.made.length with hc | hc
  · obtain ⟨reads, horder⟩ := h.order c hc
    refine ⟨reads, (callbacks_lifetime h.wired c).trans ?_⟩
    rw [horder]
    apply List.IsPrefix.filterMap
    cases s.table.closing c with
    | false => simp [UdpCall.lifetime]
    | true => exact List.prefix_refl _
  · refine ⟨[], ?_⟩
    rw [h.wired.callbacks, h.wired.fresh c hc]
    exact List.nil_prefix

theorem lifetime_read (reads : List (List UInt8)) (data : List UInt8) :
    UdpCall.lifetime reads false ++ [.handleRead data] =
      UdpCall.lifetime (reads ++ [data]) false := by
  simp [UdpCall.lifetime]

theorem lifetime_close (reads : List (List UInt8)) :
    UdpCall.lifetime reads false ++ [.closeInLoop] =
      UdpCall.lifetime reads true := by
  simp [UdpCall.lifetime]

variable [DecidableEq T] {s' : UdpServer K T}

/-- The close is the last call, and the only one. -/
theorem Orderly.closed (h : s.Orderly config) (hs' : s'.Wired config)
    {thread : T} {c : Nat} (hclosed : s.Closed config s' thread c)
    (hchange : config.connectChange = true)
    (hopen : s.table.closing c = false)
    (hnone : thread = config.loopOf c →
      (callsOf (s.tasks thread) c).filterMap config.callback = []) :
    s'.Orderly config := by
  refine ⟨hs', fun d hd => ?_⟩
  rw [hclosed.made] at hd
  obtain ⟨reads, horder⟩ := h.order d hd
  by_cases heq : d = c
  · subst heq
    refine ⟨reads, ?_⟩
    rw [hopen] at horder
    have hlast : s'.announced config d =
        s.announced config d ++ [.connectChange false] := by
      unfold announced
      rw [hclosed.upcoming d, if_neg (not_not_intro rfl)]
      split
      · next hthread =>
          subst hthread
          simp [upcoming, List.filterMap_append, hnone rfl,
            UdpServerConfig.callback, hchange]
      · simp [List.filterMap_append, UdpServerConfig.callback, hchange]
    rw [hlast, horder, hclosed.closing, Function.update_self, ← lifetime_close,
      List.filterMap_append]
    simp [UdpServerConfig.callback, hchange]
  · refine ⟨reads, ?_⟩
    rw [announced, hclosed.upcoming d, if_pos heq, hclosed.closing,
      Function.update_of_ne heq]
    exact horder

variable [DecidableEq K]

/-- A datagram of a connection that is not closing. -/
theorem Orderly.accepted (h : s.Orderly config) (hs' : s'.Wired config)
    {key : K} {data : List UInt8} {now : Int} {c : Nat}
    (haccepted : s.Accepted config s' key data now c)
    (hopen : config.connectChange = true → config.recvMessage = true →
      s.table.connections key = some c → s.table.closing c = false) :
    s'.Orderly config := by
  refine ⟨hs', fun d hd => ?_⟩
  rcases Bool.eq_false_or_eq_true config.connectChange with hchange | hchange
  swap
  · exact lifetime_of_messages hchange _ _
  rw [announced, haccepted.upcoming, List.filterMap_append]
  change ∃ reads, s.announced config d ++ _ = _
  rcases haccepted.found with hknown | hmade
  · rw [hknown.table] at hd ⊢
    obtain ⟨reads, horder⟩ := h.order d hd
    have hpassed : s.passed key data now c = [.handleRead c data now] := by
      simp [passed, hknown.known]
    rw [hpassed, callsOf_singleton, horder]
    by_cases hconn : c = d
    · subst hconn
      rcases Bool.eq_false_or_eq_true config.recvMessage with hset | hset
      · refine ⟨reads ++ [data], ?_⟩
        rw [hopen hchange hset hknown.known, ← lifetime_read,
          List.filterMap_append]
        simp [UdpTask.conn, UdpTask.call]
      · refine ⟨reads, ?_⟩
        simp [UdpTask.conn, UdpTask.call, UdpServerConfig.callback, hset]
    · refine ⟨reads, ?_⟩
      simp [UdpTask.conn, hconn]
  · have hpassed : s.passed key data now c =
        [.onConnectEstablished c, .handleRead c data now] := by
      simp [passed, hmade.unknown]
    rw [hpassed, hmade.closing]
    rw [hmade.made, List.length_append, List.length_singleton] at hd
    by_cases hconn : d = c
    · subst hconn
      refine ⟨[data], ?_⟩
      rw [announced,
        h.wired.upcoming_fresh (Nat.le_of_eq hmade.conn.symm),
        Function.update_self]
      simp [callsOf, UdpTask.conn, UdpTask.call, UdpCall.lifetime]
    · have hold : d < s.table.made.length := by
        have hne := hmade.conn
        omega
      obtain ⟨reads, horder⟩ := h.order d hold
      refine ⟨reads, ?_⟩
      rw [Function.update_of_ne hconn, horder]
      simp [callsOf, UdpTask.conn, Ne.symm hconn]

theorem Orderly.step (h : s.Orderly config) {step : UdpServerStep K T}
    (henabled : (udpServerMachine K config).enabled s step)
    (honce : s.ClosesOnce config step) :
    ∃ s', (udpServerMachine K config).exec s step = some s' ∧
      s'.Orderly config := by
  obtain ⟨s', hexec, hs', heffect⟩ := udpServer_step h.wired henabled
  refine ⟨s', hexec, ?_⟩
  cases heffect with
  | accepted key data now c haccepted =>
      apply h.accepted hs' haccepted
      intro hchange hmessage hkey
      exact (honce hchange).2 key data now rfl hmessage c hkey
  | called thread now left task rest hcalled hupcoming =>
      refine ⟨hs', fun c hc => ?_⟩
      rw [hcalled.made] at hc
      rw [announced, hupcoming, hcalled.closing]
      exact h.order c hc
  | closed _ thread c hcloses hclosed =>
      rcases Bool.eq_false_or_eq_true config.connectChange with hset | hset
      · obtain ⟨hopen, hnone⟩ := (honce hset).1 thread c hcloses
        exact h.closed hs' hclosed hset hopen hnone
      · exact ⟨hs', fun d _ => lifetime_of_messages hset _ _⟩
  | quiet _ hcloses _ hquiet =>
      refine ⟨hs', fun c hc => ?_⟩
      rw [hquiet.made] at hc
      rw [announced, upcoming, hquiet.calls, hquiet.tasks, hquiet.closing]
      exact h.order c hc

/-- Nothing that is announced is ever taken back. -/
theorem announced_sublist {step : UdpServerStep K T}
    (heffect : s.Effect config s' step) (c : Nat) :
    (s.announced config c).Sublist (s'.announced config c) := by
  apply List.Sublist.filterMap
  cases heffect with
  | accepted key data now d haccepted =>
      rw [haccepted.upcoming]
      exact List.sublist_append_left _ _
  | called thread now left task rest hcalled hupcoming =>
      rw [hupcoming]
  | closed _ thread d hcloses hclosed =>
      rw [hclosed.upcoming]
      by_cases heq : c = d
      · subst heq
        rw [if_neg (not_not_intro rfl)]
        split
        · exact (List.sublist_cons_self _ _).append_left _
        · exact List.sublist_append_left _ _
      · rw [if_pos heq]
  | quiet _ hcloses _ hquiet =>
      rw [upcoming, upcoming, hquiet.calls, hquiet.tasks]

/-- Something is to follow the close. -/
def Broken (config : UdpServerConfig T) (s : UdpServer K T) (c : Nat) : Prop :=
  ∃ callback, [.connectChange false, callback].Sublist (s.announced config c)

/-- A connection that was asked to close is to be closed. -/
structure Closing (config : UdpServerConfig T) (s : UdpServer K T) : Prop where
  wired : s.Wired config
  closes : ∀ c, s.table.closing c = true → .closeInLoop ∈ s.upcoming config c

omit [DecidableEq T] [DecidableEq K] in
theorem start_closing : (start : UdpServer K T).Closing config where
  wired := start_wired
  closes _ h := by cases h

theorem Closing.effect (h : s.Closing config) (hs' : s'.Wired config)
    {step : UdpServerStep K T} (heffect : s.Effect config s' step) :
    s'.Closing config := by
  refine ⟨hs', fun c hc => ?_⟩
  cases heffect with
  | accepted key data now d haccepted =>
      rw [haccepted.upcoming]
      apply List.mem_append_left
      apply h.closes
      rcases haccepted.found with hknown | hmade
      · rw [hknown.table] at hc
        exact hc
      · rw [hmade.closing] at hc
        by_cases heq : c = d
        · simp [heq] at hc
        · simpa [heq] using hc
  | called thread now left task rest hcalled hupcoming =>
      rw [hupcoming]
      rw [hcalled.closing] at hc
      exact h.closes c hc
  | closed _ thread d hcloses hclosed =>
      rw [hclosed.upcoming]
      by_cases heq : c = d
      · rw [if_neg (not_not_intro heq)]
        split <;> simp
      · rw [if_pos heq]
        rw [hclosed.closing, Function.update_of_ne heq] at hc
        exact h.closes c hc
  | quiet _ hcloses _ hquiet =>
      rw [upcoming, hquiet.calls, hquiet.tasks]
      rw [hquiet.closing] at hc
      exact h.closes c hc

omit [DecidableEq T] [DecidableEq K] in
/-- A close with a call behind it that makes a callback. -/
theorem broken_of_sublist (hchange : config.connectChange = true) {c : Nat}
    {call : UdpCall} {callback : UdpCallback}
    (hcallback : config.callback call = some callback)
    (hsublist : [.closeInLoop, call].Sublist (s.upcoming config c)) :
    s.Broken config c := by
  refine ⟨callback, ?_⟩
  have hmap := hsublist.filterMap config.callback
  rw [List.filterMap_cons, List.filterMap_cons, List.filterMap_nil,
    hcallback] at hmap
  simpa only [announced, UdpServerConfig.callback, hchange, if_true] using hmap

/-- A second close comes before or behind the first. -/
theorem close_twice {front back : List UdpCall}
    (h : .closeInLoop ∈ front ++ back) :
    [UdpCall.closeInLoop, .closeInLoop].Sublist
      (front ++ .closeInLoop :: back) := by
  rcases List.mem_append.mp h with hfront | hback
  · exact (List.singleton_sublist.mpr hfront).append
      ((List.nil_sublist back).cons_cons _)
  · exact ((List.singleton_sublist.mpr hback).cons_cons _).trans
      (List.sublist_append_right _ _)

omit [DecidableEq K] in
theorem Closing.closed_broken (h : s.Closing config) {thread : T} {c : Nat}
    (hclosed : s.Closed config s' thread c)
    (hchange : config.connectChange = true)
    (hbad : ¬ (s.table.closing c = false ∧
      (thread = config.loopOf c →
        (callsOf (s.tasks thread) c).filterMap config.callback = []))) :
    s'.Broken config c := by
  have hclose : config.callback .closeInLoop =
      some (.connectChange false) := by
    simp [UdpServerConfig.callback, hchange]
  have hupcoming := hclosed.upcoming c
  rw [if_neg (not_not_intro rfl)] at hupcoming
  cases hclosing : s.table.closing c with
  | true =>
      apply broken_of_sublist hchange hclose
      rw [hupcoming]
      split
      · exact close_twice (h.closes c hclosing)
      · apply close_twice
        rw [List.append_nil]
        exact h.closes c hclosing
  | false =>
      have hwaits : thread = config.loopOf c ∧
          (callsOf (s.tasks thread) c).filterMap config.callback ≠ [] := by
        by_contra hnot
        refine hbad ⟨hclosing, fun hthread => ?_⟩
        by_contra hsome
        exact hnot ⟨hthread, hsome⟩
      obtain ⟨rfl, hsome⟩ := hwaits
      obtain ⟨callback, hcallback⟩ := List.exists_mem_of_ne_nil _ hsome
      obtain ⟨call, hcall, hcallback⟩ := List.mem_filterMap.mp hcallback
      apply broken_of_sublist hchange hcallback
      rw [hupcoming, if_pos rfl]
      exact ((List.singleton_sublist.mpr hcall).cons_cons _).trans
        (List.sublist_append_right _ _)

/-- A step after which no order is broken has met the condition. -/
theorem Closing.closesOnce (h : s.Closing config) {step : UdpServerStep K T}
    (heffect : s.Effect config s' step)
    (hwhole : config.connectChange = true → ∀ c, ¬ s'.Broken config c) :
    s.ClosesOnce config step := by
  intro hchange
  refine ⟨fun thread c hcloses => ?_,
    fun key data now hstep hmessage c hkey => ?_⟩
  · cases heffect with
    | accepted _ _ _ _ _ => cases hcloses
    | called _ _ _ _ _ _ _ => cases hcloses
    | closed _ thread' c' hcloses' hclosed =>
        obtain ⟨rfl, rfl⟩ := Prod.mk.inj
          (Option.some.inj (hcloses'.symm.trans hcloses))
        by_contra hbad
        exact hwhole hchange c' (h.closed_broken hclosed hchange hbad)
    | quiet _ hnone _ _ => cases hnone.symm.trans hcloses
  · subst hstep
    by_contra hclosing
    rw [Bool.not_eq_false] at hclosing
    cases heffect with
    | accepted _ _ _ d haccepted =>
        apply hwhole hchange c
        apply broken_of_sublist hchange
          (show config.callback (.handleRead data) = some .message by
            simp [UdpServerConfig.callback, hmessage])
        rcases haccepted.found with hknown | hmade
        · obtain rfl : d = c :=
            Option.some.inj (hknown.known.symm.trans hkey)
          rw [haccepted.upcoming]
          apply List.Sublist.append
            (List.singleton_sublist.mpr (h.closes d hclosing))
          simp [passed, hkey, callsOf_singleton, UdpTask.conn, UdpTask.call]
        · exact absurd (hmade.unknown.symm.trans hkey) (by simp)
    | closed _ _ _ hcloses _ => cases hcloses
    | quiet _ _ hother _ => exact absurd rfl (hother key data now)

/-- A step does not mend a broken order. -/
theorem Broken.effect {c : Nat} {step : UdpServerStep K T}
    (h : s.Broken config c) (heffect : s.Effect config s' step) :
    s'.Broken config c := by
  obtain ⟨callback, hcallback⟩ := h
  exact ⟨callback, hcallback.trans (announced_sublist heffect c)⟩

omit [DecidableEq T] [DecidableEq K] in
/-- When all functors have run, a broken order is seen in the callbacks. -/
theorem Broken.not_behaved {c : Nat} (hs : s.Wired config)
    (h : s.Broken config c) (hchange : config.connectChange = true)
    (hdrained : s.Drained) : ¬ s.Behaved config := by
  intro hbehaved
  obtain ⟨callback, hsublist⟩ := h
  have hcalls : s.announced config c = s.callbacks c := by
    rw [announced, upcoming, hdrained, callsOf_nil, List.append_nil,
      hs.callbacks]
  obtain ⟨reads, hprefix⟩ := hbehaved c
  have hlong : [.connectChange false, callback].Sublist
      ((UdpCall.lifetime reads false).filterMap config.callback ++
        [.connectChange false]) := by
    rw [hcalls] at hsublist
    have hwhole := hsublist.trans hprefix.sublist
    rw [← lifetime_close, List.filterMap_append] at hwhole
    simpa [UdpServerConfig.callback, hchange] using hwhole
  obtain ⟨front, back, hsplit, hfront, hback⟩ :=
    List.sublist_append_iff.mp hlong
  cases front with
  | nil =>
      rw [List.nil_append] at hsplit
      rw [← hsplit] at hback
      exact absurd hback.length_le (by simp)
  | cons first front =>
      obtain ⟨rfl, _⟩ := List.cons.inj hsplit
      obtain ⟨call, hcall, hfalse⟩ := List.mem_filterMap.mp
        (hfront.subset List.mem_cons_self)
      simp only [UdpCall.lifetime, Bool.false_eq_true, if_false,
        List.append_nil, List.mem_cons, List.mem_map] at hcall
      rcases hcall with rfl | ⟨data, _, rfl⟩
      · simp [UdpServerConfig.callback, hchange] at hfalse
      · simp [UdpServerConfig.callback] at hfalse

/-- In a run after which no functor is queued, the callbacks show every close
that does not meet the condition. -/
theorem Closing.meets {word : List (UdpServerStep K T)}
    (h : s.Closing config)
    (hlegal : (udpServerMachine K config).Legal s word)
    (hdrained : ∀ t, (udpServerMachine K config).run s word = some t →
      t.Drained)
    (hholds : (udpServerMachine K config).Holds (Behaved config) s word) :
    (udpServerMachine K config).Meets (ClosesOnce config) s word := by
  apply Machine.meets_of_doomed (I := Closing config)
    (B := fun s => s.Wired config ∧ config.connectChange = true ∧
      ∃ c, s.Broken config c) _ _ _ h hlegal _ hholds
  · intro s step hs henabled _
    obtain ⟨s', hexec, hs', heffect⟩ := udpServer_step hs.wired henabled
    exact ⟨s', hexec, hs.effect hs' heffect⟩
  · intro s step s' hs henabled hnot hexec _
    obtain ⟨t, ht, hs', heffect⟩ := udpServer_step hs.wired henabled
    obtain rfl : s' = t := Option.some.inj (hexec.symm.trans ht)
    by_contra hwhole
    exact hnot (hs.closesOnce heffect fun hchange c hbroken =>
      hwhole ⟨hs', hchange, c, hbroken⟩)
  · rintro s step s' ⟨hs, hchange, c, hbroken⟩ _ henabled hexec
    obtain ⟨t, ht, hs', heffect⟩ := udpServer_step hs henabled
    obtain rfl : s' = t := Option.some.inj (hexec.symm.trans ht)
    exact ⟨hs', hchange, c, hbroken.effect heffect⟩
  · rintro t hrun hbehaved ⟨ht, hchange, c, hbroken⟩
    exact hbroken.not_behaved ht hchange (hdrained t hrun) hbehaved

end UdpServer

open UdpServer

/-- Callback protocol.  If `close` is called once for a connection, finds none
of its functors waiting when it is called on the thread of the loop, and no
datagram is accepted afterwards, then the callbacks of the connection follow
the protocol; and a run at whose end no functor is queued follows it only
then. -/
theorem udpServer_protocol_iff [DecidableEq T] [DecidableEq K]
    (config : UdpServerConfig T) (word : List (UdpServerStep K T))
    (hlegal : (udpServerMachine K config).Legal .start word) :
    ((udpServerMachine K config).Meets (ClosesOnce config) .start word →
      (udpServerMachine K config).Holds (Behaved config) .start word) ∧
    ((∀ t, (udpServerMachine K config).run .start word = some t →
        t.Drained) →
      ((udpServerMachine K config).Holds (Behaved config) .start word ↔
        (udpServerMachine K config).Meets (ClosesOnce config) .start word)) := by
  have henough :
      (udpServerMachine K config).Meets (ClosesOnce config) .start word →
        (udpServerMachine K config).Holds (Behaved config) .start word := by
    intro honce
    have hrun : (udpServerMachine K config).Holds (Orderly config)
        .start word := by
      apply Machine.holds_of_step _ start_orderly (hlegal.and honce)
      intro s step hs hstep
      exact hs.step hstep.1 hstep.2
    exact hrun.mono fun s hs => hs.behaved
  exact ⟨henough, fun hdrained =>
    ⟨start_closing.meets hlegal hdrained, henough⟩⟩

/-- The state after a datagram has made a connection, and the worker has
established it. -/
structure UdpServer.Greeted (s : UdpServer Bool Bool) : Prop where
  wired : s.Wired .oneWorker
  tasks : s.tasks true = [.handleRead 0 [1] 0]
  calls : s.calls 0 = [.onConnectEstablished]
  made : s.table.made = [true]
  closing : s.table.closing 0 = false
  frames : s.frames true = []
  phase : s.phase = .running
  clock : s.clock = 0

/-- The first steps of a server: a datagram and the call of the functor that it
puts first. -/
def greeting : List (UdpServerStep Bool Bool) :=
  [.recvDatagram true [1] 0, .callFunctor true 0 (Buffer.ofSize 0)]

theorem greeting_greeted :
    (udpServerMachine Bool .oneWorker).Legal .start greeting ∧
      (udpServerMachine Bool .oneWorker).Meets (ClosesOnce .oneWorker) .start
        greeting ∧
      ∃ s, (udpServerMachine Bool .oneWorker).run .start greeting = some s ∧
        s.Greeted := by
  have hloop : UdpServerConfig.oneWorker.loopOf 0 = true := by decide
  obtain ⟨t, hrecv, ht, haccepted, hmade⟩ := start_recvDatagram
    .oneWorker true 0 (show [1].length ≤ 65536 by decide)
  have htasks : t.tasks true =
      [.onConnectEstablished 0, .handleRead 0 [1] 0] := by
    rw [haccepted.tasks, hloop, Function.update_self]
    rfl
  have hclock : t.clock ≤ 0 := Int.le_of_eq haccepted.clock
  have hframes : t.frames true = [] := by
    rw [haccepted.frames]
    rfl
  have hsome : t.tasks true ≠ [] := by simp [htasks]
  obtain ⟨s, hcall, hs, _, task, rest, hcalled⟩ :=
    ht.callFunctor 0 (Buffer.ofSize 0) hsome
  obtain ⟨rfl, rfl⟩ := List.cons.inj (hcalled.head.symm.trans htasks)
  have hcall' : (udpServerMachine Bool .oneWorker).exec t
      (.callFunctor true 0 (Buffer.ofSize 0)) = some s := hcall
  refine ⟨Machine.meets_cons ⟨⟨rfl, rfl⟩, rfl, by decide, by decide⟩ hrecv ?_,
    ⟨fun _ => ?_, fun t' ht' => ⟨fun _ => ?_, fun _ _ => trivial⟩⟩, s, ?_, hs,
    ?_, ?_, ?_, ?_, ?_, hcalled.phase.trans haccepted.phase, hcalled.clock⟩
  · exact ⟨⟨hframes, hsome, hclock, fun hmaster => by cases hmaster⟩,
      fun _ _ => trivial⟩
  · exact ⟨by simp [closesOn], fun _ _ _ _ _ _ hkey => by cases hkey⟩
  · exact ⟨by simp [closesOn], by simp⟩
  · simp only [greeting, Machine.run, hrecv, hcall', Option.bind_some]
  · rw [hcalled.tasks, Function.update_self]
  · rw [hcalled.calls, haccepted.calls]
    rfl
  · rw [hcalled.made, hmade.made]
    rfl
  · rw [hcalled.closing, hmade.closing, Function.update_self]
  · rw [hcalled.frames, if_neg (by decide)]
    exact hframes

theorem UdpServer.Greeted.callbacks {s : UdpServer Bool Bool}
    (h : s.Greeted) : s.callbacks 0 = [.connectChange true] := by
  rw [h.wired.callbacks, h.calls]
  rfl

/-- The application closes a connection from another thread. -/
theorem udpServer_protocol_iff_close :
    (udpServerMachine Bool .oneWorker).Holds (Behaved .oneWorker) .start
      (greeting ++ [.close false 0]) := by
  obtain ⟨hlegal, honce, s, hrun, hs⟩ := greeting_greeted
  have hloop : UdpServerConfig.oneWorker.loopOf 0 = true := by decide
  refine (udpServer_protocol_iff .oneWorker (greeting ++ [.close false 0])
    (hlegal.append hrun ?_)).1 (honce.append hrun ?_)
  · refine ⟨⟨?_, ?_, fun _ => Or.inl ?_⟩, fun _ _ => trivial⟩
    · rw [hs.made]
      decide
    · rw [hs.callbacks]
      exact List.cons_ne_nil _ _
    · rw [hs.phase]
      rfl
  · refine ⟨fun _ => ⟨fun thread c hcloses => ?_, by simp⟩, fun _ _ => trivial⟩
    cases hcloses
    exact ⟨hs.closing, fun hthread => by cases hthread.trans hloop⟩

/-- The worker closes the connection in its connect-change callback, and then
calls the functor of the first datagram. -/
theorem udpServer_message_after_close :
    (udpServerMachine Bool .oneWorker).Legal .start
        (greeting ++ [.close true 0, .returnCallback true,
          .callFunctor true 0 (Buffer.ofSize 0)]) ∧
      ¬ (udpServerMachine Bool .oneWorker).Holds (Behaved .oneWorker) .start
        (greeting ++ [.close true 0, .returnCallback true,
          .callFunctor true 0 (Buffer.ofSize 0)]) := by
  obtain ⟨hlegal, _, s, hrun, hs⟩ := greeting_greeted
  have hloop : true = UdpServerConfig.oneWorker.loopOf 0 := by decide
  have hbound : 0 < s.table.made.length := by simp [hs.made]
  -- the close
  let t := s.close .oneWorker true 0
  have hclosed : s.Closed .oneWorker t true 0 := closed_close true hbound
  have ht : t.Wired .oneWorker := hs.wired.close true hbound
  have htasks : t.tasks true = [.handleRead 0 [1] 0] := by
    rw [hclosed.tasks, if_pos hloop, hs.tasks]
  have hcalls : t.calls 0 = [.onConnectEstablished, .closeInLoop] := by
    rw [hclosed.calls, if_pos hloop, Function.update_self, hs.calls]
    rfl
  have hframes : t.frames true = [0] := by
    rw [hclosed.frames, if_pos hloop, Function.update_self, hs.frames]
  -- the return of its callback
  let u : UdpServer Bool Bool := { t with
    table := t.table.closeInLoop 0
    frames := Function.update t.frames true [] }
  have hreturn : t.returnCallback true = some u := by
    simp only [returnCallback, hframes, u]
  have hu : u.Wired .oneWorker := by
    obtain ⟨u', hu', hwired, _⟩ :=
      ht.returnCallback (show t.frames true ≠ [] by simp [hframes])
    obtain rfl : u = u' := Option.some.inj (hreturn.symm.trans hu')
    exact hwired
  -- the functor of the datagram
  have hsome : u.tasks true ≠ [] := by simp [u, htasks]
  obtain ⟨v, hcall, hv, _, task, rest, hcalled⟩ :=
    hu.callFunctor 0 (Buffer.ofSize 0) hsome
  obtain ⟨rfl, rfl⟩ := List.cons.inj
    (hcalled.head.symm.trans (show u.tasks true = _ from htasks))
  have hcalls' : v.calls 0 =
      [.onConnectEstablished, .closeInLoop, .handleRead [1]] := by
    rw [hcalled.calls]
    change Function.update t.calls 0 (t.calls 0 ++ _) 0 = _
    rw [Function.update_self, hcalls]
    rfl
  have hclock : u.clock ≤ 0 :=
    Int.le_of_eq (hclosed.clock.trans hs.clock)
  have hclose' : (udpServerMachine Bool .oneWorker).exec s
      (.close true 0) = some t := rfl
  have hreturn' : (udpServerMachine Bool .oneWorker).exec t
      (.returnCallback true) = some u := hreturn
  have hcall' : (udpServerMachine Bool .oneWorker).exec u
      (.callFunctor true 0 (Buffer.ofSize 0)) = some v := hcall
  constructor
  · refine hlegal.append hrun (Machine.meets_cons ?_ hclose'
      (Machine.meets_cons ?_ hreturn' ⟨?_, fun _ _ => trivial⟩))
    · refine ⟨hbound, ?_, fun hmaster => by cases hmaster⟩
      rw [hs.callbacks]
      exact List.cons_ne_nil _ _
    · change t.frames true ≠ []
      simp [hframes]
    · have hidle : u.frames true = [] := by simp [u]
      exact ⟨hidle, hsome, hclock, fun hmaster => by cases hmaster⟩
  · intro hholds
    obtain ⟨v', hv', hbehaved⟩ := hholds.last
    have hrun' : (udpServerMachine Bool .oneWorker).run .start
        (greeting ++ [.close true 0, .returnCallback true,
          .callFunctor true 0 (Buffer.ofSize 0)]) = some v := by
      rw [Machine.run_front hrun, Machine.run_cons hclose',
        Machine.run_cons hreturn', Machine.run_cons hcall', Machine.run]
    obtain rfl : v = v' := Option.some.inj (hrun'.symm.trans hv')
    obtain ⟨reads, hprefix⟩ := hbehaved 0
    rw [hv.callbacks, hcalls'] at hprefix
    cases reads with
    | nil => exact absurd hprefix.length_le (by decide)
    | cons data reads =>
        obtain ⟨rest, hrest⟩ := hprefix
        simp [UdpCall.lifetime, UdpServerConfig.callback,
          UdpServerConfig.oneWorker] at hrest

end Libsaf
