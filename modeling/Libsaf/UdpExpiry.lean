/-
The expiry check of a `saf::UdpServer`.  The server reads the time that the
worker loop stamps when it handles a datagram, so a datagram that still waits
on that loop does not count.
-/
import Libsaf.UdpServer

namespace Libsaf

universe u v

variable {K : Type u} {T : Type v}

namespace UdpServer

variable {config : UdpServerConfig T} {s s' : UdpServer K T}

/-- Whatever the check removed had got no datagram in the last `ExpiredTime`. -/
def Sound (s : UdpServer K T) : Prop :=
  ∀ expiry ∈ s.expired, ∀ t ∈ expiry.accepted, expiry.now - t > ExpiredTime

/-- When the check erases an entry, the datagrams that wait for the connection
are older than `ExpiredTime`. -/
def Seen (config : UdpServerConfig T) (s : UdpServer K T) :
    UdpServerStep K T → Prop
  | .checkEntry c =>
      match s.phase with
      | .checking now _ _ => s.table.isExpired now c = true →
          ∀ data t, .handleRead c data t ∈ s.tasks (config.loopOf c) →
            now - t > ExpiredTime
      | _ => True
  | _ => True

/-- The activity times and the datagrams that wait account for all that was
accepted. -/
structure Timed (config : UdpServerConfig T) (s : UdpServer K T) : Prop where
  wired : s.Wired config
  past : ∀ datagram ∈ s.received, datagram.accepted ≤ s.clock
  covered : ∀ c, ∀ datagram ∈ s.received,
    s.table.connections datagram.key = some c →
      datagram.accepted ≤ s.table.activedTime c ∨
        ∃ data, .handleRead c data datagram.accepted ∈
          s.tasks (config.loopOf c)
  queued : ∀ loop c data t, .handleRead c data t ∈ s.tasks loop →
    ∃ datagram ∈ s.received,
      s.table.made[c]? = some datagram.key ∧ datagram.accepted = t
  checking : ∀ c ∈ s.phase.toCheck, s.IsStored c

theorem start_timed : (start : UdpServer K T).Timed config where
  wired := start_wired
  past _ h := absurd h List.not_mem_nil
  covered _ _ h := absurd h List.not_mem_nil
  queued _ _ _ _ h := absurd h List.not_mem_nil
  checking _ h := absurd h List.not_mem_nil

theorem IsStored.entry {c : Nat} (h : s.IsStored c) :
    ∃ key, s.table.made[c]? = some key ∧
      s.table.connections key = some c :=
  Option.bind_eq_some_iff.mp h

theorem isStored_of_entry {c : Nat} (key : K)
    (hmade : s.table.made[c]? = some key)
    (hentry : s.table.connections key = some c) : s.IsStored c :=
  Option.bind_eq_some_iff.mpr ⟨key, hmade, hentry⟩

variable [DecidableEq K]

theorem mem_acceptedFrom {c : Nat} {t : Int} :
    t ∈ s.acceptedFrom c ↔ ∃ datagram ∈ s.received,
      s.table.made[c]? = some datagram.key ∧ datagram.accepted = t := by
  simp [acceptedFrom, and_assoc]

/-- An entry that is erased with `Seen` was due. -/
theorem Timed.due (h : s.Timed config) {c : Nat} {now : Int}
    (hstored : s.IsStored c) (hexpired : s.table.isExpired now c = true)
    (hseen : ∀ data t, .handleRead c data t ∈ s.tasks (config.loopOf c) →
      now - t > ExpiredTime) :
    ∀ t ∈ s.acceptedFrom c, now - t > ExpiredTime := by
  intro t ht
  obtain ⟨datagram, hreceived, hmade, rfl⟩ := mem_acceptedFrom.mp ht
  obtain ⟨key, hkey, hentry⟩ := hstored.entry
  obtain rfl : datagram.key = key := Option.some.inj (hmade.symm.trans hkey)
  rcases h.covered c datagram hreceived hentry with hactived | ⟨data, hwaits⟩
  · have hold : now - s.table.activedTime c > ExpiredTime := by
      simpa [ServerTable.isExpired] using hexpired
    omega
  · exact hseen data datagram.accepted hwaits

/-- A datagram that waits is one of those that were accepted. -/
theorem Timed.waiting (h : s.Timed config) {loop : T} {c : Nat}
    {data : List UInt8} {t : Int}
    (hwaits : .handleRead c data t ∈ s.tasks loop) : t ∈ s.acceptedFrom c :=
  mem_acceptedFrom.mpr (h.queued loop c data t hwaits)

variable [DecidableEq T] {key : K} {data : List UInt8} {now : Int} {c : Nat}

theorem Accepted.mem_tasks (h : s.Accepted config s' key data now c)
    {loop : T} {task : UdpTask} :
    task ∈ s'.tasks loop ↔ task ∈ s.tasks loop ∨
      loop = config.loopOf c ∧ task ∈ s.passed key data now c := by
  rw [h.tasks]
  by_cases hloop : loop = config.loopOf c
  · subst hloop
    simp
  · simp [hloop]

omit [DecidableEq T] [DecidableEq K] in
theorem mem_passed {d : Nat} {other : List UInt8} {t : Int} :
    .handleRead d other t ∈ s.passed key data now c ↔
      d = c ∧ other = data ∧ t = now := by
  unfold passed
  split <;> simp

/-- The datagram went to the connection of its peer. -/
theorem Accepted.entry (h : s.Accepted config s' key data now c) :
    s'.table.connections key = some c := by
  rcases h.found with hknown | hmade
  · rw [hknown.table]
    exact hknown.known
  · rw [hmade.connections, Function.update_self]

/-- The other entries and the activity times of their connections stay. -/
theorem Accepted.other (h : s.Accepted config s' key data now c)
    (hs : s.Wired config) {other : K} {d : Nat} (hkey : other ≠ key)
    (hentry : s'.table.connections other = some d) :
    s.table.connections other = some d ∧
      s'.table.activedTime d = s.table.activedTime d := by
  rcases h.found with hknown | hmade
  · rw [hknown.table] at hentry
    exact ⟨hentry, by rw [hknown.table]⟩
  · rw [hmade.connections, Function.update_of_ne hkey] at hentry
    have hlt := (List.getElem?_eq_some_iff.mp (hs.stored other d hentry)).1
    have hne : d ≠ c := by
      rw [hmade.conn]
      exact Nat.ne_of_lt hlt
    exact ⟨hentry, by rw [hmade.activedTime, Function.update_of_ne hne]⟩

/-- The connections that were made stay under their keys. -/
theorem Accepted.made (h : s.Accepted config s' key data now c) {d : Nat}
    {other : K} (hmade : s.table.made[d]? = some other) :
    s'.table.made[d]? = some other := by
  rcases h.found with hknown | hnew
  · rw [hknown.table]
    exact hmade
  · have hlt := (List.getElem?_eq_some_iff.mp hmade).1
    rw [hnew.made, List.getElem?_append_left hlt]
    exact hmade

theorem Timed.accepted (h : s.Timed config) (hs' : s'.Wired config)
    (haccepted : s.Accepted config s' key data now c)
    (hphase : s.phase.isIdle = true) (hclock : s.clock ≤ now) :
    s'.Timed config := by
  have hpast : ∀ datagram ∈ s'.received, datagram.accepted ≤ now := by
    intro datagram hdatagram
    rw [haccepted.received, List.mem_append, List.mem_singleton] at hdatagram
    rcases hdatagram with hold | rfl
    · exact Int.le_trans (h.past datagram hold) hclock
    · exact Int.le_refl _
  refine ⟨hs', ?_, fun d datagram hdatagram hentry => ?_,
    fun loop d other t htask => ?_, fun d hd => ?_⟩
  · rw [haccepted.clock]
    exact hpast
  · by_cases hnew : datagram ∈ s.received
    · by_cases hkey : datagram.key = key
      · rw [hkey, haccepted.entry] at hentry
        obtain rfl := Option.some.inj hentry
        rcases haccepted.found with hknown | hmade
        · have hcovered := h.covered c datagram hnew (hkey ▸ hknown.known)
          rw [hknown.table]
          refine hcovered.imp_right fun ⟨waiting, hwaits⟩ => ?_
          exact ⟨waiting, haccepted.mem_tasks.mpr (Or.inl hwaits)⟩
        · rw [hmade.activedTime, Function.update_self]
          exact Or.inl (hpast datagram hdatagram)
      · obtain ⟨hold, hactived⟩ := haccepted.other h.wired hkey hentry
        rw [hactived]
        refine (h.covered d datagram hnew hold).imp_right
          fun ⟨waiting, hwaits⟩ => ?_
        exact ⟨waiting, haccepted.mem_tasks.mpr (Or.inl hwaits)⟩
    · rw [haccepted.received, List.mem_append, List.mem_singleton] at hdatagram
      obtain rfl := hdatagram.resolve_left hnew
      obtain rfl := Option.some.inj (haccepted.entry.symm.trans hentry)
      exact Or.inr ⟨data, haccepted.mem_tasks.mpr
        (Or.inr ⟨rfl, mem_passed.mpr ⟨rfl, rfl, rfl⟩⟩)⟩
  · rw [haccepted.received]
    rcases haccepted.mem_tasks.mp htask with hold | ⟨_, hpassed⟩
    · obtain ⟨datagram, hreceived, hmade, ht⟩ := h.queued loop d other t hold
      exact ⟨datagram, List.mem_append_left _ hreceived,
        haccepted.made hmade, ht⟩
    · obtain ⟨rfl, _, rfl⟩ := mem_passed.mp hpassed
      exact ⟨_, List.mem_append_right _ List.mem_cons_self,
        hs'.stored key _ haccepted.entry, rfl⟩
  · rw [haccepted.phase] at hd
    exact absurd hd (not_toCheck_of_isIdle hphase d)

omit [DecidableEq K] [DecidableEq T] in
theorem activedAfter_cases (task : UdpTask) (now : Int) (d : Nat) :
    s.activedAfter task now d = now ∨
      s.activedAfter task now d = s.table.activedTime d := by
  cases task with
  | handleRead c data t =>
      by_cases hd : d = c
      · subst hd
        exact Or.inl (Function.update_self ..)
      · exact Or.inr (Function.update_of_ne hd ..)
  | onConnectEstablished c => exact Or.inr rfl
  | closeInLoop c => exact Or.inr rfl

omit [DecidableEq K] in
theorem Timed.called (h : s.Timed config) (hs' : s'.Wired config)
    {thread : T} {task : UdpTask} {rest : List UdpTask}
    (hcalled : s.Called s' thread task rest now) (hclock : s.clock ≤ now) :
    s'.Timed config := by
  have hpast : ∀ datagram ∈ s.received, datagram.accepted ≤ now :=
    fun datagram hdatagram => Int.le_trans (h.past datagram hdatagram) hclock
  have hstay : ∀ {loop queued}, queued ∈ s.tasks loop → queued ≠ task →
      queued ∈ s'.tasks loop := by
    intro loop queued hqueued hne
    rw [hcalled.tasks]
    by_cases hloop : loop = thread
    · subst hloop
      rw [hcalled.head] at hqueued
      rw [Function.update_self]
      exact (List.mem_cons.mp hqueued).resolve_left hne
    · rwa [Function.update_of_ne hloop]
  refine ⟨hs', ?_, fun d datagram hdatagram hentry => ?_,
    fun loop d other t htask => ?_, fun d hd => ?_⟩
  · rw [hcalled.clock, hcalled.received]
    exact hpast
  · rw [hcalled.received] at hdatagram
    rw [hcalled.connections] at hentry
    rw [hcalled.activedTime]
    rcases h.covered d datagram hdatagram hentry with hactived | hwaits
    · left
      rcases activedAfter_cases (s := s) task now d with hnow | hsame
      · rw [hnow]
        exact hpast datagram hdatagram
      · rw [hsame]
        exact hactived
    · obtain ⟨waiting, hwaits⟩ := hwaits
      by_cases htask : .handleRead d waiting datagram.accepted = task
      · left
        rw [← htask, activedAfter, Function.update_self]
        exact hpast datagram hdatagram
      · exact Or.inr ⟨waiting, hstay hwaits htask⟩
  · rw [hcalled.tasks] at htask
    rw [hcalled.received, hcalled.made]
    by_cases hloop : loop = thread
    · subst hloop
      rw [Function.update_self] at htask
      apply h.queued loop d other t
      rw [hcalled.head]
      exact List.mem_cons_of_mem task htask
    · rw [Function.update_of_ne hloop] at htask
      exact h.queued loop d other t htask
  · rw [hcalled.phase] at hd
    have hstored := h.checking d hd
    rw [IsStored, ← hcalled.made, ← hcalled.connections] at hstored
    exact hstored

omit [DecidableEq K] in
/-- `close` puts no datagram on a loop and takes none away. -/
theorem Closed.mem_tasks {thread : T} (h : s.Closed config s' thread c)
    {loop : T} {d : Nat} {other : List UInt8} {t : Int} :
    .handleRead d other t ∈ s'.tasks loop ↔
      .handleRead d other t ∈ s.tasks loop := by
  rw [h.tasks]
  split
  · exact Iff.rfl
  · by_cases hloop : loop = config.loopOf c
    · subst hloop
      simp
    · rw [Function.update_of_ne hloop]

omit [DecidableEq K] in
theorem Timed.closed (h : s.Timed config) (hs' : s'.Wired config)
    {thread : T} (hclosed : s.Closed config s' thread c) :
    s'.Timed config := by
  refine ⟨hs', ?_, fun d datagram hdatagram hentry => ?_,
    fun loop d other t htask => ?_, fun d hd => ?_⟩
  · rw [hclosed.clock, hclosed.received]
    exact h.past
  · rw [hclosed.received] at hdatagram
    rw [hclosed.connections] at hentry
    rw [hclosed.activedTime]
    refine (h.covered d datagram hdatagram hentry).imp_right
      fun ⟨waiting, hwaits⟩ => ?_
    exact ⟨waiting, hclosed.mem_tasks.mpr hwaits⟩
  · rw [hclosed.received, hclosed.made]
    exact h.queued loop d other t (hclosed.mem_tasks.mp htask)
  · rw [hclosed.toCheck] at hd
    have hstored := h.checking d hd
    rw [IsStored, ← hclosed.made, ← hclosed.connections] at hstored
    exact hstored

omit [DecidableEq T] in
theorem Timed.quiet (h : s.Timed config) (hs' : s'.Wired config)
    {step : UdpServerStep K T} (hquiet : s.Quiet s' step) :
    s'.Timed config := by
  refine ⟨hs', ?_, fun d datagram hdatagram hentry => ?_,
    fun loop d other t htask => ?_, hquiet.checking h.checking⟩
  · rw [hquiet.received]
    exact fun datagram hdatagram =>
      Int.le_trans (h.past datagram hdatagram) hquiet.clock
  · rw [hquiet.received] at hdatagram
    rw [hquiet.activedTime, hquiet.tasks]
    exact h.covered d datagram hdatagram (hquiet.connections _ d hentry)
  · rw [hquiet.tasks] at htask
    rw [hquiet.received, hquiet.made]
    exact h.queued loop d other t htask

/-- What a step does keeps the account. -/
theorem Timed.step (h : s.Timed config) {step : UdpServerStep K T}
    (henabled : (udpServerMachine K config).enabled s step) :
    ∃ s', (udpServerMachine K config).exec s step = some s' ∧
      s'.Timed config := by
  obtain ⟨s', hexec, hs', heffect⟩ := udpServer_step h.wired henabled
  refine ⟨s', hexec, ?_⟩
  cases heffect with
  | accepted key data now c haccepted =>
      exact h.accepted hs' haccepted henabled.1.2 henabled.2.2.2
  | called thread now left task rest hcalled _ =>
      exact h.called hs' hcalled henabled.2.2.1
  | closed _ thread c _ hclosed => exact h.closed hs' hclosed
  | quiet _ _ _ hquiet => exact h.quiet hs' hquiet

omit [DecidableEq T] in
/-- The next entry of the check. -/
theorem checkEntry_expired {rest deletes : List Nat}
    (hphase : s.phase = .checking now rest deletes)
    (hexec : s.checkEntry c = some s') :
    s'.expired = if s.table.isExpired now c = true then
      s.expired ++ [⟨c, now, s.acceptedFrom c⟩] else s.expired := by
  simp only [checkEntry, hphase] at hexec
  split at hexec
  · next hexpired =>
      rw [if_pos hexpired, ← Option.some.inj hexec]
  · next hexpired =>
      rw [if_neg hexpired, ← Option.some.inj hexec]

/-- The other steps find nothing expired. -/
theorem Timed.expired_eq (h : s.Timed config) {step : UdpServerStep K T}
    (henabled : (udpServerMachine K config).enabled s step)
    (hexec : (udpServerMachine K config).exec s step = some s')
    (hstep : ∀ c, step ≠ .checkEntry c) : s'.expired = s.expired := by
  obtain ⟨t, ht, _, heffect⟩ := udpServer_step h.wired henabled
  obtain rfl : t = s' := Option.some.inj (ht.symm.trans hexec)
  cases heffect with
  | accepted key data now c haccepted => exact haccepted.expired
  | called thread now left task rest hcalled _ => exact hcalled.expired
  | closed _ thread c _ hclosed => exact hclosed.expired
  | quiet _ _ _ hquiet =>
      rcases hquiet.expired with hsame | ⟨c, _, _, _, hcheck, _⟩
      · exact hsame
      · exact absurd hcheck (hstep c)

/-- A step keeps the check sound exactly when what it erases was seen. -/
theorem Timed.sound_iff (h : s.Timed config) (hsound : s.Sound)
    {step : UdpServerStep K T}
    (henabled : (udpServerMachine K config).enabled s step)
    (hexec : (udpServerMachine K config).exec s step = some s') :
    s'.Sound ↔ s.Seen config step := by
  cases step with
  | checkEntry c =>
      have hc : c ∈ s.phase.toCheck := henabled
      cases hphase : s.phase with
      | running => simp [hphase, UdpPhase.toCheck] at hc
      | stopping rest => simp [hphase, UdpPhase.toCheck] at hc
      | stopped => simp [hphase, UdpPhase.toCheck] at hc
      | checking now rest deletes =>
          have hexpired := checkEntry_expired hphase hexec
          simp only [Seen, hphase]
          constructor
          · intro hs' hdue data t hwaits
            apply hs' ⟨c, now, s.acceptedFrom c⟩
            · rw [hexpired, if_pos hdue]
              exact List.mem_append_right _ List.mem_cons_self
            · exact h.waiting hwaits
          · intro hseen expiry hexpiry
            rw [hexpired] at hexpiry
            split at hexpiry
            · next hdue =>
                rcases List.mem_append.mp hexpiry with hold | hnew
                · exact hsound expiry hold
                · obtain rfl := List.mem_singleton.mp hnew
                  exact h.due (h.checking c hc) hdue (hseen hdue)
            · exact hsound expiry hexpiry
  | _ =>
      have hsame := h.expired_eq henabled hexec (by simp)
      refine ⟨fun _ => trivial, fun _ => ?_⟩
      rw [Sound, hsame]
      exact hsound

end UdpServer

open UdpServer

/-- Expiry.  In every run, what the check removes had got no datagram in the
last `ExpiredTime` exactly when no such datagram was waiting on the loop of a
connection whose entry the check erased. -/
theorem udpServer_expiry_iff [DecidableEq T] [DecidableEq K]
    (config : UdpServerConfig T)
    (word : List (UdpServerStep K T))
    (hlegal : (udpServerMachine K config).Legal .start word) :
    (udpServerMachine K config).Holds Sound .start word ↔
      (udpServerMachine K config).Meets (Seen config) .start word := by
  apply Machine.holds_iff_meets (E := (udpServerMachine K config).enabled)
    (I := fun s => s.Timed config ∧ s.Sound)
  · exact fun s hs => hs.2
  · intro s step hs henabled hseen
    obtain ⟨s', hexec, hs'⟩ := hs.1.step henabled
    exact ⟨s', hexec, hs', (hs.1.sound_iff hs.2 henabled hexec).mpr hseen⟩
  · intro s step s' hs henabled hexec hsound
    exact (hs.1.sound_iff hs.2 henabled hexec).mp hsound
  · exact ⟨start_timed, fun expiry hexpiry => absurd hexpiry List.not_mem_nil⟩
  · exact hlegal

/-- A datagram and a check that finds its connection active. -/
theorem udpServer_expiry_iff_active :
    (udpServerMachine Bool .oneWorker).Holds Sound .start
      [.recvDatagram true [1] 7, .checkExpired 8, .checkEntry 0] := by
  obtain ⟨s, hexec, _, haccepted, hmade⟩ := start_recvDatagram
    .oneWorker true 7 (show [1].length ≤ 65536 by decide)
  have hentry : 0 ∈ s.stored := by
    refine mem_stored.mpr ⟨?_, isStored_of_entry true ?_ ?_⟩
    · rw [hmade.made]
      decide
    · rw [hmade.made]
      rfl
    · exact haccepted.entry
  refine (udpServer_expiry_iff .oneWorker _ ?_).mpr ?_
  · refine Machine.meets_cons ⟨⟨rfl, rfl⟩, rfl, by decide, by decide⟩ hexec ?_
    refine Machine.meets_cons ⟨⟨?_, ?_⟩, ?_, ?_⟩ rfl ⟨hentry, fun _ _ => trivial⟩
    · rw [haccepted.frames]
      rfl
    · rw [haccepted.phase]
      rfl
    · rw [haccepted.phase]
      rfl
    · rw [haccepted.clock]
      decide
  · refine Machine.meets_cons trivial hexec ?_
    refine Machine.meets_cons trivial rfl ⟨fun hexpired => ?_, fun _ _ => trivial⟩
    have hactived : s.table.activedTime 0 = 7 := by
      rw [hmade.activedTime, Function.update_self]
    simp [ServerTable.isExpired, hactived, ExpiredTime] at hexpired

/-- The state after the worker has handled the first datagram of a peer. -/
structure UdpServer.Handled (s : UdpServer Bool Bool) : Prop where
  wired : s.Wired .oneWorker
  made : s.table.made = [true]
  entry : s.table.connections true = some 0
  activedTime : s.table.activedTime 0 = 0
  frames : s.frames false = []
  phase : s.phase = .running
  clock : s.clock = 0
  received : s.received = [⟨true, [1], 0⟩]
  expired : s.expired = []

/-- A datagram arrives, and its two functors are called. -/
def handling : List (UdpServerStep Bool Bool) :=
  [.recvDatagram true [1] 0, .callFunctor true 0 (Buffer.ofSize 0),
    .callFunctor true 0 (Buffer.ofSize 0)]

theorem handling_handled :
    (udpServerMachine Bool .oneWorker).Legal .start handling ∧
      ∃ s, (udpServerMachine Bool .oneWorker).run .start handling = some s ∧
        s.Handled := by
  have hloop : UdpServerConfig.oneWorker.loopOf 0 = true := by decide
  obtain ⟨t, hrecv, ht, haccepted, hmade⟩ := start_recvDatagram
    .oneWorker true 0 (show [1].length ≤ 65536 by decide)
  have htasks : t.tasks true =
      [.onConnectEstablished 0, .handleRead 0 [1] 0] := by
    rw [haccepted.tasks, hloop, Function.update_self]
    rfl
  have hframes : t.frames = fun _ => [] := haccepted.frames
  have hsome : t.tasks true ≠ [] := by simp [htasks]
  obtain ⟨u, hestablish, hu, _, task, rest, hfirst⟩ :=
    ht.callFunctor 0 (Buffer.ofSize 0) hsome
  obtain ⟨rfl, rfl⟩ := List.cons.inj (hfirst.head.symm.trans htasks)
  have hestablish' : (udpServerMachine Bool .oneWorker).exec t
      (.callFunctor true 0 (Buffer.ofSize 0)) = some u := hestablish
  have hrest : u.tasks true = [.handleRead 0 [1] 0] := by
    rw [hfirst.tasks, Function.update_self]
  have hquiet : u.frames = fun _ => [] := by
    rw [hfirst.frames, if_neg (by decide), hframes]
  have hsome' : u.tasks true ≠ [] := by simp [hrest]
  obtain ⟨s, hread, hs, _, task, rest, hsecond⟩ :=
    hu.callFunctor 0 (Buffer.ofSize 0) hsome'
  obtain ⟨rfl, rfl⟩ := List.cons.inj (hsecond.head.symm.trans hrest)
  have hread' : (udpServerMachine Bool .oneWorker).exec u
      (.callFunctor true 0 (Buffer.ofSize 0)) = some s := hread
  refine ⟨Machine.meets_cons ⟨⟨rfl, rfl⟩, rfl, by decide, by decide⟩ hrecv
    (Machine.meets_cons ?_ hestablish' ⟨?_, fun _ _ => trivial⟩), s, ?_,
    hs, ?_, ?_, ?_, ?_, ?_, hsecond.clock, ?_, ?_⟩
  · exact ⟨congrFun hframes true, hsome, Int.le_of_eq haccepted.clock,
      fun hmaster => by cases hmaster⟩
  · exact ⟨congrFun hquiet true, hsome', Int.le_of_eq hfirst.clock,
      fun hmaster => by cases hmaster⟩
  · simp only [handling, Machine.run, hrecv, hestablish', hread',
      Option.bind_some]
  · rw [hsecond.made, hfirst.made, hmade.made]
    rfl
  · rw [hsecond.connections, hfirst.connections]
    exact haccepted.entry
  · rw [hsecond.activedTime, activedAfter, Function.update_self]
  · rw [hsecond.frames, if_neg (by decide), hquiet]
  · rw [hsecond.phase, hfirst.phase, haccepted.phase]
    rfl
  · rw [hsecond.received, hfirst.received, haccepted.received]
    rfl
  · rw [hsecond.expired, hfirst.expired, haccepted.expired]
    rfl

/-- Half a minute later a datagram is accepted, and the check comes before the
worker. -/
theorem udpServer_expires_active :
    (udpServerMachine Bool .oneWorker).Legal .start
        (handling ++ [.recvDatagram true [2] 30001, .checkExpired 30001,
          .checkEntry 0]) ∧
      ¬ (udpServerMachine Bool .oneWorker).Holds Sound .start
        (handling ++ [.recvDatagram true [2] 30001, .checkExpired 30001,
          .checkEntry 0]) := by
  obtain ⟨hlegal, s, hrun, hs⟩ := handling_handled
  obtain ⟨t, c, hrecv, _, haccepted⟩ := hs.wired.recvDatagram true 30001
    (show [2].length ≤ 65536 by decide)
  obtain ⟨hknown, htable⟩ : s.Known t true c := by
    rcases haccepted.found with hknown | hmade
    · exact hknown
    · exact absurd (hmade.unknown.symm.trans hs.entry) (by simp)
  obtain rfl := Option.some.inj (hknown.symm.trans hs.entry)
  have hrecv' : (udpServerMachine Bool .oneWorker).exec s
      (.recvDatagram true [2] 30001) = some t := hrecv
  let u : UdpServer Bool Bool :=
    { t with phase := .checking 30001 t.stored [], clock := 30001 }
  have hentry : 0 ∈ t.stored := by
    refine mem_stored.mpr ⟨?_, isStored_of_entry true ?_ ?_⟩
    · rw [htable, hs.made]
      decide
    · rw [htable, hs.made]
      rfl
    · exact haccepted.entry
  have hframes : t.frames false = [] := by
    rw [haccepted.frames]
    exact hs.frames
  have hphase : t.phase = .running := haccepted.phase.trans hs.phase
  constructor
  · refine hlegal.append hrun (Machine.meets_cons ?_ hrecv'
      (Machine.meets_cons (t := u) ?_ rfl ⟨hentry, fun _ _ => trivial⟩))
    · refine ⟨⟨hs.frames, by rw [hs.phase]; rfl⟩, hs.phase, by decide, ?_⟩
      rw [hs.clock]
      decide
    · exact ⟨⟨hframes, by rw [hphase]; rfl⟩, hphase,
        Int.le_of_eq haccepted.clock⟩
  · intro hholds
    obtain ⟨v, hv, hsound⟩ := hholds.last
    have hcheck : u.checkEntry 0 = some v := by
      have hexpire : (udpServerMachine Bool .oneWorker).exec t
          (.checkExpired 30001) = some u := rfl
      have hlast : (udpServerMachine Bool .oneWorker).exec u (.checkEntry 0) =
          u.checkEntry 0 := rfl
      rw [Machine.run_front hrun, Machine.run_cons hrecv',
        Machine.run_cons hexpire] at hv
      simpa only [Machine.run, hlast, Option.bind_fun_some] using hv
    have hdue : u.table.isExpired 30001 0 = true := by
      simp [u, htable, ServerTable.isExpired, hs.activedTime, ExpiredTime]
    have haccept : u.acceptedFrom 0 = [0, 30001] := by
      simp [acceptedFrom, u, haccepted.received, hs.received, htable, hs.made]
    have hexpired : v.expired = [⟨0, 30001, [0, 30001]⟩] := by
      rw [checkEntry_expired rfl hcheck, if_pos hdue, haccept]
      change t.expired ++ _ = _
      rw [haccepted.expired, hs.expired]
      rfl
    have hbad := hsound ⟨0, 30001, [0, 30001]⟩ (by simp [hexpired]) 30001
      (by decide)
    exact absurd hbad (by decide)

end Libsaf
