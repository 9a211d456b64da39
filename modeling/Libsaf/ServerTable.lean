/-
The table `_connections` of `saf::TcpServer` and `saf::UdpServer`.  Entries are
made on the loop of the server, connections close on loops of their own, and
the entry of a closed connection is erased by a functor that looks it up by the
address of the peer.
-/
import Libsaf.EventLoop
import Mathlib.Logic.Function.Basic

namespace Libsaf

universe u

variable {K : Type u}

inductive ServerKind where
  | tcp
  | udp
deriving Repr, DecidableEq

/-- `ExpiredTime`, in milliseconds. -/
def ExpiredTime : Int := 30 * 1000

/-- Connections are numbered; `made` holds the index of each of them.  `closing`
says that the connection has begun to close, and `dropped` that its removal
functor has run or that it has expired.  `functors` holds the connections of the
removal functors, and `erased` the pairs of a connection that was removed and
the one whose entry was erased. -/
structure ServerTable (K : Type u) where
  connections : K → Option Nat
  made : List K
  established : Nat → Bool
  closing : Nat → Bool
  closeCallback : Nat → Bool
  activedTime : Nat → Int
  dropped : Nat → Bool
  functors : FunctorQueue Nat
  running : Bool
  erased : List (Nat × Nat)

/-- `close` is a call of the method, `closeInLoop` its functor, or the end that
the peer makes; both happen on any thread. -/
inductive ServerStep (K : Type u) where
  | newConnection (key : K) (now : Int)
  | recvMessage (key : K) (now : Int)
  | establish (c : Nat)
  | handleRead (c : Nat) (now : Int)
  | close (c : Nat)
  | closeInLoop (c : Nat)
  | checkExpired (now : Int)
  | swapFunctors
  | callFunctor
  | returnFunctors
deriving Repr, DecidableEq

namespace ServerTable

def start : ServerTable K :=
  { connections := fun _ => none
    made := []
    established := fun _ => false
    closing := fun _ => false
    closeCallback := fun _ => false
    activedTime := fun _ => 0
    dropped := fun _ => false
    functors := .empty
    running := false
    erased := [] }

variable [DecidableEq K]

/-- `newConnectionInLoop`: a new connection takes the entry of its index. -/
def newConnectionInLoop (s : ServerTable K) (key : K) (now : Int) :
    ServerTable K :=
  let c := s.made.length
  { s with
    connections := Function.update s.connections key (some c)
    made := s.made ++ [key]
    established := Function.update s.established c false
    closing := Function.update s.closing c false
    closeCallback := Function.update s.closeCallback c true
    activedTime := Function.update s.activedTime c now
    dropped := Function.update s.dropped c false }

/-- A datagram of an unknown peer makes a connection; the others are passed on
to the loop of theirs. -/
def recvMessageInLoop (s : ServerTable K) (key : K) (now : Int) :
    ServerTable K :=
  match s.connections key with
  | none => s.newConnectionInLoop key now
  | some _ => s

/-- The close callback queues the removal. -/
def closeInLoop (s : ServerTable K) (c : Nat) : ServerTable K :=
  { s with
    closing := Function.update s.closing c true
    functors :=
      if s.closeCallback c then s.functors.queueInLoop c else s.functors }

def removeConnectionInLoop (s : ServerTable K) (c : Nat) : ServerTable K :=
  let s := { s with
    closeCallback := Function.update s.closeCallback c false
    dropped := Function.update s.dropped c true }
  match s.made[c]? with
  | none => s
  | some key =>
      match s.connections key with
      | none => s
      | some value => { s with
          connections := Function.update s.connections key none
          erased := s.erased ++ [(c, value)] }

def isExpired (s : ServerTable K) (now : Int) (c : Nat) : Bool :=
  now - s.activedTime c > ExpiredTime

/-- The check finds the connection in its entry and closes it. -/
def expires (s : ServerTable K) (now : Int) (c : Nat) : Bool :=
  s.made[c]?.bind s.connections = some c ∧ s.isExpired now c

/-- Expired entries are erased, and their connections begin to close. -/
def checkExpiredInLoop (s : ServerTable K) (now : Int) : ServerTable K :=
  { s with
    connections := fun key =>
      (s.connections key).filter fun c => !s.isExpired now c
    closing := fun c => s.closing c || s.expires now c
    dropped := fun c => s.dropped c || s.expires now c }

end ServerTable

/-- The server is running.  The address of a peer is seen again by `accept`
when all connections with it have begun to close. -/
def serverMachine (K : Type u) [DecidableEq K] (kind : ServerKind) :
    Machine (ServerTable K) (ServerStep K) where
  enabled s
    | .newConnection key _ => kind = .tcp ∧ s.running = false ∧
        ∀ c < s.made.length, s.made[c]? = some key → s.closing c = true
    | .recvMessage _ _ | .checkExpired _ => kind = .udp ∧ s.running = false
    | .establish c | .handleRead c _ | .close c | .closeInLoop c =>
        c < s.made.length
    | .swapFunctors => s.running = false
    | .callFunctor => s.running = true ∧ s.functors.batch ≠ []
    | .returnFunctors => s.running = true ∧ s.functors.batch = []
  exec s
    | .newConnection key now => some (s.newConnectionInLoop key now)
    | .recvMessage key now => some (s.recvMessageInLoop key now)
    | .establish c => some { s with
        established := Function.update s.established c true }
    | .handleRead c now => some { s with
        activedTime := Function.update s.activedTime c now }
    | .close c => some { s with
        closing := Function.update s.closing c true }
    | .closeInLoop c => some (s.closeInLoop c)
    | .checkExpired now => some (s.checkExpiredInLoop now)
    | .swapFunctors => some { s with
        functors := s.functors.swapFunctors
        running := true }
    | .callFunctor => s.functors.nextFunctor.map fun (c, functors) =>
        { s with functors := functors }.removeConnectionInLoop c
    | .returnFunctors => some { s with running := false }

namespace ServerTable

/-- Removals erase only entries of their own, and a connection that is
established and has not begun to close is stored under its index. -/
structure Kept (s : ServerTable K) : Prop where
  own : ∀ entry ∈ s.erased, entry.1 = entry.2
  stored : ∀ c key, s.made[c]? = some key → s.established c = true →
    s.closing c = false → s.connections key = some c

/-- The last connection with an index. -/
def Newest (s : ServerTable K) (key : K) (d : Nat) : Prop :=
  s.made[d]? = some key ∧ ∀ e < s.made.length, d < e → s.made[e]? ≠ some key

/-- A connection is the last one with its index, or that one was dropped. -/
def IsLast (s : ServerTable K) (c : Nat) : Prop :=
  ∀ d < s.made.length, s.made[d]? = s.made[c]? →
    (∀ e < s.made.length, d < e → s.made[e]? ≠ s.made[c]?) →
    d = c ∨ s.dropped d = true

/-- Removal functors run for such connections. -/
def RemovesLast (s : ServerTable K) : ServerStep K → Prop
  | .callFunctor => ∀ c ∈ s.functors.batch.head?, s.IsLast c
  | _ => True

/-- The table as the history of the connections has it. -/
structure Tracked (s : ServerTable K) : Prop where
  own : ∀ entry ∈ s.erased, entry.1 = entry.2
  newest : ∀ key d, s.connections key = some d ↔
    s.Newest key d ∧ s.dropped d = false
  opened : ∀ c key, s.made[c]? = some key → s.closing c = false →
    s.connections key = some c
  queued : ∀ c ∈ s.functors.pending, c < s.made.length ∧ s.closing c = true
  idle : s.running = false → s.functors.batch = []

variable {s : ServerTable K}

theorem Tracked.kept (h : s.Tracked) : s.Kept :=
  ⟨h.own, fun c key hmade _ hclosing => h.opened c key hmade hclosing⟩

theorem start_tracked : (start : ServerTable K).Tracked := by
  constructor <;> simp [start, Newest, FunctorQueue.empty, FunctorQueue.pending]

/-- A connection begins to close, and perhaps queues its removal. -/
theorem Tracked.closes (h : s.Tracked) {c : Nat} (hc : c < s.made.length)
    {functors : FunctorQueue Nat} (hbatch : functors.batch = s.functors.batch)
    (hpending : ∀ d ∈ functors.pending, d ∈ s.functors.pending ∨ d = c) :
    Tracked { s with
      closing := Function.update s.closing c true
      functors := functors } := by
  have hclosing : ∀ d, s.closing d = true →
      Function.update s.closing c true d = true := by
    intro d hd
    rcases eq_or_ne d c with rfl | hne
    · exact Function.update_self ..
    · rw [Function.update_of_ne hne]
      exact hd
  refine ⟨h.own, h.newest, fun d key hmade hopen => ?_, fun d hd => ?_,
    fun hidle => hbatch.trans (h.idle hidle)⟩
  · refine h.opened d key hmade (Bool.eq_false_iff.mpr fun hd => ?_)
    exact absurd (hopen.symm.trans (hclosing d hd)) (by decide)
  · rcases hpending d hd with hold | rfl
    · exact ⟨(h.queued d hold).1, hclosing d (h.queued d hold).2⟩
    · exact ⟨hc, Function.update_self ..⟩

theorem Tracked.closeInLoop (h : s.Tracked) {c : Nat}
    (hc : c < s.made.length) : (s.closeInLoop c).Tracked := by
  refine h.closes hc ?_ fun d hd => ?_
  · split <;> rfl
  · split at hd
    · rw [FunctorQueue.pending_queueInLoop] at hd
      simpa using hd
    · exact Or.inl hd

theorem Tracked.checkExpiredInLoop (h : s.Tracked) (now : Int) :
    (s.checkExpiredInLoop now).Tracked := by
  have hexpires : ∀ c key, s.made[c]? = some key →
      s.connections key = some c → s.expires now c = s.isExpired now c := by
    intro c key hmade hstored
    simp [expires, hmade, hstored]
  constructor
  · exact h.own
  · intro key d
    change (s.connections key).filter (fun c => !s.isExpired now c) = some d ↔
      s.Newest key d ∧ (s.dropped d || s.expires now d) = false
    rw [Option.filter_eq_some_iff, Bool.or_eq_false_iff, ← and_assoc,
      ← h.newest]
    refine and_congr_right fun hstored => ?_
    rw [hexpires d key ((h.newest key d).mp hstored).1.1 hstored]
    simp
  · intro c key hmade hclosing
    obtain ⟨hopen, hexpire⟩ := Bool.or_eq_false_iff.mp hclosing
    have hstored := h.opened c key hmade hopen
    rw [hexpires c key hmade hstored] at hexpire
    change (s.connections key).filter (fun c => !s.isExpired now c) = some c
    rw [Option.filter_eq_some_iff]
    exact ⟨hstored, by simp [hexpire]⟩
  · intro c hc
    obtain ⟨hbound, hclosing⟩ := h.queued c hc
    exact ⟨hbound, by simp [ServerTable.checkExpiredInLoop, hclosing]⟩
  · exact h.idle

variable [DecidableEq K]

theorem newest_snoc {key : K} {s' : ServerTable K}
    (hmade : s'.made = s.made ++ [key]) (other : K) (d : Nat) :
    s'.Newest other d ↔
      if other = key then d = s.made.length else s.Newest other d := by
  have hlast : (s.made ++ [key])[s.made.length]? = some key := by simp
  have hold : ∀ e < s.made.length, (s.made ++ [key])[e]? = s.made[e]? :=
    fun e he => List.getElem?_append_left he
  unfold Newest
  rw [hmade, List.length_append, List.length_singleton]
  split
  · next heq =>
      subst heq
      constructor
      · rintro ⟨hd, hnewest⟩
        have hle : d < s.made.length + 1 := by
          simpa using (List.getElem?_eq_some_iff.mp hd).1
        by_contra hne
        exact hnewest s.made.length (by omega) (by omega) hlast
      · rintro rfl
        exact ⟨hlast, fun e he hlt => by omega⟩
  · next hne =>
      have hnot : (s.made ++ [key])[s.made.length]? ≠ some other := by
        rw [hlast]
        exact fun heq => hne (Option.some.inj heq).symm
      constructor
      · rintro ⟨hd, hnewest⟩
        have hlt : d < s.made.length := by
          have hle : d < s.made.length + 1 := by
            simpa using (List.getElem?_eq_some_iff.mp hd).1
          rcases Nat.lt_succ_iff_lt_or_eq.mp hle with hlt | rfl
          · exact hlt
          · exact absurd hd hnot
        refine ⟨hold d hlt ▸ hd, fun e he hde => ?_⟩
        rw [← hold e he]
        exact hnewest e (by omega) hde
      · rintro ⟨hd, hnewest⟩
        have hlt : d < s.made.length := (List.getElem?_eq_some_iff.mp hd).1
        refine ⟨(hold d hlt).trans hd, fun e he hde => ?_⟩
        rcases Nat.lt_succ_iff_lt_or_eq.mp he with hlt' | rfl
        · rw [hold e hlt']
          exact hnewest e hlt' hde
        · exact hnot

theorem Tracked.newConnectionInLoop (h : s.Tracked) {key : K} (now : Int)
    (hfree : ∀ c < s.made.length, s.made[c]? = some key →
      s.closing c = true) :
    (s.newConnectionInLoop key now).Tracked := by
  have hlt : ∀ {d : Nat} {other : K}, s.made[d]? = some other →
      d < s.made.length := fun hd => (List.getElem?_eq_some_iff.mp hd).1
  constructor
  · exact h.own
  · intro other d
    have hmade : (s.newConnectionInLoop key now).made = s.made ++ [key] := rfl
    rw [newest_snoc hmade]
    simp only [ServerTable.newConnectionInLoop]
    by_cases hother : other = key
    · subst hother
      rw [Function.update_self, if_pos rfl, Option.some.injEq]
      constructor
      · rintro rfl
        exact ⟨rfl, Function.update_self ..⟩
      · exact fun hd => hd.1.symm
    · rw [Function.update_of_ne hother, if_neg hother, h.newest]
      constructor
      · rintro ⟨hd, hdropped⟩
        rw [Function.update_of_ne (Nat.ne_of_lt (hlt hd.1))]
        exact ⟨hd, hdropped⟩
      · rintro ⟨hd, hdropped⟩
        rw [Function.update_of_ne (Nat.ne_of_lt (hlt hd.1))] at hdropped
        exact ⟨hd, hdropped⟩
  · intro c other hmade hclosing
    simp only [ServerTable.newConnectionInLoop] at hmade hclosing ⊢
    rcases Nat.lt_or_ge c s.made.length with hc | hc
    · rw [List.getElem?_append_left hc] at hmade
      rw [Function.update_of_ne (Nat.ne_of_lt hc)] at hclosing
      have hother : other ≠ key := by
        rintro rfl
        exact absurd (hclosing.symm.trans (hfree c hc hmade)) (by decide)
      rw [Function.update_of_ne hother]
      exact h.opened c other hmade hclosing
    · have hlast : c = s.made.length := by
        have hbound := (List.getElem?_eq_some_iff.mp hmade).1
        rw [List.length_append, List.length_singleton] at hbound
        omega
      subst hlast
      obtain rfl : key = other := by simpa using hmade
      exact Function.update_self ..
  · intro c hc
    obtain ⟨hbound, hclosing⟩ := h.queued c hc
    simp only [ServerTable.newConnectionInLoop, List.length_append,
      List.length_singleton, Function.update_of_ne (Nat.ne_of_lt hbound)]
    exact ⟨by omega, hclosing⟩
  · exact h.idle

theorem Tracked.recvMessageInLoop (h : s.Tracked) (key : K) (now : Int) :
    (s.recvMessageInLoop key now).Tracked := by
  unfold ServerTable.recvMessageInLoop
  split
  · next hnone =>
      refine h.newConnectionInLoop now fun c _ hmade => ?_
      by_contra hclosing
      have hstored := h.opened c key hmade (Bool.eq_false_iff.mpr hclosing)
      exact absurd (hnone.symm.trans hstored) (by simp)
  · exact h

/-- A removal that finds its own entry, or none, keeps the account of the
table. -/
theorem Tracked.removeConnectionInLoop (h : s.Tracked) {c : Nat}
    (hbound : c < s.made.length) (hclosing : s.closing c = true)
    (hlast : s.IsLast c) : (s.removeConnectionInLoop c).Tracked := by
  obtain ⟨key, hkey⟩ : ∃ key, s.made[c]? = some key :=
    ⟨_, List.getElem?_eq_getElem hbound⟩
  -- the entry of the index is that of the connection, or there is none
  have hentry : ∀ d, s.connections key = some d → d = c := by
    intro d hd
    obtain ⟨hd', hdropped⟩ := (h.newest key d).mp hd
    rw [IsLast, hkey] at hlast
    have hlt := (List.getElem?_eq_some_iff.mp hd'.1).1
    refine (hlast d hlt hd'.1 hd'.2).resolve_right fun hdropped' => ?_
    exact absurd (hdropped.symm.trans hdropped') (by decide)
  have hothers : ∀ other d, other ≠ key → s.connections other = some d →
      d ≠ c := by
    rintro other d hother hd rfl
    have hmade := ((h.newest other d).mp hd).1.1
    exact hother (Option.some.inj (hmade.symm.trans hkey))
  have hopened : ∀ d other, s.made[d]? = some other → s.closing d = false →
      other ≠ key := by
    rintro d other hmade hopen rfl
    have hd := hentry d (h.opened d other hmade hopen)
    subst hd
    exact absurd (hclosing.symm.trans hopen) (by decide)
  unfold ServerTable.removeConnectionInLoop
  simp only [hkey]
  cases hstored : s.connections key with
  | none =>
      refine ⟨h.own, fun other d => ?_, h.opened, h.queued, h.idle⟩
      change s.connections other = some d ↔ s.Newest other d ∧
        Function.update s.dropped c true d = false
      rw [h.newest]
      rcases eq_or_ne d c with rfl | hne
      · rw [Function.update_self]
        refine iff_of_false (fun hd => ?_) fun hd => by cases hd.2
        have hother : other = key :=
          Option.some.inj (hd.1.1.symm.trans hkey)
        have hd' := (h.newest other d).mpr hd
        rw [hother, hstored] at hd'
        cases hd'
      · rw [Function.update_of_ne hne]
  | some value =>
      obtain rfl := hentry value hstored
      refine ⟨fun entry hmem => ?_, fun other d => ?_, fun d other hmade hopen =>
        ?_, h.queued, h.idle⟩
      · rcases List.mem_append.mp hmem with hold | hnew
        · exact h.own entry hold
        · rw [List.mem_singleton.mp hnew]
      · change Function.update s.connections key none other = some d ↔
          s.Newest other d ∧ Function.update s.dropped value true d = false
        rcases eq_or_ne other key with rfl | hother
        · rw [Function.update_self]
          refine iff_of_false (by simp) fun hd => ?_
          rcases eq_or_ne d value with rfl | hne
          · rw [Function.update_self] at hd
            cases hd.2
          · rw [Function.update_of_ne hne] at hd
            exact hne (hentry d ((h.newest other d).mpr hd))
        · rw [Function.update_of_ne hother]
          constructor
          · intro hd
            rw [Function.update_of_ne (hothers other d hother hd)]
            exact (h.newest other d).mp hd
          · rintro ⟨hd, hdropped⟩
            have hne : d ≠ value := by
              rintro rfl
              exact hother (Option.some.inj (hd.1.symm.trans hkey))
            rw [Function.update_of_ne hne] at hdropped
            exact (h.newest other d).mpr ⟨hd, hdropped⟩
      · change Function.update s.connections key none other = some d
        rw [Function.update_of_ne (hopened d other hmade hopen)]
        exact h.opened d other hmade hopen

/-- A removal that erases nothing but its own entry has met its condition. -/
theorem Tracked.isLast (h : s.Tracked) {c : Nat}
    (hkept : (s.removeConnectionInLoop c).Kept) (hbound : c < s.made.length) :
    s.IsLast c := by
  obtain ⟨key, hkey⟩ : ∃ key, s.made[c]? = some key :=
    ⟨_, List.getElem?_eq_getElem hbound⟩
  intro d _ hmade hlast
  rw [hkey] at hmade hlast
  by_cases hdropped : s.dropped d = true
  · exact Or.inr hdropped
  · have hstored : s.connections key = some d :=
      (h.newest key d).mpr ⟨⟨hmade, hlast⟩, Bool.eq_false_iff.mpr hdropped⟩
    have hmem : (c, d) ∈ (s.removeConnectionInLoop c).erased := by
      simp [ServerTable.removeConnectionInLoop, hkey, hstored]
    exact Or.inl (hkept.own _ hmem).symm

omit [DecidableEq K] in
/-- The connection of the next removal functor, and the state that it finds. -/
theorem Tracked.next (h : s.Tracked) {c : Nat} {rest : List Nat}
    (hcons : s.functors.batch = c :: rest) :
    c < s.made.length ∧ s.closing c = true ∧
      Tracked { s with functors := { s.functors with batch := rest } } := by
  have hpending : s.functors.pending =
      c :: FunctorQueue.pending { s.functors with batch := rest } :=
    FunctorQueue.pending_nextFunctor (by rw [FunctorQueue.nextFunctor, hcons])
  obtain ⟨hbound, hclosing⟩ := h.queued c (by rw [hpending]; simp)
  refine ⟨hbound, hclosing, h.own, h.newest, h.opened, fun d hd => ?_,
    fun hidle => ?_⟩
  · exact h.queued d (hpending ▸ List.mem_cons_of_mem c hd)
  · have hempty := h.idle hidle
    rw [hcons] at hempty
    cases hempty

variable {kind : ServerKind}

theorem callFunctor_exec {c : Nat} {rest : List Nat}
    (hcons : s.functors.batch = c :: rest) :
    (serverMachine K kind).exec s .callFunctor = some
      ({ s with functors := { s.functors with batch := rest } :
        ServerTable K }.removeConnectionInLoop c) := by
  simp only [serverMachine, FunctorQueue.nextFunctor, hcons, Option.map_some]

theorem step_tracked (h : s.Tracked) (step : ServerStep K)
    (hstep : (serverMachine K kind).enabled s step)
    (hremoves : s.RemovesLast step) :
    ∃ s', (serverMachine K kind).exec s step = some s' ∧ s'.Tracked := by
  cases step with
  | newConnection key now =>
      exact ⟨_, rfl, h.newConnectionInLoop now hstep.2.2⟩
  | recvMessage key now => exact ⟨_, rfl, h.recvMessageInLoop key now⟩
  | establish c =>
      exact ⟨_, rfl, h.own, h.newest, h.opened, h.queued, h.idle⟩
  | handleRead c now =>
      exact ⟨_, rfl, h.own, h.newest, h.opened, h.queued, h.idle⟩
  | close c =>
      exact ⟨_, rfl, h.closes hstep rfl fun d hd => Or.inl hd⟩
  | closeInLoop c => exact ⟨_, rfl, h.closeInLoop hstep⟩
  | checkExpired now => exact ⟨_, rfl, h.checkExpiredInLoop now⟩
  | swapFunctors =>
      refine ⟨_, rfl, h.own, h.newest, h.opened, ?_,
        fun hrunning => by cases hrunning⟩
      change ∀ c ∈ s.functors.swapFunctors.pending, _
      rw [FunctorQueue.pending_swapFunctors (h.idle hstep)]
      exact h.queued
  | callFunctor =>
      obtain ⟨c, rest, hcons⟩ := List.exists_cons_of_ne_nil hstep.2
      obtain ⟨hbound, hclosing, hnext⟩ := h.next hcons
      refine ⟨_, callFunctor_exec hcons,
        hnext.removeConnectionInLoop hbound hclosing ?_⟩
      exact hremoves c (by rw [hcons, List.head?_cons, Option.mem_some])
  | returnFunctors =>
      exact ⟨_, rfl, h.own, h.newest, h.opened, h.queued, fun _ => hstep.2⟩

theorem step_removesLast (h : s.Tracked) (step : ServerStep K)
    {s' : ServerTable K} (hexec : (serverMachine K kind).exec s step = some s')
    (hkept : s'.Kept) : s.RemovesLast step := by
  cases step with
  | callFunctor =>
      intro c hc
      obtain ⟨rest, hcons⟩ := List.head?_eq_some_iff.mp hc
      obtain ⟨hbound, _, hnext⟩ := h.next hcons
      obtain rfl := Option.some.inj (hexec.symm.trans (callFunctor_exec hcons))
      exact hnext.isLast hkept hbound
  | _ => trivial

end ServerTable

/-- Connection table of a server.  In every state of every run, removals have
erased only entries of their own, and every connection that is established and
has not begun to close is stored under its index, exactly as long as each
removal functor runs before another connection is made with its index, or after
the last of them was dropped as well. -/
theorem serverTable_kept_iff {K : Type u} [DecidableEq K] (kind : ServerKind)
    (word : List (ServerStep K))
    (hlegal : (serverMachine K kind).Legal .start word) :
    (serverMachine K kind).Holds ServerTable.Kept .start word ↔
      (serverMachine K kind).Meets ServerTable.RemovesLast .start word := by
  apply Machine.holds_iff_meets (I := ServerTable.Tracked)
    (E := (serverMachine K kind).enabled)
  · exact fun s hs => hs.kept
  · exact fun s step hs hstep hremoves =>
      ServerTable.step_tracked hs step hstep hremoves
  · exact fun s step s' hs _ hexec hs' =>
      ServerTable.step_removesLast hs step hexec hs'
  · exact ServerTable.start_tracked
  · exact hlegal

instance [DecidableEq K] (s : ServerTable K) (c : Nat) :
    Decidable (s.IsLast c) :=
  inferInstanceAs (Decidable (∀ d < s.made.length,
    s.made[d]? = s.made[c]? →
      (∀ e < s.made.length, d < e → s.made[e]? ≠ s.made[c]?) →
      d = c ∨ s.dropped d = true))

instance [DecidableEq K] (s : ServerTable K) (step : ServerStep K) :
    Decidable (s.RemovesLast step) :=
  match step with
  | .callFunctor => inferInstanceAs (Decidable
      (∀ c ∈ s.functors.batch.head?, s.IsLast c))
  | .newConnection _ _ | .recvMessage _ _ | .establish _ | .handleRead _ _
  | .close _ | .closeInLoop _ | .checkExpired _ | .swapFunctors
  | .returnFunctors => isTrue trivial

instance [DecidableEq K] (kind : ServerKind) (s : ServerTable K)
    (step : ServerStep K) : Decidable ((serverMachine K kind).enabled s step) :=
  match step with
  | .newConnection key _ => inferInstanceAs (Decidable
      (kind = .tcp ∧ s.running = false ∧
        ∀ c < s.made.length, s.made[c]? = some key → s.closing c = true))
  | .recvMessage _ _ | .checkExpired _ => inferInstanceAs
      (Decidable (kind = .udp ∧ s.running = false))
  | .establish c | .handleRead c _ | .close c | .closeInLoop c =>
      inferInstanceAs (Decidable (c < s.made.length))
  | .swapFunctors => inferInstanceAs (Decidable (s.running = false))
  | .callFunctor => inferInstanceAs
      (Decidable (s.running = true ∧ s.functors.batch ≠ []))
  | .returnFunctors => inferInstanceAs
      (Decidable (s.running = true ∧ s.functors.batch = []))

/-- The peer comes back when the removal functor has run. -/
theorem serverTable_kept_iff_later :
    (serverMachine Nat .udp).Holds ServerTable.Kept .start
      [.recvMessage 5 0, .establish 0, .checkExpired 40000, .closeInLoop 0,
        .swapFunctors, .callFunctor, .returnFunctors, .recvMessage 5 40010,
        .establish 1] :=
  (serverTable_kept_iff .udp _ (by decide +kernel)).mpr (by decide +kernel)

/-- A silent peer expires, and sends again before the removal functor runs. -/
def expiredRun : List (ServerStep Nat) :=
  [.recvMessage 5 0, .establish 0, .checkExpired 40000, .closeInLoop 0,
    .recvMessage 5 40010, .establish 1, .swapFunctors, .callFunctor]

/-- A peer resets its connection, and connects again from the same port. -/
def resetRun : List (ServerStep Nat) :=
  [.newConnection 5 0, .establish 0, .closeInLoop 0, .newConnection 5 10,
    .establish 1, .swapFunctors, .callFunctor]

theorem serverTable_not_kept :
    ((serverMachine Nat .udp).Legal .start expiredRun ∧
      ¬(serverMachine Nat .udp).Holds ServerTable.Kept .start expiredRun) ∧
    ((serverMachine Nat .tcp).Legal .start resetRun ∧
      ¬(serverMachine Nat .tcp).Holds ServerTable.Kept .start resetRun) := by
  have hudp : ((serverMachine Nat .udp).run .start expiredRun).map
      ServerTable.erased = some [(0, 1)] := by
    decide +kernel
  have htcp : ((serverMachine Nat .tcp).run .start resetRun).map
      ServerTable.erased = some [(0, 1)] := by
    decide +kernel
  have herased : ∀ {kind : ServerKind} {word : List (ServerStep Nat)},
      ((serverMachine Nat kind).run .start word).map ServerTable.erased =
        some [(0, 1)] →
      ¬(serverMachine Nat kind).Holds ServerTable.Kept .start word := by
    intro kind word hlast
    refine Machine.not_holds_of_view hlast fun t herased hkept => ?_
    have hmem : (0, 1) ∈ t.erased := by
      rw [herased]
      exact List.mem_singleton_self _
    exact absurd (hkept.own _ hmem) (by decide)
  exact ⟨⟨by decide +kernel, herased hudp⟩, by decide +kernel, herased htcp⟩

end Libsaf
