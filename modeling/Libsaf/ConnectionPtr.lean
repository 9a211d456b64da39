/-
Who owns the connection of a `saf::TcpClient`: its member `_connection`, the
temporaries of the calls that are under way, and the write-complete functors of
the loop.  The connection and its socket are destroyed when the last of these
lets go, which must not be inside `handleEvent` of that socket.
-/
import Libsaf.Dispatch
import Libsaf.EventLoop
import Libsaf.TcpConnection

namespace Libsaf

/-- Which callbacks the application has set on the client. -/
structure ClientCallbacks where
  recvMessage : Bool
  connectChange : Bool
  writeComplete : Bool
deriving Repr, DecidableEq

/-- The calls that are under way.  Connections are numbered.  `closeInLoop` is
between its two callbacks, `disconnect` before it resets `_connection`, and
`establish` is `notifyConnectionEstablished`. -/
inductive ClientFrame where
  | handleEvent (c : Nat) (revents : BitVec 32) (last : Option IOReport)
  | callback (c : Nat)
  | closeInLoop (c : Nat)
  | close (c : Nat)
  | disconnect
  | establish (c : Nat)
deriving Repr, DecidableEq

/-- The connection that a call holds a temporary `ConnectionPtr` of. -/
def ClientFrame.held : ClientFrame → Option Nat
  | .callback c | .close c | .establish c => some c
  | .handleEvent _ _ _ | .closeInLoop _ | .disconnect => none

/-- The call is `handleEvent` of the connection's socket, with `_handling`
set. -/
def ClientFrame.Handles (c : Nat) : ClientFrame → Prop
  | .handleEvent d _ last => d = c ∧ last ≠ some .close
  | _ => False

/-- The assertions that a client can run into: of `~IOFd`, of
`~TcpConnection`, of `handleCloseInLoop` and of `removeConnectionInLoop`. -/
inductive ClientAssertion where
  | notHandling
  | disconnected
  | open
  | current
deriving Repr, DecidableEq

/-- `functors` holds the connections of the write-complete functors; those of
`called` were called and stay in the local vector of `runFunctors`.  `next` is
the number of the next connection. -/
structure ClientRefs where
  connection : Option Nat
  status : Nat → TcpStatus
  closeCallback : Nat → Bool
  stack : List ClientFrame
  functors : FunctorQueue Nat
  called : List Nat
  running : Bool
  next : Nat
  failed : Option ClientAssertion

/-- What a read or a write of `handleEvent` comes to.  `message` is a call of
the callback: the read took bytes, or the write took the last of them. -/
inductive IOOutcome where
  | nothing
  | message
  | endOfStream
deriving Repr, DecidableEq

/-- `connected` is the event of the connector's socket that finds it
connected.  The application runs in callbacks, or when no call is under way;
`send` tells whether the message was written at once. -/
inductive ClientStep where
  | connected
  | dispatch (c : Nat) (revents : BitVec 32)
  | report (outcome : IOOutcome)
  | resume
  | send (c : Nat) (complete : Bool)
  | shutdown (c : Nat)
  | close (c : Nat)
  | disconnect
  | swapFunctors
  | callFunctor
  | returnFunctors
deriving Repr, DecidableEq

namespace ClientRefs

def start : ClientRefs :=
  { connection := none
    status := fun _ => .kConnecting
    closeCallback := fun _ => false
    stack := []
    functors := .empty
    called := []
    running := false
    next := 0
    failed := none }

/-- The owners that outlive the calls. -/
def keepers (s : ClientRefs) : List Nat :=
  s.connection.toList ++ s.functors.pending ++ s.called

/-- The reference count of a connection. -/
def useCount (s : ClientRefs) (c : Nat) : Nat :=
  (s.keepers ++ s.stack.filterMap ClientFrame.held).count c

instance (c : Nat) (frame : ClientFrame) : Decidable (frame.Handles c) :=
  match frame with
  | .handleEvent d _ last =>
      inferInstanceAs (Decidable (d = c ∧ last ≠ some .close))
  | .callback _ | .closeInLoop _ | .close _ | .disconnect | .establish _ =>
      isFalse id

/-- `~TcpConnection`, which deletes the socket. -/
def destroy (s : ClientRefs) (c : Nat) : ClientRefs :=
  if s.status c ≠ .kDisconnected then { s with failed := some .disconnected }
  else if ∃ frame ∈ s.stack, frame.Handles c then
    { s with failed := some .notHandling }
  else s

/-- A `ConnectionPtr` lets go of the connection. -/
def release (s : ClientRefs) (c : Nat) : ClientRefs :=
  if s.useCount c = 0 then s.destroy c else s

def push (s : ClientRefs) (frame : ClientFrame) : ClientRefs :=
  { s with stack := frame :: s.stack }

/-- The callback is called if it is set. -/
def notify (s : ClientRefs) (isSet : Bool) (c : Nat) : ClientRefs :=
  if isSet then s.push (.callback c) else s

/-- `TcpConnection::closeInLoop` up to its connect-change callback. -/
def closeInLoop (callbacks : ClientCallbacks) (s : ClientRefs) (c : Nat) :
    ClientRefs :=
  ({ s with
    status := Function.update s.status c .kDisconnected }.push
      (.closeInLoop c)).notify callbacks.connectChange c

def handleCloseInLoop (callbacks : ClientCallbacks) (s : ClientRefs)
    (c : Nat) : ClientRefs :=
  if s.status c = .kConnected ∨ s.status c = .kDisconnecting then
    s.closeInLoop callbacks c
  else { s with failed := some .open }

/-- `TcpConnection::close` on the thread of the loop. -/
def close (callbacks : ClientCallbacks) (s : ClientRefs) (c : Nat) :
    ClientRefs :=
  if s.status c ≠ .kConnected then s
  else (s.push (.close c)).closeInLoop callbacks c

/-- `TcpClient::disconnect` on the thread of the loop. -/
def disconnect (callbacks : ClientCallbacks) (s : ClientRefs) : ClientRefs :=
  match s.connection with
  | none => s
  | some c =>
      ({ s with
        closeCallback := Function.update s.closeCallback c false }.push
          .disconnect).close callbacks c

/-- `TcpClient::newConnectionInLoop`, called from `handleEvent` of the socket
by the connector.  The old connection is let go. -/
def newConnectionInLoop (callbacks : ClientCallbacks) (s : ClientRefs) :
    ClientRefs :=
  let c := s.next
  let s' : ClientRefs := { s with
    connection := some c
    next := c + 1
    status := Function.update s.status c .kConnected
    closeCallback := Function.update s.closeCallback c true
    stack := [.establish c, .handleEvent c POLLOUT (some .write)] }
  let s' := match s.connection with
    | none => s'
    | some old => s'.release old
  s'.notify callbacks.connectChange c

/-- `handleEvent` of the connection goes on with its next branch. -/
def report (callbacks : ClientCallbacks) (s : ClientRefs)
    (outcome : IOOutcome) : Option ClientRefs :=
  match s.stack with
  | .handleEvent c revents last :: rest =>
      match nextReport revents last with
      | none => some { s with stack := rest }
      | some next =>
          let s := { s with stack := .handleEvent c revents (some next) :: rest }
          match next, outcome with
          | .close, _ => some (s.handleCloseInLoop callbacks c)
          | .read, .endOfStream => some (s.handleCloseInLoop callbacks c)
          | .read, .message => some (s.notify callbacks.recvMessage c)
          | .write, .message => some (s.notify callbacks.writeComplete c)
          | _, _ => some s
  | _ => none

/-- The innermost call goes on after a callback, or the callback returns. -/
def resume (s : ClientRefs) : Option ClientRefs :=
  match s.stack with
  | .callback c :: rest | .close c :: rest | .establish c :: rest =>
      some ({ s with stack := rest }.release c)
  | .closeInLoop c :: rest =>
      if s.closeCallback c then
        -- `removeConnectionInLoop`, called by the close callback
        if s.connection = some c then
          some ({ s with
            closeCallback := Function.update s.closeCallback c false
            connection := none
            stack := rest }.release c)
        else some { s with failed := some .current }
      else some { s with stack := rest }
  | .disconnect :: rest =>
      let s' := { s with connection := none, stack := rest }
      match s.connection with
      | none => some s'
      | some c => some (s'.release c)
  | _ => none

/-- The application can be at work: in a callback, or with no call under
way. -/
def AppRuns (s : ClientRefs) : Prop :=
  s.stack.head?.all fun frame => frame matches .callback _

end ClientRefs

/-- A socket is dispatched between two runs of the functors.  The application
calls methods of connections that exist. -/
def clientRefsMachine (callbacks : ClientCallbacks) :
    Machine ClientRefs ClientStep where
  enabled s step := s.failed = none ∧
    match step with
    | .connected => s.stack = [] ∧ s.running = false
    | .dispatch c _ => s.stack = [] ∧ s.running = false ∧ s.useCount c ≠ 0
    | .report _ => ∃ c revents last rest,
        s.stack = .handleEvent c revents last :: rest
    | .resume => s.stack ≠ [] ∧ ∀ c revents last rest,
        s.stack ≠ .handleEvent c revents last :: rest
    | .send c _ | .shutdown c | .close c => s.AppRuns ∧ s.useCount c ≠ 0
    | .disconnect => s.AppRuns
    | .swapFunctors => s.stack = [] ∧ s.running = false
    | .callFunctor =>
        s.stack = [] ∧ s.running = true ∧ s.functors.batch ≠ []
    | .returnFunctors =>
        s.stack = [] ∧ s.running = true ∧ s.functors.batch = []
  exec s
    | .connected => some (s.newConnectionInLoop callbacks)
    | .dispatch c revents => some (s.push (.handleEvent c revents none))
    | .report outcome => s.report callbacks outcome
    | .resume => s.resume
    | .send c complete => some { s with
        functors :=
          if complete && callbacks.writeComplete then s.functors.queueInLoop c
          else s.functors }
    | .shutdown c => some { s with
        status :=
          if s.status c ≠ .kConnected then s.status
          else Function.update s.status c .kDisconnecting }
    | .close c => some (s.close callbacks c)
    | .disconnect => some (s.disconnect callbacks)
    | .swapFunctors => some { s with
        functors := s.functors.swapFunctors
        running := true }
    | .callFunctor => s.functors.nextFunctor.map fun (c, functors) =>
        { s with functors := functors, called := s.called ++ [c] }.push
          (.callback c)
    | .returnFunctors => some (s.called.foldl ClientRefs.release
        { s with running := false, called := [] })

namespace ClientRefs

/-- The calls hold a reference of the connection. -/
def Holds (stack : List ClientFrame) (c : Nat) : Prop :=
  ∃ frame ∈ stack, frame.held = some c

/-- `_handling` of the connection's socket. -/
def Handled (stack : List ClientFrame) (c : Nat) : Prop :=
  ∃ frame ∈ stack, frame.Handles c

/-- The call is made by `handleEvent` of the connection, directly or through
`closeInLoop`, and no other call is under way. -/
def Direct (c : Nat) : List ClientFrame → Prop
  | [.handleEvent d _ last] => d = c ∧ last ≠ some .close
  | [.closeInLoop _, .handleEvent d _ last] => d = c ∧ last ≠ some .close
  | _ => False

/-- A call returns to `handleEvent` of a closed connection while the client or
a functor keeps it; and `closeInLoop` is only called there, to give it to the
close callback, while a functor keeps it. -/
def Keeps (s : ClientRefs) : ClientStep → Prop
  | .resume =>
      match s.stack with
      | .callback c :: rest | .establish c :: rest => Direct c rest →
          s.status c = .kDisconnected → c ∈ s.keepers
      | .closeInLoop c :: rest => Direct c rest →
          s.status c = .kDisconnected → s.closeCallback c = true →
          s.connection = some c → c ∈ s.functors.pending ++ s.called
      | _ => True
  | _ => True

/-- Above `handleEvent` of a connection there is a call that holds a reference,
except for `closeInLoop` right on top of it. -/
def Sheltered : List ClientFrame → Prop
  | [] => True
  | .handleEvent _ _ _ :: rest => rest = []
  | .closeInLoop c :: rest => Sheltered rest ∧ ∀ d, Handled rest d →
      Holds rest d ∨ d = c ∧ rest.length = 1
  | .callback c :: rest | .establish c :: rest => Sheltered rest ∧
      ∀ d, Handled rest d → Holds rest d ∨ d = c
  | .close _ :: rest | .disconnect :: rest => Sheltered rest ∧
      ∀ d, Handled rest d → Holds rest d

theorem handled_cons {frame : ClientFrame} {rest : List ClientFrame} {c : Nat} :
    Handled (frame :: rest) c ↔ frame.Handles c ∨ Handled rest c := by
  simp [Handled]

theorem holds_cons {frame : ClientFrame} {rest : List ClientFrame} {c : Nat} :
    Holds (frame :: rest) c ↔ frame.held = some c ∨ Holds rest c := by
  simp [Holds]

theorem Sheltered.tail {frame : ClientFrame} {rest : List ClientFrame}
    (h : Sheltered (frame :: rest)) : Sheltered rest := by
  cases frame with
  | handleEvent c revents last =>
      obtain rfl : rest = [] := h
      trivial
  | callback c => exact h.1
  | closeInLoop c => exact h.1
  | close c => exact h.1
  | disconnect => exact h.1
  | establish c => exact h.1

theorem Direct.handled {c : Nat} {stack : List ClientFrame}
    (h : Direct c stack) : Handled stack c ∧ ¬Holds stack c := by
  unfold Direct at h
  split at h
  · simpa [Handled, Holds, ClientFrame.Handles, ClientFrame.held] using h
  · simpa [Handled, Holds, ClientFrame.Handles, ClientFrame.held] using h
  · exact absurd h id

/-- Calls that leave a handled connection without a temporary reference are
made by its `handleEvent`. -/
theorem Sheltered.direct {c : Nat} {stack : List ClientFrame}
    (h : Sheltered stack) (hhandled : Handled stack c)
    (hholds : ¬Holds stack c) : Direct c stack := by
  cases stack with
  | nil => simp [Handled] at hhandled
  | cons frame rest =>
      rw [holds_cons, not_or] at hholds
      rw [handled_cons] at hhandled
      cases frame with
      | handleEvent d revents last =>
          obtain rfl : rest = [] := h
          simpa [Handled, Direct, ClientFrame.Handles] using hhandled
      | closeInLoop d =>
          have hrest : Handled rest c := hhandled.resolve_left id
          obtain ⟨rfl, hlength⟩ := (h.2 c hrest).resolve_left hholds.2
          obtain ⟨frame, rfl⟩ := List.length_eq_one_iff.mp hlength
          cases frame with
          | handleEvent e revents last =>
              simpa [Handled, Direct, ClientFrame.Handles] using hrest
          | _ => simp [Handled, ClientFrame.Handles] at hrest
      | callback d =>
          have hrest : Handled rest c := hhandled.resolve_left id
          obtain rfl := (h.2 c hrest).resolve_left hholds.2
          exact absurd rfl hholds.1
      | establish d =>
          have hrest : Handled rest c := hhandled.resolve_left id
          obtain rfl := (h.2 c hrest).resolve_left hholds.2
          exact absurd rfl hholds.1
      | close d => exact absurd (h.2 c (hhandled.resolve_left id)) hholds.2
      | disconnect => exact absurd (h.2 c (hhandled.resolve_left id)) hholds.2

theorem Sheltered.direct_iff {c : Nat} {stack : List ClientFrame}
    (h : Sheltered stack) :
    Direct c stack ↔ Handled stack c ∧ ¬Holds stack c :=
  ⟨Direct.handled, fun hc => h.direct hc.1 hc.2⟩

/-- Every handled connection is held by a call, as it is while the application
runs. -/
def Covered (stack : List ClientFrame) : Prop :=
  Sheltered stack ∧ ∀ c, Handled stack c → Holds stack c

theorem covered_nil : Covered [] := ⟨trivial, by simp [Handled]⟩

theorem Sheltered.covered {c : Nat} {rest : List ClientFrame}
    (h : Sheltered (.callback c :: rest)) : Covered (.callback c :: rest) := by
  refine ⟨h, fun d hd => ?_⟩
  rw [holds_cons]
  rcases h.2 d ((handled_cons.mp hd).resolve_left id) with hrest | rfl
  · exact Or.inr hrest
  · exact Or.inl rfl

/-- Any call but `handleEvent` may be made then. -/
theorem Covered.push {stack : List ClientFrame} (h : Covered stack)
    {frame : ClientFrame} (hframe : ∀ c, ¬frame.Handles c)
    (hkind : ∀ c revents last, frame ≠ .handleEvent c revents last) :
    Covered (frame :: stack) := by
  constructor
  · cases frame with
    | handleEvent c revents last => exact absurd rfl (hkind c revents last)
    | callback c => exact ⟨h.1, fun d hd => Or.inl (h.2 d hd)⟩
    | closeInLoop c => exact ⟨h.1, fun d hd => Or.inl (h.2 d hd)⟩
    | close c => exact h
    | disconnect => exact h
    | establish c => exact ⟨h.1, fun d hd => Or.inl (h.2 d hd)⟩
  · intro d hd
    exact holds_cons.mpr
      (Or.inr (h.2 d ((handled_cons.mp hd).resolve_left (hframe d))))

variable {callbacks : ClientCallbacks} {s : ClientRefs}

theorem appRuns_covered (h : Sheltered s.stack) (hruns : s.AppRuns) :
    Covered s.stack := by
  cases hstack : s.stack with
  | nil => exact covered_nil
  | cons frame rest =>
      rw [AppRuns, hstack] at hruns
      rw [hstack] at h
      cases frame with
      | callback c => exact h.covered
      | _ => simp at hruns

theorem useCount_eq_zero_iff {c : Nat} :
    s.useCount c = 0 ↔ c ∉ s.keepers ∧ ¬Holds s.stack c := by
  rw [useCount, List.count_eq_zero, List.mem_append, not_or, List.mem_filterMap]
  rfl

/-- Letting go of a connection changes nothing but the failed assertion, and
that of `~IOFd` fails when a closed connection has no owner left. -/
theorem release_spec (hfailed : s.failed ≠ some .notHandling) (c : Nat) :
    (s.release c).stack = s.stack ∧
      ((s.release c).failed ≠ some .notHandling ↔
        (Handled s.stack c → ¬Holds s.stack c →
          s.status c = .kDisconnected → c ∈ s.keepers)) := by
  unfold release
  by_cases hcount : s.useCount c = 0
  · obtain ⟨hkeepers, hholds⟩ := useCount_eq_zero_iff.mp hcount
    rw [if_pos hcount, destroy]
    by_cases hstatus : s.status c = .kDisconnected
    · rw [if_neg (not_not.mpr hstatus)]
      by_cases hhandled : ∃ frame ∈ s.stack, frame.Handles c
      · rw [if_pos hhandled]
        refine ⟨rfl, iff_of_false (fun h => h rfl) fun h => ?_⟩
        exact hkeepers (h hhandled hholds hstatus)
      · rw [if_neg hhandled]
        exact ⟨rfl, iff_of_true hfailed fun h => absurd h hhandled⟩
    · rw [if_pos hstatus]
      exact ⟨rfl, iff_of_true (by simp) fun _ _ h => absurd h hstatus⟩
  · rw [if_neg hcount]
    refine ⟨rfl, iff_of_true hfailed fun _ hholds _ => ?_⟩
    by_contra hkeepers
    exact hcount (useCount_eq_zero_iff.mpr ⟨hkeepers, hholds⟩)

theorem release_direct (hfailed : s.failed ≠ some .notHandling)
    (h : Sheltered s.stack) (c : Nat) :
    Sheltered (s.release c).stack ∧
      ((s.release c).failed ≠ some .notHandling ↔
        (Direct c s.stack → s.status c = .kDisconnected → c ∈ s.keepers)) := by
  obtain ⟨hstack, hiff⟩ := release_spec hfailed c
  rw [hstack, hiff, h.direct_iff]
  refine ⟨h, ?_⟩
  constructor
  · exact fun hkeeps hdirect => hkeeps hdirect.1 hdirect.2
  · exact fun hkeeps hhandled hholds => hkeeps ⟨hhandled, hholds⟩

/-- No assertion of `~IOFd` has failed, and the calls are in order. -/
structure Intact (s : ClientRefs) : Prop where
  sheltered : Sheltered s.stack
  failed : s.failed ≠ some .notHandling

theorem Intact.notify (h : s.Intact) {c : Nat}
    (hhandled : ∀ d, Handled s.stack d → Holds s.stack d ∨ d = c)
    (isSet : Bool) : (s.notify isSet c).Intact := by
  cases isSet with
  | false => exact h
  | true => exact ⟨⟨h.sheltered, hhandled⟩, h.failed⟩

theorem Intact.closeInLoop {c : Nat} (hfailed : s.failed ≠ some .notHandling)
    (h : Sheltered (.closeInLoop c :: s.stack)) :
    (s.closeInLoop callbacks c).Intact := by
  have hpushed : ({ s with
      status := Function.update s.status c .kDisconnected }.push
        (.closeInLoop c)).Intact := ⟨h, hfailed⟩
  refine hpushed.notify (fun d hd => ?_) callbacks.connectChange
  change Handled (.closeInLoop c :: s.stack) d at hd
  change Holds (.closeInLoop c :: s.stack) d ∨ d = c
  rw [holds_cons]
  rcases h.2 d ((handled_cons.mp hd).resolve_left id) with hrest | ⟨rfl, _⟩
  · exact Or.inl (Or.inr hrest)
  · exact Or.inr rfl

theorem Intact.close (h : s.Intact) (hcovered : Covered s.stack) (c : Nat) :
    (s.close callbacks c).Intact := by
  unfold ClientRefs.close
  split
  · exact h
  · have hclose : Covered (.close c :: s.stack) :=
      hcovered.push (fun _ => id) (by simp)
    exact Intact.closeInLoop (s := s.push (.close c)) h.failed
      (hclose.push (fun _ => id) (by simp)).1

theorem Intact.disconnect (h : s.Intact) (hcovered : Covered s.stack) :
    (s.disconnect callbacks).Intact := by
  unfold ClientRefs.disconnect
  split
  · exact h
  · next c _ =>
      have hdisconnect : Covered (.disconnect :: s.stack) :=
        hcovered.push (fun _ => id) (by simp)
      have hpushed : ({ s with
          closeCallback := Function.update s.closeCallback c false }.push
            .disconnect).Intact := ⟨hdisconnect.1, h.failed⟩
      exact hpushed.close hdisconnect c

theorem handled_handleEvent {c d : Nat} {revents : BitVec 32}
    {last : Option IOReport} (h : Handled [.handleEvent c revents last] d) :
    d = c := by
  simp only [Handled, List.mem_singleton, exists_eq_left] at h
  exact h.1.symm

theorem Intact.newConnectionInLoop (h : s.Intact) :
    (s.newConnectionInLoop callbacks).Intact := by
  have hestablish : Sheltered
      [.establish s.next, .handleEvent s.next POLLOUT (some .write)] :=
    ⟨rfl, fun d hd => Or.inr (handled_handleEvent hd)⟩
  have hhandled : ∀ d,
      Handled [.establish s.next, .handleEvent s.next POLLOUT (some .write)] d →
        Holds [.establish s.next, .handleEvent s.next POLLOUT (some .write)] d ∨
          d = s.next := by
    intro d hd
    exact Or.inr (handled_handleEvent ((handled_cons.mp hd).resolve_left id))
  let t : ClientRefs := { s with
    connection := some s.next
    next := s.next + 1
    status := Function.update s.status s.next .kConnected
    closeCallback := Function.update s.closeCallback s.next true
    stack := [.establish s.next, .handleEvent s.next POLLOUT (some .write)] }
  have ht : t.Intact := ⟨hestablish, h.failed⟩
  unfold ClientRefs.newConnectionInLoop
  dsimp only
  cases s.connection with
  | none => exact ht.notify hhandled callbacks.connectChange
  | some old =>
      -- the old connection is not the one whose event this is
      obtain ⟨hstack, _⟩ := release_spec ht.failed old
      obtain ⟨hsheltered, hiff⟩ := release_direct ht.failed hestablish old
      have hreleased : (t.release old).Intact :=
        ⟨hsheltered, hiff.mpr fun hdirect => absurd hdirect id⟩
      refine hreleased.notify ?_ callbacks.connectChange
      rw [hstack]
      exact hhandled

theorem Intact.handleCloseInLoop {c : Nat} {revents : BitVec 32}
    {last : Option IOReport} (h : s.Intact)
    (hstack : s.stack = [.handleEvent c revents last]) :
    (s.handleCloseInLoop callbacks c).Intact := by
  unfold ClientRefs.handleCloseInLoop
  split
  · apply Intact.closeInLoop h.failed
    rw [hstack]
    exact ⟨rfl, fun d hd => Or.inr ⟨handled_handleEvent hd, rfl⟩⟩
  · exact ⟨h.sheltered, by simp⟩

variable (callbacks) in
theorem Intact.report (h : s.Intact) {c : Nat} {revents : BitVec 32}
    {last : Option IOReport} {rest : List ClientFrame}
    (hstack : s.stack = .handleEvent c revents last :: rest)
    (outcome : IOOutcome) :
    ∃ s', s.report callbacks outcome = some s' ∧ s'.Intact := by
  have hrest : rest = [] := by
    have hsheltered := h.sheltered
    rw [hstack] at hsheltered
    exact hsheltered
  subst hrest
  unfold ClientRefs.report
  rw [hstack]
  dsimp only
  cases nextReport revents last with
  | none => exact ⟨_, rfl, trivial, h.failed⟩
  | some next =>
      let t : ClientRefs :=
        { s with stack := [.handleEvent c revents (some next)] }
      have ht : t.Intact := ⟨rfl, h.failed⟩
      have hnotify : ∀ isSet, (t.notify isSet c).Intact :=
        ht.notify fun d hd => Or.inr (handled_handleEvent hd)
      cases next with
      | close => exact ⟨_, rfl, ht.handleCloseInLoop rfl⟩
      | error => exact ⟨_, rfl, ht⟩
      | read =>
          cases outcome with
          | nothing => exact ⟨_, rfl, ht⟩
          | message => exact ⟨_, rfl, hnotify _⟩
          | endOfStream => exact ⟨_, rfl, ht.handleCloseInLoop rfl⟩
      | write =>
          cases outcome with
          | nothing => exact ⟨_, rfl, ht⟩
          | message => exact ⟨_, rfl, hnotify _⟩
          | endOfStream => exact ⟨_, rfl, ht⟩

/-- A call that returns breaks the assertion exactly when it lets go of what
nobody keeps. -/
theorem resume_spec (h : s.Intact) (hstack : s.stack ≠ [])
    (hkind : ∀ c revents last rest,
      s.stack ≠ .handleEvent c revents last :: rest) :
    ∃ s', s.resume = some s' ∧ Sheltered s'.stack ∧
      (s'.failed ≠ some .notHandling ↔ s.Keeps .resume) := by
  obtain ⟨frame, rest, hcons⟩ := List.exists_cons_of_ne_nil hstack
  have hsheltered : Sheltered (frame :: rest) := hcons ▸ h.sheltered
  have hrest := hsheltered.tail
  unfold ClientRefs.resume Keeps
  rw [hcons]
  cases frame with
  | handleEvent c revents last => exact absurd hcons (hkind c revents last rest)
  | callback c =>
      exact ⟨_, rfl, release_direct (s := { s with stack := rest }) h.failed
        hrest c⟩
  | establish c =>
      exact ⟨_, rfl, release_direct (s := { s with stack := rest }) h.failed
        hrest c⟩
  | close c =>
      obtain ⟨hsheltered', hiff⟩ :=
        release_direct (s := { s with stack := rest }) h.failed hrest c
      refine ⟨_, rfl, hsheltered', iff_of_true (hiff.mpr fun hdirect => ?_)
        trivial⟩
      exact absurd (hsheltered.2 c hdirect.handled.1) hdirect.handled.2
  | disconnect =>
      cases s.connection with
      | none => exact ⟨_, rfl, hrest, iff_of_true h.failed trivial⟩
      | some c =>
          obtain ⟨hsheltered', hiff⟩ := release_direct
            (s := { s with connection := none, stack := rest }) h.failed hrest c
          refine ⟨_, rfl, hsheltered', iff_of_true (hiff.mpr fun hdirect => ?_)
            trivial⟩
          exact absurd (hsheltered.2 c hdirect.handled.1) hdirect.handled.2
  | closeInLoop c =>
      dsimp only
      by_cases hbound : s.closeCallback c = true
      · rw [if_pos hbound]
        by_cases hcurrent : s.connection = some c
        · rw [if_pos hcurrent]
          obtain ⟨hsheltered', hiff⟩ := release_direct (s := { s with
            closeCallback := Function.update s.closeCallback c false
            connection := none
            stack := rest }) h.failed hrest c
          refine ⟨_, rfl, hsheltered', hiff.trans ?_⟩
          simp [hbound, hcurrent, keepers]
        · rw [if_neg hcurrent]
          refine ⟨_, rfl, hsheltered, iff_of_true (by simp) ?_⟩
          exact fun _ _ _ hcurrent' => absurd hcurrent' hcurrent
      · rw [if_neg hbound]
        exact ⟨_, rfl, hrest, iff_of_true h.failed
          fun _ _ hbound' => absurd hbound' hbound⟩

/-- What `runFunctors` lets go of is not in `handleEvent`. -/
theorem foldl_release_intact (called : List Nat) (h : s.Intact)
    (hstack : s.stack = []) : (called.foldl release s).Intact := by
  induction called generalizing s with
  | nil => exact h
  | cons c rest ih =>
      obtain ⟨hstack', _⟩ := release_spec h.failed c
      obtain ⟨hsheltered, hiff⟩ := release_direct h.failed h.sheltered c
      refine ih ⟨hsheltered, hiff.mpr fun hdirect => ?_⟩ (hstack'.trans hstack)
      rw [hstack] at hdirect
      exact absurd hdirect id

theorem step_spec (h : s.Intact) (step : ClientStep)
    (hstep : (clientRefsMachine callbacks).enabled s step) :
    ∃ s', (clientRefsMachine callbacks).exec s step = some s' ∧
      Sheltered s'.stack ∧
      (s'.failed ≠ some .notHandling ↔ s.Keeps step) := by
  have keeps : ∀ {s'}, Intact s' → Sheltered s'.stack ∧
      (s'.failed ≠ some .notHandling ↔ True) :=
    fun hs' => ⟨hs'.sheltered, iff_of_true hs'.failed trivial⟩
  obtain ⟨_, hstep⟩ := hstep
  cases step with
  | connected => exact ⟨_, rfl, keeps h.newConnectionInLoop⟩
  | dispatch c revents =>
      refine ⟨_, rfl, keeps ⟨?_, h.failed⟩⟩
      exact hstep.1
  | report outcome =>
      obtain ⟨c, revents, last, rest, hstack⟩ := hstep
      obtain ⟨s', hexec, hs'⟩ := h.report callbacks hstack outcome
      exact ⟨s', hexec, keeps hs'⟩
  | resume => exact resume_spec h hstep.1 hstep.2
  | send c complete => exact ⟨_, rfl, keeps ⟨h.sheltered, h.failed⟩⟩
  | shutdown c => exact ⟨_, rfl, keeps ⟨h.sheltered, h.failed⟩⟩
  | close c =>
      exact ⟨_, rfl, keeps (h.close (appRuns_covered h.sheltered hstep.1) c)⟩
  | disconnect =>
      exact ⟨_, rfl, keeps (h.disconnect (appRuns_covered h.sheltered hstep))⟩
  | swapFunctors => exact ⟨_, rfl, keeps ⟨h.sheltered, h.failed⟩⟩
  | callFunctor =>
      obtain ⟨hstack, _, hbatch⟩ := hstep
      obtain ⟨c, rest, hcons⟩ := List.exists_cons_of_ne_nil hbatch
      let t : ClientRefs := { s with
        functors := { s.functors with batch := rest }
        called := s.called ++ [c]
        stack := .callback c :: s.stack }
      have hcallback : Sheltered (.callback c :: s.stack) := by
        rw [hstack]
        exact ⟨trivial, by simp [Handled]⟩
      refine ⟨t, ?_, keeps ⟨hcallback, h.failed⟩⟩
      simp only [clientRefsMachine, FunctorQueue.nextFunctor, hcons,
        Option.map_some]
      rfl
  | returnFunctors =>
      exact ⟨_, rfl, keeps (foldl_release_intact s.called
        ⟨h.sheltered, h.failed⟩ hstep.1)⟩

end ClientRefs

/-- Ownership of the connection.  Over every run of a client, whatever its
socket reports and whatever its callbacks do, the socket is never destroyed
inside its own `handleEvent` exactly as long as each call that returns there
leaves a closed connection to the client or to a queued functor. -/
theorem socket_notHandling_iff (callbacks : ClientCallbacks)
    (word : List ClientStep)
    (hlegal : (clientRefsMachine callbacks).Legal .start word) :
    (clientRefsMachine callbacks).Holds
        (fun s => s.failed ≠ some .notHandling) .start word ↔
      (clientRefsMachine callbacks).Meets ClientRefs.Keeps .start word := by
  apply Machine.holds_iff_meets (I := ClientRefs.Intact)
    (E := (clientRefsMachine callbacks).enabled)
  · exact fun s hs => hs.failed
  · intro s step hs hstep hkeeps
    obtain ⟨s', hexec, hsheltered, hiff⟩ := ClientRefs.step_spec hs step hstep
    exact ⟨s', hexec, hsheltered, hiff.mpr hkeeps⟩
  · intro s step s' hs hstep hexec hs'
    obtain ⟨t, ht, _, hiff⟩ := ClientRefs.step_spec hs step hstep
    obtain rfl : s' = t := Option.some.inj (hexec.symm.trans ht)
    exact hiff.mp hs'
  · exact ⟨trivial, by simp [ClientRefs.start]⟩
  · exact hlegal

instance (c : Nat) (stack : List ClientFrame) :
    Decidable (ClientRefs.Direct c stack) :=
  match stack with
  | [.handleEvent d _ last] =>
      inferInstanceAs (Decidable (d = c ∧ last ≠ some .close))
  | [.closeInLoop _, .handleEvent d _ last] =>
      inferInstanceAs (Decidable (d = c ∧ last ≠ some .close))
  | [] => isFalse id
  | [.closeInLoop _] => isFalse id
  | .callback _ :: _ | .close _ :: _ | .disconnect :: _ | .establish _ :: _
  | .handleEvent _ _ _ :: _ :: _ => isFalse id
  | .closeInLoop _ :: .closeInLoop _ :: _
  | .closeInLoop _ :: .callback _ :: _ | .closeInLoop _ :: .close _ :: _
  | .closeInLoop _ :: .disconnect :: _ | .closeInLoop _ :: .establish _ :: _
  | .closeInLoop _ :: .handleEvent _ _ _ :: _ :: _ => isFalse id

instance (s : ClientRefs) (step : ClientStep) : Decidable (s.Keeps step) :=
  match step with
  | .resume =>
      match hstack : s.stack with
      | .callback c :: rest => decidable_of_iff
          (ClientRefs.Direct c rest → s.status c = .kDisconnected →
            c ∈ s.keepers) (by simp [ClientRefs.Keeps, hstack])
      | .establish c :: rest => decidable_of_iff
          (ClientRefs.Direct c rest → s.status c = .kDisconnected →
            c ∈ s.keepers) (by simp [ClientRefs.Keeps, hstack])
      | .closeInLoop c :: rest => decidable_of_iff
          (ClientRefs.Direct c rest → s.status c = .kDisconnected →
            s.closeCallback c = true → s.connection = some c →
            c ∈ s.functors.pending ++ s.called)
          (by simp [ClientRefs.Keeps, hstack])
      | [] | .handleEvent _ _ _ :: _ | .close _ :: _ | .disconnect :: _ =>
          isTrue (by simp [ClientRefs.Keeps, hstack])
  | .connected | .dispatch _ _ | .report _ | .send _ _ | .shutdown _
  | .close _ | .disconnect | .swapFunctors | .callFunctor
  | .returnFunctors => isTrue trivial

instance (stack : List ClientFrame) : Decidable (∃ c revents last rest,
    stack = .handleEvent c revents last :: rest) :=
  match stack with
  | .handleEvent c revents last :: rest => isTrue ⟨c, revents, last, rest, rfl⟩
  | [] | .callback _ :: _ | .closeInLoop _ :: _ | .close _ :: _
  | .disconnect :: _ | .establish _ :: _ => isFalse (by simp)

instance (s : ClientRefs) : Decidable s.AppRuns :=
  inferInstanceAs (Decidable (_ = true))

instance (callbacks : ClientCallbacks) (s : ClientRefs) (step : ClientStep) :
    Decidable ((clientRefsMachine callbacks).enabled s step) :=
  match step with
  | .connected | .swapFunctors => inferInstanceAs
      (Decidable (s.failed = none ∧ s.stack = [] ∧ s.running = false))
  | .dispatch c _ => inferInstanceAs
      (Decidable (s.failed = none ∧ s.stack = [] ∧ s.running = false ∧
        s.useCount c ≠ 0))
  | .report _ => inferInstanceAs
      (Decidable (s.failed = none ∧ ∃ c revents last rest,
        s.stack = .handleEvent c revents last :: rest))
  | .resume => decidable_of_iff (s.failed = none ∧ s.stack ≠ [] ∧
      ¬∃ c revents last rest, s.stack = .handleEvent c revents last :: rest)
      (by simp [clientRefsMachine])
  | .send c _ | .shutdown c | .close c => inferInstanceAs
      (Decidable (s.failed = none ∧ s.AppRuns ∧ s.useCount c ≠ 0))
  | .disconnect => inferInstanceAs (Decidable (s.failed = none ∧ s.AppRuns))
  | .callFunctor => inferInstanceAs
      (Decidable (s.failed = none ∧ s.stack = [] ∧ s.running = true ∧
        s.functors.batch ≠ []))
  | .returnFunctors => inferInstanceAs
      (Decidable (s.failed = none ∧ s.stack = [] ∧ s.running = true ∧
        s.functors.batch = []))

/-- The application answers a message and disconnects; the write-complete
functor of its answer keeps the connection until `handleEvent` has returned. -/
theorem socket_notHandling_iff_answered :
    (clientRefsMachine ⟨true, true, true⟩).Holds
      (fun s => s.failed ≠ some .notHandling) .start
      [.connected, .resume, .resume, .report .nothing,
        .dispatch 0 POLLIN, .report .message, .send 0 true, .disconnect,
        .resume, .resume, .resume, .resume, .resume, .report .nothing,
        .swapFunctors, .callFunctor, .resume, .returnFunctors] :=
  (socket_notHandling_iff ⟨true, true, true⟩ _ (by decide +kernel)).mpr
    (by decide +kernel)

/-- The read of the socket finds the end of stream. -/
def endOfStreamRun : List ClientStep :=
  [.connected, .resume, .report .nothing, .dispatch 0 POLLIN,
    .report .endOfStream, .resume]

theorem socket_not_notHandling :
    (clientRefsMachine ⟨true, false, false⟩).Legal .start endOfStreamRun ∧
      ¬(clientRefsMachine ⟨true, false, false⟩).Holds
        (fun s => s.failed ≠ some .notHandling) .start endOfStreamRun := by
  have hlast : ((clientRefsMachine ⟨true, false, false⟩).run .start
      endOfStreamRun).map ClientRefs.failed = some (some .notHandling) := by
    decide +kernel
  exact ⟨by decide +kernel,
    Machine.not_holds_of_view hlast fun t hfailed => not_not_intro hfailed⟩

end Libsaf
