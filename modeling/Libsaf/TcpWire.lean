/-
A connection between two steps of its loop: the socket with its output, and
what `shutdown` and `closeInLoop` have done to it.  The three properties below
are about single states; each comes with the condition under which a step keeps
it.
-/
import Libsaf.TcpConnection

namespace Libsaf

universe u

variable {I : Type u}

/-- `requested` says that the functor of `shutdown` has run, `halfClosed` that
`Socket::shutdown` was called, and `closed` holds the bytes that the kernel had
taken when `closeInLoop` ran first.  `faulted` is a use of the null pointer
`_looper`, which ends the process. -/
structure TcpWire (I : Type u) where
  conn : TcpConnection
  poller : EPollPoller I
  requested : Bool
  halfClosed : Bool
  closed : Option (List UInt8)
  faulted : Bool

/-- What one step of the program does to the connection. -/
inductive WireAction where
  | none
  | changeStatus (status : TcpStatus)
  | sendInLoop (data : List UInt8) (result : WriteResult)
  | handleWriteInLoop (result : WriteResult)
  | shutdownInLoop
  | closeInLoop
deriving Repr, DecidableEq

namespace TcpWire

/-- A method of the connection was called; it ended, or used the null
pointer. -/
def returned (w : TcpWire I) :
    Option (Bool × TcpConnection × EPollPoller I) → Bool × TcpWire I
  | some (complete, conn, poller) =>
      (complete, { w with conn := conn, poller := poller })
  | none => (false, { w with faulted := true })

/-- The functor of `shutdown`. -/
def shutdownInLoop (w : TcpWire I) : TcpWire I :=
  { w with
    requested := true
    halfClosed := if !w.conn.socket.isWriting then true else w.halfClosed }

variable [DecidableEq I]

def sendInLoop (loop : Nat) (addr : I) (w : TcpWire I) (data : List UInt8)
    (result : WriteResult) : Bool × TcpWire I :=
  w.returned (w.conn.sendInLoop loop addr w.poller data result)

def handleWriteInLoop (loop : Nat) (addr : I) (w : TcpWire I)
    (result : WriteResult) : Bool × TcpWire I :=
  w.returned (w.conn.handleWriteInLoop loop addr w.poller result)

def closeInLoop (loop : Nat) (addr : I) (w : TcpWire I) : TcpWire I :=
  match w.conn.closeInLoop loop addr w.poller with
  | some (conn, poller) => { w with
      conn := conn
      poller := poller
      closed := some (w.closed.getD w.conn.accepted) }
  | none => { w with faulted := true }

def apply (loop : Nat) (addr : I) (w : TcpWire I) : WireAction → TcpWire I
  | .none => w
  | .changeStatus status => { w with conn := w.conn.changeStatus status }
  | .sendInLoop data result => (w.sendInLoop loop addr data result).2
  | .handleWriteInLoop result => (w.handleWriteInLoop loop addr result).2
  | .shutdownInLoop => w.shutdownInLoop
  | .closeInLoop => w.closeInLoop loop addr

/-- The kernel writes no more than it was given. -/
def Fits (w : TcpWire I) : WireAction → Prop
  | .sendInLoop data result => result.Fits data.length
  | .handleWriteInLoop result =>
      result.Fits w.conn.outputBuffer.readableBytes
  | _ => True

/-- Output that waits is watched for. -/
def Flows (w : TcpWire I) : Prop :=
  w.closed = none → w.conn.outputBuffer.readableBytes ≠ 0 →
    w.conn.socket.isWriting = true

/-- The write of a writable event takes something. -/
def Takes (w : TcpWire I) : WireAction → Prop
  | .handleWriteInLoop result =>
      w.conn.socket.isWriting = true → ∃ n, result = .wrote (n + 1)
  | _ => True

/-- A connection that was told to shut down and has nothing left to write is
shut down. -/
def HalfCloses (w : TcpWire I) : Prop :=
  w.requested = true → w.closed = none →
    w.conn.outputBuffer.readableBytes = 0 →
    w.conn.socket.isWriting = false → w.halfClosed = true

/-- No writable event takes the last bytes of a connection that was told to
shut down while they waited. -/
def Spares (w : TcpWire I) : WireAction → Prop
  | .handleWriteInLoop result =>
      w.conn.socket.isWriting = true →
        result = .wrote w.conn.outputBuffer.readableBytes →
        w.requested = true → w.halfClosed = true
  | _ => True

/-- After `closeInLoop` nothing is written, nothing is watched for, and the
null pointer is not used. -/
def Silent (w : TcpWire I) : Prop :=
  w.faulted = false ∧ ∀ bytes ∈ w.closed,
    w.conn.accepted = bytes ∧ w.conn.socket.events = 0#32

/-- Messages that are sent after `closeInLoop` are refused. -/
def Refuses (w : TcpWire I) : WireAction → Prop
  | .sendInLoop data result => w.closed ≠ none → w.conn.Refused data result
  | _ => True

/-- The connection is not closed: its socket is attached, and watched for
writing only while output waits. -/
structure Open (loop : Nat) (addr : I) (w : TcpWire I) : Prop where
  closed : w.closed = none
  attached : w.conn.Attached w.poller loop addr
  faulted : w.faulted = false
  waits : w.conn.socket.isWriting = true →
    w.conn.outputBuffer.readableBytes ≠ 0

/-- The connection is closed: its socket has no loop and no events. -/
structure Shut (w : TcpWire I) : Prop where
  closed : w.closed ≠ none
  looper : w.conn.socket.looper = none
  events : w.conn.socket.events = 0#32

def Sound (loop : Nat) (addr : I) (w : TcpWire I) : Prop :=
  w.Open loop addr ∨ w.Shut

variable {loop : Nat} {addr : I} {w : TcpWire I}

omit [DecidableEq I] in
theorem Shut.isWriting (h : w.Shut) : w.conn.socket.isWriting = false := by
  rw [IOFd.isWriting, h.events]
  rfl

theorem Open.sendInLoop (h : w.Open loop addr) {data : List UInt8}
    {result : WriteResult} (hfits : result.Fits data.length) :
    ∃ done c' p', w.sendInLoop loop addr data result =
        (done, { w with conn := c', poller := p' }) ∧
      Open loop addr { w with conn := c', poller := p' } ∧
      (c'.Waiting ∨ w.conn.Alike c') := by
  obtain ⟨done, c', p', hrun, hattached, hkept, _⟩ :=
    h.attached.sendInLoop_spec hfits
  refine ⟨done, c', p', by rw [TcpWire.sendInLoop, hrun]; rfl,
    ⟨h.closed, hattached, h.faulted, ?_⟩, hkept⟩
  rcases hkept with hwaiting | ⟨hsocket, hbuffer⟩
  · exact fun _ => hwaiting.2
  · change c'.socket.isWriting = true → c'.outputBuffer.readableBytes ≠ 0
    rw [hsocket, hbuffer]
    exact h.waits

theorem Open.handleWriteInLoop (h : w.Open loop addr) {result : WriteResult}
    (hfits : result.Fits w.conn.outputBuffer.readableBytes) :
    ∃ done c' p', w.handleWriteInLoop loop addr result =
        (done, { w with conn := c', poller := p' }) ∧
      Open loop addr { w with conn := c', poller := p' } ∧
      w.conn.Drains result c' := by
  obtain ⟨done, c', p', hrun, hattached, hdrains, _⟩ :=
    h.attached.handleWriteInLoop_spec hfits
  refine ⟨done, c', p', by rw [TcpWire.handleWriteInLoop, hrun]; rfl,
    ⟨h.closed, hattached, h.faulted, ?_⟩, hdrains⟩
  change c'.socket.isWriting = true → c'.outputBuffer.readableBytes ≠ 0
  intro hwriting'
  by_cases hwriting : w.conn.socket.isWriting = true
  · by_cases htakes : ∃ n, result = .wrote (n + 1)
    · obtain ⟨n, rfl⟩ := htakes
      exact (hdrains.of_wrote hwriting).2.mp hwriting'
    · obtain ⟨_, hoff⟩ := hdrains.of_stopped hwriting htakes
      exact absurd (hwriting'.symm.trans hoff) (by decide)
  · obtain rfl := hdrains.of_idle hwriting
    exact absurd hwriting' hwriting

theorem Open.closeInLoop (h : w.Open loop addr) :
    (w.closeInLoop loop addr).Shut ∧
      (w.closeInLoop loop addr).faulted = false ∧
      (w.closeInLoop loop addr).closed =
        some (w.closeInLoop loop addr).conn.accepted := by
  obtain ⟨socket, p', hrun, hwired, hlooper⟩ := h.attached.closeInLoop
  rw [TcpWire.closeInLoop, hrun, h.closed]
  exact ⟨⟨by simp, hlooper, (hwired.new_of_detached hlooper).2⟩, h.faulted,
    rfl⟩

/-- A closed connection is closed again without any effect but the status. -/
theorem Shut.closeInLoop (h : w.Shut) :
    w.closeInLoop loop addr =
      { w with conn := w.conn.changeStatus .kDisconnected } := by
  obtain ⟨bytes, hbytes⟩ := Option.ne_none_iff_exists'.mp h.closed
  simp [TcpWire.closeInLoop, TcpConnection.closeInLoop, IOFd.detachInLoop,
    h.looper, hbytes]

theorem Shut.handleWriteInLoop (h : w.Shut) (result : WriteResult) :
    w.handleWriteInLoop loop addr result = (false, w) := by
  simp [TcpWire.handleWriteInLoop, TcpConnection.handleWriteInLoop,
    h.isWriting, returned]

variable (loop addr) in
/-- A message after the close leaves the socket alone. -/
theorem Shut.sendInLoop (h : w.Shut) {data : List UInt8} {result : WriteResult}
    (hfits : result.Fits data.length) :
    ∃ done w', w.sendInLoop loop addr data result = (done, w') ∧
      w'.Shut ∧ w'.closed = w.closed ∧
      (w.faulted = false →
        (w'.faulted = false ∧ w'.conn.accepted = w.conn.accepted ↔
          w.conn.Refused data result)) := by
  rcases TcpConnection.sendInLoop_shut w.poller loop addr h.looper h.events
      hfits with
    ⟨hnone, hnot⟩ | ⟨done, c', hrun, ⟨hsocket, _⟩, hiff⟩
  · refine ⟨false, { w with faulted := true },
      by rw [TcpWire.sendInLoop, hnone]; rfl, ⟨h.closed, h.looper, h.events⟩,
      rfl, fun _ => ?_⟩
    simp [hnot]
  · refine ⟨done, { w with conn := c' },
      by rw [TcpWire.sendInLoop, hrun]; rfl, ⟨h.closed, ?_, ?_⟩, rfl,
      fun hfaulted => ?_⟩
    · exact (congrArg IOFd.looper hsocket).trans h.looper
    · exact (congrArg IOFd.events hsocket).trans h.events
    · simpa [hfaulted] using hiff

theorem Shut.apply (h : w.Shut) {action : WireAction} (hfits : w.Fits action) :
    (w.apply loop addr action).Shut ∧
      (w.apply loop addr action).closed = w.closed := by
  cases action with
  | none => exact ⟨h, rfl⟩
  | changeStatus status => exact ⟨⟨h.closed, h.looper, h.events⟩, rfl⟩
  | sendInLoop data result =>
      obtain ⟨done, w', hrun, hshut, hclosed, _⟩ :=
        h.sendInLoop loop addr hfits
      rw [TcpWire.apply, hrun]
      exact ⟨hshut, hclosed⟩
  | handleWriteInLoop result =>
      rw [TcpWire.apply, h.handleWriteInLoop]
      exact ⟨h, rfl⟩
  | shutdownInLoop => exact ⟨⟨h.closed, h.looper, h.events⟩, rfl⟩
  | closeInLoop =>
      rw [TcpWire.apply, h.closeInLoop]
      exact ⟨⟨h.closed, h.looper, h.events⟩, rfl⟩

theorem Sound.apply (h : w.Sound loop addr) {action : WireAction}
    (hfits : w.Fits action) : (w.apply loop addr action).Sound loop addr := by
  rcases h with hopen | hshut
  · cases action with
    | none => exact Or.inl hopen
    | changeStatus status =>
        exact Or.inl ⟨hopen.closed,
          ⟨hopen.attached.wired, hopen.attached.looper⟩, hopen.faulted,
          hopen.waits⟩
    | sendInLoop data result =>
        obtain ⟨done, c', p', hrun, hopen', _⟩ := hopen.sendInLoop hfits
        rw [TcpWire.apply, hrun]
        exact Or.inl hopen'
    | handleWriteInLoop result =>
        obtain ⟨done, c', p', hrun, hopen', _⟩ :=
          hopen.handleWriteInLoop hfits
        rw [TcpWire.apply, hrun]
        exact Or.inl hopen'
    | shutdownInLoop =>
        exact Or.inl ⟨hopen.closed, hopen.attached, hopen.faulted, hopen.waits⟩
    | closeInLoop => exact Or.inr hopen.closeInLoop.1
  · exact Or.inr (hshut.apply hfits).1

/-- A writable event stalls the output exactly when it takes nothing. -/
theorem Sound.flows_iff (h : w.Sound loop addr) (hflows : w.Flows)
    {action : WireAction} (hfits : w.Fits action) :
    (w.apply loop addr action).Flows ↔ w.Takes action := by
  rcases h with hopen | hshut
  · cases action with
    | none => exact iff_of_true hflows trivial
    | changeStatus status => exact iff_of_true hflows trivial
    | sendInLoop data result =>
        obtain ⟨done, c', p', hrun, _, hkept⟩ := hopen.sendInLoop hfits
        rw [TcpWire.apply, hrun]
        refine iff_of_true (fun hclosed hpending => ?_) trivial
        rcases hkept with hwaiting | ⟨hsocket, hbuffer⟩
        · exact hwaiting.1
        · exact (congrArg IOFd.isWriting hsocket).trans
            (hflows hclosed (hbuffer ▸ hpending))
    | handleWriteInLoop result =>
        obtain ⟨done, c', p', hrun, _, hdrains⟩ :=
          hopen.handleWriteInLoop hfits
        rw [TcpWire.apply, hrun]
        by_cases hwriting : w.conn.socket.isWriting = true
        · by_cases htakes : ∃ n, result = .wrote (n + 1)
          · refine iff_of_true (fun _ hpending => ?_) fun _ => htakes
            obtain ⟨n, rfl⟩ := htakes
            exact (hdrains.of_wrote hwriting).2.mpr hpending
          · refine iff_of_false (fun hflows' => ?_)
              fun hcondition => htakes (hcondition hwriting)
            obtain ⟨hbuffer, hoff⟩ := hdrains.of_stopped hwriting htakes
            have hpending : c'.outputBuffer.readableBytes ≠ 0 := by
              rw [hbuffer]
              exact hopen.waits hwriting
            exact absurd ((hflows' hopen.closed hpending).symm.trans hoff)
              (by decide)
        · obtain rfl := hdrains.of_idle hwriting
          exact iff_of_true hflows fun hwriting' => absurd hwriting' hwriting
    | shutdownInLoop => exact iff_of_true hflows trivial
    | closeInLoop =>
        exact iff_of_true
          (fun hclosed => absurd hclosed hopen.closeInLoop.1.closed) trivial
  · refine iff_of_true
      (fun hclosed => absurd hclosed (hshut.apply hfits).1.closed) ?_
    cases action with
    | handleWriteInLoop result =>
        exact fun hwriting =>
          absurd (hshut.isWriting.symm.trans hwriting) (by decide)
    | _ => trivial

/-- The half-close is missed exactly when a writable event takes the last bytes
after `shutdown` has found some. -/
theorem Sound.halfCloses_iff (h : w.Sound loop addr) (hhalf : w.HalfCloses)
    {action : WireAction} (hfits : w.Fits action) :
    (w.apply loop addr action).HalfCloses ↔ w.Spares action := by
  rcases h with hopen | hshut
  · cases action with
    | none => exact iff_of_true hhalf trivial
    | changeStatus status => exact iff_of_true hhalf trivial
    | sendInLoop data result =>
        obtain ⟨done, c', p', hrun, _, hkept⟩ := hopen.sendInLoop hfits
        rw [TcpWire.apply, hrun]
        refine iff_of_true (fun hrequested hclosed hempty hoff => ?_) trivial
        rcases hkept with hwaiting | ⟨hsocket, hbuffer⟩
        · exact absurd hempty hwaiting.2
        · exact hhalf hrequested hclosed (hbuffer ▸ hempty) (hsocket ▸ hoff)
    | handleWriteInLoop result =>
        obtain ⟨done, c', p', hrun, hopen', hdrains⟩ :=
          hopen.handleWriteInLoop hfits
        rw [TcpWire.apply, hrun]
        by_cases hwriting : w.conn.socket.isWriting = true
        · have hpending := hopen.waits hwriting
          by_cases hlast : result = .wrote w.conn.outputBuffer.readableBytes
          · obtain ⟨n, hn⟩ := Nat.exists_eq_succ_of_ne_zero hpending
            rw [hlast, hn] at hdrains
            obtain ⟨hreadable, hiff⟩ := hdrains.of_wrote hwriting
            have hempty : c'.outputBuffer.readableBytes = 0 := by omega
            have hoff : c'.socket.isWriting = false := by
              rw [Bool.eq_false_iff, ne_eq, hiff]
              exact not_not.mpr hempty
            constructor
            · exact fun hhalf' _ _ hrequested =>
                hhalf' hrequested hopen.closed hempty hoff
            · exact fun hspares hrequested _ _ _ =>
                hspares hwriting hlast hrequested
          · refine iff_of_true (fun _ _ hempty _ => absurd hempty ?_)
              fun _ hlast' => absurd hlast' hlast
            by_cases htakes : ∃ n, result = .wrote (n + 1)
            · obtain ⟨n, rfl⟩ := htakes
              have hreadable := (hdrains.of_wrote hwriting).1
              have hle : n + 1 ≤ w.conn.outputBuffer.readableBytes := hfits
              have hne : n + 1 ≠ w.conn.outputBuffer.readableBytes :=
                fun heq => hlast (by rw [← heq])
              change c'.outputBuffer.readableBytes ≠ 0
              omega
            · change c'.outputBuffer.readableBytes ≠ 0
              rw [(hdrains.of_stopped hwriting htakes).1]
              exact hpending
        · obtain rfl := hdrains.of_idle hwriting
          exact iff_of_true hhalf fun hwriting' => absurd hwriting' hwriting
    | shutdownInLoop =>
        refine iff_of_true (fun _ _ _ hoff => ?_) trivial
        change w.conn.socket.isWriting = false at hoff
        simp [TcpWire.apply, TcpWire.shutdownInLoop, hoff]
    | closeInLoop =>
        exact iff_of_true
          (fun _ hclosed => absurd hclosed hopen.closeInLoop.1.closed) trivial
  · refine iff_of_true
      (fun _ hclosed => absurd hclosed (hshut.apply hfits).1.closed) ?_
    cases action with
    | handleWriteInLoop result =>
        exact fun hwriting =>
          absurd (hshut.isWriting.symm.trans hwriting) (by decide)
    | _ => trivial

/-- The silence after the close is broken exactly by a message that is not
refused. -/
theorem Sound.silent_iff (h : w.Sound loop addr) (hsilent : w.Silent)
    {action : WireAction} (hfits : w.Fits action) :
    (w.apply loop addr action).Silent ↔ w.Refuses action := by
  have hopened : ∀ w' : TcpWire I, w'.closed = none → w'.faulted = false →
      w'.Silent := by
    intro w' hclosed hfaulted
    exact ⟨hfaulted, by simp [hclosed]⟩
  rcases h with hopen | hshut
  · cases action with
    | none => exact iff_of_true hsilent trivial
    | changeStatus status => exact iff_of_true hsilent trivial
    | sendInLoop data result =>
        obtain ⟨done, c', p', hrun, hopen', _⟩ := hopen.sendInLoop hfits
        rw [TcpWire.apply, hrun]
        exact iff_of_true (hopened _ hopen'.closed hopen'.faulted)
          fun hclosed => absurd hopen.closed hclosed
    | handleWriteInLoop result =>
        obtain ⟨done, c', p', hrun, hopen', _⟩ :=
          hopen.handleWriteInLoop hfits
        rw [TcpWire.apply, hrun]
        exact iff_of_true (hopened _ hopen'.closed hopen'.faulted) trivial
    | shutdownInLoop => exact iff_of_true hsilent trivial
    | closeInLoop =>
        obtain ⟨hshut, hfaulted, hclosed⟩ := hopen.closeInLoop
        refine iff_of_true ⟨hfaulted, fun bytes hbytes => ⟨?_, hshut.events⟩⟩
          trivial
        exact Option.some.inj (hclosed.symm.trans hbytes)
  · cases action with
    | none => exact iff_of_true hsilent trivial
    | changeStatus status => exact iff_of_true hsilent trivial
    | sendInLoop data result =>
        obtain ⟨done, w', hrun, hshut', hclosed, hiff⟩ :=
          hshut.sendInLoop loop addr hfits
        obtain ⟨bytes, hbytes⟩ := Option.ne_none_iff_exists'.mp hshut.closed
        have haccepted := (hsilent.2 bytes hbytes).1
        rw [TcpWire.apply, hrun]
        constructor
        · intro hsilent' _
          refine (hiff hsilent.1).mp ⟨hsilent'.1, ?_⟩
          rw [haccepted]
          exact (hsilent'.2 bytes (hclosed.trans hbytes)).1
        · intro hrefuses
          obtain ⟨hfaulted, hsame⟩ :=
            (hiff hsilent.1).mpr (hrefuses hshut.closed)
          refine ⟨hfaulted, fun bytes' hbytes' => ⟨?_, hshut'.events⟩⟩
          rw [hsame]
          exact (hsilent.2 bytes' (hclosed.symm.trans hbytes')).1
    | handleWriteInLoop result =>
        rw [TcpWire.apply, hshut.handleWriteInLoop]
        exact iff_of_true hsilent trivial
    | shutdownInLoop => exact iff_of_true hsilent trivial
    | closeInLoop =>
        rw [TcpWire.apply, hshut.closeInLoop]
        exact iff_of_true hsilent trivial

end TcpWire

end Libsaf
