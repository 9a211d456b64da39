/-
`saf::InetAddress`: the text of an address and port, which is the key of a peer
in the connections of the servers.  Different peers have different keys, so the
servers do what they would do with the addresses themselves as keys.
-/
import Libsaf.BufferInt
import Libsaf.Decimal
import Libsaf.ServerTable

namespace Libsaf

open ByteOrder Decimal

/-- The members of `sockaddr_in` as they are stored, in network order. -/
structure InetAddress where
  sin_port : BitVec 16
  sin_addr : BitVec 32
deriving Repr, DecidableEq

namespace InetAddress

/-- `.` and `:`. -/
def dot : UInt8 := 46

def colon : UInt8 := 58

/-- The bytes of `sin_addr` in memory. -/
def addrBytes (a : InetAddress) : List UInt8 := leBytes 4 a.sin_addr.toNat

/-- `inet_ntop`: the text needs room for the zero at its end, else `buff` stays
what it is. -/
def inet_ntop (bytes : List UInt8) (buff : List UInt8) (size : Nat) :
    List UInt8 :=
  let text := joined dot (bytes.map UInt8.toNat)
  if text.length < size then text else buff

/-- `snprintf` with `":%u"`: what has no room before the zero is cut off. -/
def snprintfPort (size : Nat) (port : BitVec 16) : List UInt8 :=
  (colon :: natText port.toNat).take (size - 1)

def getPort (a : InetAddress) : BitVec 16 := Net.networkToHost16 a.sin_port

def toIp (a : InetAddress) : List UInt8 := inet_ntop a.addrBytes [] 64

def toIpPort (a : InetAddress) : List UInt8 :=
  let size := 64
  let buff := inet_ntop a.addrBytes [] size
  let end_ := buff.length
  let port := Net.networkToHost16 a.sin_port
  buff ++ snprintfPort (size - end_) port

/-- The text that has not been cut anywhere. -/
def fullText (a : InetAddress) : List UInt8 :=
  [colon].intercalate
    [joined dot (a.addrBytes.map UInt8.toNat), natText a.getPort.toNat]

variable {a b : InetAddress}

theorem length_addr (a : InetAddress) :
    (joined dot (a.addrBytes.map UInt8.toNat)).length ≤ 16 := by
  have hbytes : (a.addrBytes.map UInt8.toNat).length = 4 := by simp [addrBytes]
  have hshort : ∀ x ∈ (a.addrBytes.map UInt8.toNat).map natText,
      x.length ≤ 3 := by
    intro x hx
    obtain ⟨n, hn, rfl⟩ := List.mem_map.mp hx
    obtain ⟨c, _, rfl⟩ := List.mem_map.mp hn
    exact length_natText_le (by decide) (Nat.lt_trans c.toNat_lt (by decide))
  have hlength := @length_intercalate_le dot _ _ hshort
  rw [List.length_map, hbytes] at hlength
  exact hlength

theorem length_port (a : InetAddress) : (natText a.getPort.toNat).length ≤ 5 :=
  length_natText_le (by decide)
    (Nat.lt_trans a.getPort.isLt (by decide))

/-- The address has room, and the port behind it. -/
theorem toIp_eq (a : InetAddress) :
    a.toIp = joined dot (a.addrBytes.map UInt8.toNat) := by
  have haddr := length_addr a
  exact if_pos (by omega)

theorem toIpPort_eq (a : InetAddress) :
    a.toIpPort = a.fullText ∧ a.toIpPort.length < 64 := by
  have haddr := length_addr a
  have hport := length_port a
  rw [← toIp_eq] at haddr
  have hroom : (colon :: natText a.getPort.toNat).length ≤
      64 - a.toIp.length - 1 := by
    rw [List.length_cons]
    omega
  have hfull : a.toIpPort = a.toIp ++ colon :: natText a.getPort.toNat := by
    change a.toIp ++ snprintfPort (64 - a.toIp.length) a.getPort = _
    rw [snprintfPort, List.take_of_length_le hroom]
  constructor
  · rw [hfull, fullText, toIp_eq, List.intercalate_cons_cons]
    simp
  · rw [hfull, List.length_append, List.length_cons]
    omega

example : toIpPort ⟨0x5000, 0x0100007f⟩ = "127.0.0.1:80".toUTF8.data.toList := by
  decide +kernel

theorem colon_not_mem (a : InetAddress) :
    ∀ x ∈ [joined dot (a.addrBytes.map UInt8.toNat), natText a.getPort.toNat],
      colon ∉ x := by
  have hnumeral : ∀ n, colon ∉ natText n :=
    fun n hmem => absurd (natText_digits hmem) (by decide)
  intro x hx hmem
  rcases List.mem_cons.mp hx with rfl | hx
  · rcases mem_intercalate hmem with hdot | ⟨y, hy, hmem⟩
    · exact absurd hdot (by decide)
    · obtain ⟨n, _, rfl⟩ := List.mem_map.mp hy
      exact hnumeral n hmem
  · obtain rfl := List.mem_singleton.mp hx
    exact hnumeral _ hmem

theorem networkToHost16_injective : Function.Injective Net.networkToHost16 := by
  intro x y h
  have hbytes : leBytes 2 x.toNat = leBytes 2 y.toNat := by
    rw [← List.reverse_inj, ← leBytes_byteSwap, ← leBytes_byteSwap,
      ← Net.toNat_swapBytes (by decide), ← Net.toNat_swapBytes (by decide)]
    exact congrArg (fun port => leBytes 2 port.toNat) h
  exact BitVec.eq_of_toNat_eq (leBytes_injective x.isLt y.isLt hbytes)

theorem addrBytes_injective (h : a.addrBytes = b.addrBytes) :
    a.sin_addr = b.sin_addr :=
  BitVec.eq_of_toNat_eq (leBytes_injective a.sin_addr.isLt b.sin_addr.isLt h)

/-- The address and the port are read back from the text. -/
theorem toIpPort_reads (h : a.toIpPort = b.toIpPort) :
    a.sin_addr = b.sin_addr ∧ a.getPort = b.getPort := by
  rw [(toIpPort_eq a).1, (toIpPort_eq b).1] at h
  have hparts := intercalate_injective (by simp) (by simp) (colon_not_mem a)
    (colon_not_mem b) h
  obtain ⟨haddr, hport⟩ : joined dot (a.addrBytes.map UInt8.toNat) =
      joined dot (b.addrBytes.map UInt8.toNat) ∧
      natText a.getPort.toNat = natText b.getPort.toNat := by
    simpa using hparts
  have hbytes := joined_injective (by decide) (by simp [addrBytes, leBytes])
    (by simp [addrBytes, leBytes]) haddr
  refine ⟨addrBytes_injective ?_, ?_⟩
  · exact List.map_injective_iff.mpr (fun _ _ => UInt8.toNat_inj.mp) hbytes
  · exact BitVec.eq_of_toNat_eq (natText_injective hport)

theorem toIpPort_injective : Function.Injective toIpPort := by
  intro a b h
  obtain ⟨haddr, hport⟩ := toIpPort_reads h
  cases a
  cases b
  cases haddr
  cases networkToHost16_injective hport
  rfl

end InetAddress

universe u v

variable {K : Type u} {L : Type v}

/-- The step with another key for the peer. -/
def ServerStep.mapKey (f : K → L) : ServerStep K → ServerStep L
  | .newConnection key now => .newConnection (f key) now
  | .recvMessage key now => .recvMessage (f key) now
  | .establish c => .establish c
  | .handleRead c now => .handleRead c now
  | .close c => .close c
  | .closeInLoop c => .closeInLoop c
  | .checkExpired now => .checkExpired now
  | .swapFunctors => .swapFunctors
  | .callFunctor => .callFunctor
  | .returnFunctors => .returnFunctors

namespace ServerTable

/-- The table with other keys, which `connections` has instead. -/
def rename (f : K → L) (connections : L → Option Nat) (s : ServerTable K) :
    ServerTable L :=
  { s with
    connections := connections
    made := s.made.map f }

/-- `t` has the entries of `s` under other keys. -/
def Renamed (f : K → L) (s : ServerTable K) (t : ServerTable L) : Prop :=
  ∃ connections, (∀ key, connections (f key) = s.connections key) ∧
    t = s.rename f connections

variable {f : K → L} {s : ServerTable K} {connections : L → Option Nat}

theorem start_renamed (f : K → L) :
    (start : ServerTable K).Renamed f (start : ServerTable L) :=
  ⟨fun _ => none, fun _ => rfl, rfl⟩

theorem rename_made (c : Nat) :
    (s.rename f connections).made[c]? = s.made[c]?.map f :=
  List.getElem?_map

theorem rename_expires
    (h : ∀ key, connections (f key) = s.connections key) (now : Int) (c : Nat) :
    (s.rename f connections).expires now c = s.expires now c := by
  unfold expires
  rw [rename_made]
  cases hkey : s.made[c]? with
  | none => rfl
  | some key =>
      apply decide_eq_decide.mpr
      rw [Option.map_some, Option.bind_some, Option.bind_some, ← h]
      exact Iff.rfl

theorem Renamed.checkExpiredInLoop
    (h : ∀ key, connections (f key) = s.connections key) (now : Int) :
    (s.checkExpiredInLoop now).Renamed f
      ((s.rename f connections).checkExpiredInLoop now) := by
  refine ⟨fun key => (connections key).filter fun c => !s.isExpired now c,
    fun key => ?_, ?_⟩
  · dsimp only
    rw [h]
    rfl
  · simp only [ServerTable.checkExpiredInLoop, rename_expires h]
    rfl

variable [DecidableEq K] [DecidableEq L]

theorem update_injective (hf : Function.Injective f)
    (h : ∀ key, connections (f key) = s.connections key) (key : K)
    (value : Option Nat) (other : K) :
    Function.update connections (f key) value (f other) =
      Function.update s.connections key value other := by
  by_cases hother : other = key
  · rw [hother, Function.update_self, Function.update_self]
  · rw [Function.update_of_ne hother, Function.update_of_ne (hf.ne hother), h]

theorem Renamed.newConnectionInLoop (hf : Function.Injective f)
    (h : ∀ key, connections (f key) = s.connections key) (key : K) (now : Int) :
    (s.newConnectionInLoop key now).Renamed f
      ((s.rename f connections).newConnectionInLoop (f key) now) := by
  refine ⟨Function.update connections (f key) (some s.made.length),
    update_injective hf h key _, ?_⟩
  simp [ServerTable.newConnectionInLoop, rename]

/-- A datagram finds the connection that it would find with the other keys. -/
theorem Renamed.recvMessageInLoop (hf : Function.Injective f)
    (h : ∀ key, connections (f key) = s.connections key) (key : K) (now : Int) :
    (s.recvMessageInLoop key now).Renamed f
      ((s.rename f connections).recvMessageInLoop (f key) now) := by
  unfold ServerTable.recvMessageInLoop
  rw [show (s.rename f connections).connections (f key) = s.connections key
    from h key]
  cases s.connections key with
  | none => exact Renamed.newConnectionInLoop hf h key now
  | some c => exact ⟨connections, h, rfl⟩

theorem Renamed.removeConnectionInLoop (hf : Function.Injective f)
    (h : ∀ key, connections (f key) = s.connections key) (c : Nat) :
    (s.removeConnectionInLoop c).Renamed f
      ((s.rename f connections).removeConnectionInLoop c) := by
  unfold ServerTable.removeConnectionInLoop
  dsimp only
  rw [rename_made]
  cases s.made[c]? with
  | none => exact ⟨connections, h, rfl⟩
  | some key =>
      dsimp only [Option.map_some]
      rw [show (s.rename f connections).connections (f key) = s.connections key
        from h key]
      cases s.connections key with
      | none => exact ⟨connections, h, rfl⟩
      | some value =>
          exact ⟨_, update_injective hf h key none, rfl⟩

/-- A server does with one kind of keys what it does with the other. -/
theorem renamed_step (hf : Function.Injective f) {kind : ServerKind}
    {t : ServerTable L} (h : s.Renamed f t) (step : ServerStep K)
    (henabled : (serverMachine L kind).enabled t (step.mapKey f)) :
    ∃ t' s', (serverMachine L kind).exec t (step.mapKey f) = some t' ∧
      (serverMachine K kind).exec s step = some s' ∧ s'.Renamed f t' := by
  obtain ⟨connections, h, rfl⟩ := h
  cases step with
  | newConnection key now =>
      exact ⟨_, _, rfl, rfl, Renamed.newConnectionInLoop hf h key now⟩
  | recvMessage key now =>
      exact ⟨_, _, rfl, rfl, Renamed.recvMessageInLoop hf h key now⟩
  | checkExpired now =>
      exact ⟨_, _, rfl, rfl, Renamed.checkExpiredInLoop h now⟩
  | callFunctor =>
      obtain ⟨c, rest, hcons⟩ := List.exists_cons_of_ne_nil henabled.2
      have hcalled : s.functors.batch = c :: rest := hcons
      exact ⟨_, _, callFunctor_exec hcons, callFunctor_exec hcalled,
        Renamed.removeConnectionInLoop hf (s := { s with
          functors := { s.functors with batch := rest } }) h c⟩
  | _ => exact ⟨_, _, rfl, rfl, connections, h, rfl⟩

theorem renamed_run (hf : Function.Injective f) {kind : ServerKind}
    {word : List (ServerStep K)}
    (hlegal : (serverMachine L kind).Legal .start
      (word.map (ServerStep.mapKey f))) :
    ∃ t s, (serverMachine L kind).run .start (word.map (ServerStep.mapKey f)) =
        some t ∧
      (serverMachine K kind).run .start word = some s ∧ s.Renamed f t := by
  rw [← Machine.run_comap]
  exact Machine.simulates (R := fun t s => Renamed f s t)
    (fun _ _ step h henabled => renamed_step hf h step henabled)
    (start_renamed f) (Machine.legal_comap.mpr hlegal)

/-- Every entry is that of a connection with this peer. -/
def Owned (s : ServerTable K) : Prop :=
  ∀ key c, s.connections key = some c → s.made[c]? = some key

theorem Owned.newConnectionInLoop (h : s.Owned) (key : K) (now : Int) :
    (s.newConnectionInLoop key now).Owned := by
  intro other c hentry
  have hmade : (s.newConnectionInLoop key now).made = s.made ++ [key] := rfl
  change Function.update s.connections key (some s.made.length) other = some c
    at hentry
  rw [hmade]
  by_cases hother : other = key
  · subst hother
    rw [Function.update_self] at hentry
    obtain rfl := Option.some.inj hentry
    simp
  · rw [Function.update_of_ne hother] at hentry
    have hpeer := h other c hentry
    rw [List.getElem?_append_left (List.getElem?_eq_some_iff.mp hpeer).1]
    exact hpeer

theorem Owned.removeConnectionInLoop (h : s.Owned) (c : Nat) :
    (s.removeConnectionInLoop c).Owned := by
  unfold ServerTable.removeConnectionInLoop
  dsimp only
  split
  · exact h
  · next key _ =>
      split
      · exact h
      · intro other d hentry
        change Function.update s.connections key none other = some d at hentry
        by_cases hother : other = key
        · rw [hother, Function.update_self] at hentry
          cases hentry
        · rw [Function.update_of_ne hother] at hentry
          exact h other d hentry

theorem owned_step {kind : ServerKind} {s' : ServerTable K}
    {step : ServerStep K} (h : s.Owned)
    (henabled : (serverMachine K kind).enabled s step)
    (hexec : (serverMachine K kind).exec s step = some s') : s'.Owned := by
  cases step with
  | newConnection key now =>
      obtain rfl := Option.some.inj hexec
      exact h.newConnectionInLoop key now
  | recvMessage key now =>
      obtain rfl := Option.some.inj hexec
      unfold ServerTable.recvMessageInLoop
      split
      · exact h.newConnectionInLoop key now
      · exact h
  | checkExpired now =>
      obtain rfl := Option.some.inj hexec
      intro key c hentry
      exact h key c (Option.filter_eq_some_iff.mp hentry).1
  | callFunctor =>
      obtain ⟨c, rest, hcons⟩ := List.exists_cons_of_ne_nil henabled.2
      obtain rfl := Option.some.inj (hexec.symm.trans (callFunctor_exec hcons))
      exact Owned.removeConnectionInLoop (s := { s with
        functors := { s.functors with batch := rest } }) h c
  | _ =>
      obtain rfl := Option.some.inj hexec
      exact h

theorem owned_run {kind : ServerKind} {word : List (ServerStep K)}
    (hlegal : (serverMachine K kind).Legal .start word)
    (hrun : (serverMachine K kind).run .start word = some s) : s.Owned :=
  Machine.invariant_run (fun _ _ _ hs henabled hexec =>
    owned_step hs henabled hexec) (fun _ _ hentry => by cases hentry) hlegal
    hrun

end ServerTable

/-- Connection keys are unambiguous.  The text of an address and port is never
cut off, and it determines both; so in every run of a server that looks its
connections up by this text, a peer has the entry that it would have by its
address, and this is that of a connection which was made for the peer. -/
theorem toIpPort_unambiguous :
    (∀ a b : InetAddress, a.toIpPort = b.toIpPort →
      a.sin_addr = b.sin_addr ∧ a.getPort = b.getPort) ∧
    (∀ a : InetAddress, a.toIpPort = a.fullText ∧ a.toIpPort.length < 64) ∧
    ∀ (kind : ServerKind) (word : List (ServerStep InetAddress)),
      (serverMachine (List UInt8) kind).Legal .start
        (word.map (ServerStep.mapKey InetAddress.toIpPort)) →
      ∃ t s, (serverMachine (List UInt8) kind).run .start
          (word.map (ServerStep.mapKey InetAddress.toIpPort)) = some t ∧
        (serverMachine InetAddress kind).run .start word = some s ∧
        (∀ a, t.connections a.toIpPort = s.connections a) ∧
        ∀ a c, t.connections a.toIpPort = some c → s.made[c]? = some a := by
  refine ⟨fun a b => InetAddress.toIpPort_reads, InetAddress.toIpPort_eq,
    fun kind word hlegal => ?_⟩
  obtain ⟨t, s, ht, hs, connections, hsame, rfl⟩ :=
    ServerTable.renamed_run InetAddress.toIpPort_injective hlegal
  refine ⟨_, s, ht, hs, hsame, fun a c hentry => ?_⟩
  have hpeer := ServerTable.owned_run hlegal ht a.toIpPort c hentry
  rw [ServerTable.rename_made, Option.map_eq_some_iff] at hpeer
  obtain ⟨b, hb, htext⟩ := hpeer
  rw [hb, InetAddress.toIpPort_injective htext]

end Libsaf
