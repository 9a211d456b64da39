/-
The typed integers of `Buffer`, in network byte order, on a little-endian
host.  An `intN_t` is a bit vector of width `N`; its signed value is `toInt`.
-/
import Libsaf.ByteOrder
import Libsaf.Buffer

namespace Libsaf

open ByteOrder

namespace Net

/-- `htobeN` and `beNtoh` on a little-endian host, for a type of `k` bytes. -/
def swapBytes (k : Nat) {w : Nat} (x : BitVec w) : BitVec w :=
  BitVec.ofNat w (byteSwap k x.toNat)

def hostToNetwork64 (host64 : BitVec 64) : BitVec 64 := swapBytes 8 host64

def hostToNetwork32 (host32 : BitVec 32) : BitVec 32 := swapBytes 4 host32

def hostToNetwork16 (host16 : BitVec 16) : BitVec 16 := swapBytes 2 host16

def networkToHost64 (net64 : BitVec 64) : BitVec 64 := swapBytes 8 net64

def networkToHost32 (net32 : BitVec 32) : BitVec 32 := swapBytes 4 net32

def networkToHost16 (net16 : BitVec 16) : BitVec 16 := swapBytes 2 net16

theorem toNat_swapBytes {k w : Nat} (hw : 2 ^ w = 256 ^ k) (x : BitVec w) :
    (swapBytes k x).toNat = byteSwap k x.toNat := by
  rw [swapBytes, BitVec.toNat_ofNat, hw]
  exact Nat.mod_eq_of_lt (byteSwap_lt k x.toNat)

end Net

namespace Buffer

/-- `append(&x, sizeof x)` for an object of `k` bytes. -/
def appendObject (b : Buffer) (k : Nat) {w : Nat} (x : BitVec w) :
    Option Buffer :=
  b.append (leBytes k x.toNat)

/-- `memcpy(&x, peek(), sizeof x)` for an object of `k` bytes. -/
def peekObject (b : Buffer) (k w : Nat) : Option (BitVec w) :=
  if k ≤ b.readableBytes then
    some (BitVec.ofNat w (leNat (b.peek.take k)))
  else none

def appendInt64 (b : Buffer) (x : BitVec 64) : Option Buffer :=
  b.appendObject 8 (Net.hostToNetwork64 x)

def appendInt32 (b : Buffer) (x : BitVec 32) : Option Buffer :=
  b.appendObject 4 (Net.hostToNetwork32 x)

def appendInt16 (b : Buffer) (x : BitVec 16) : Option Buffer :=
  b.appendObject 2 (Net.hostToNetwork16 x)

def appendInt8 (b : Buffer) (x : BitVec 8) : Option Buffer :=
  b.appendObject 1 x

def peekInt64 (b : Buffer) : Option (BitVec 64) :=
  (b.peekObject 8 64).map Net.networkToHost64

def peekInt32 (b : Buffer) : Option (BitVec 32) :=
  (b.peekObject 4 32).map Net.networkToHost32

def peekInt16 (b : Buffer) : Option (BitVec 16) :=
  (b.peekObject 2 16).map Net.networkToHost16

def peekInt8 (b : Buffer) : Option (BitVec 8) := b.peekObject 1 8

/-- `readIntN` skips as many bytes as the type has bits. -/
def readInt64 (b : Buffer) : Option (BitVec 64 × Buffer) := do
  let result ← b.peekInt64
  let b' ← b.retrieve 64
  return (result, b')

def readInt32 (b : Buffer) : Option (BitVec 32 × Buffer) := do
  let result ← b.peekInt32
  let b' ← b.retrieve 32
  return (result, b')

def readInt16 (b : Buffer) : Option (BitVec 16 × Buffer) := do
  let result ← b.peekInt16
  let b' ← b.retrieve 16
  return (result, b')

def readInt8 (b : Buffer) : Option (BitVec 8 × Buffer) := do
  let result ← b.peekInt8
  let b' ← b.retrieve 8
  return (result, b')

/-- A swapped object lies in the buffer in network order. -/
theorem appendObject_swapBytes (b : Buffer) {k w : Nat}
    (hw : 2 ^ w = 256 ^ k) (x : BitVec w) :
    ∃ b', b.appendObject k (Net.swapBytes k x) = some b' ∧
      b'.asString = b.asString ++ (leBytes k x.toNat).reverse := by
  rw [appendObject, Net.toNat_swapBytes hw, leBytes_byteSwap]
  exact b.append_spec _

/-- A swapped object is read in network order. -/
theorem peekObject_swapBytes (b : Buffer) {k w : Nat} (hw : 2 ^ w = 256 ^ k)
    (hk : k ≤ b.readableBytes) :
    (b.peekObject k w).map (Net.swapBytes k) =
      some (BitVec.ofNat w (beNat (b.asString.take k))) := by
  have hlength : (b.asString.take k).length = k := by
    rw [List.length_take, length_asString]
    omega
  have hlt : leNat (b.asString.take k) < 2 ^ w := by
    rw [hw]
    simpa [hlength] using leNat_lt (b.asString.take k)
  rw [peekObject, if_pos hk, Option.map_some, Net.swapBytes, b.peek_take hk,
    BitVec.toNat_ofNat, Nat.mod_eq_of_lt hlt]
  have hswap := byteSwap_leNat (b.asString.take k)
  rw [hlength] at hswap
  rw [hswap]

theorem appendInt32_spec (b : Buffer) (x : BitVec 32) :
    ∃ b', b.appendInt32 x = some b' ∧
      b'.asString = b.asString ++ (leBytes 4 x.toNat).reverse :=
  b.appendObject_swapBytes (by decide) x

theorem peekInt32_spec (b : Buffer) (h : 4 ≤ b.readableBytes) :
    b.peekInt32 = some (BitVec.ofNat 32 (beNat (b.asString.take 4))) :=
  b.peekObject_swapBytes (by decide) h

end Buffer

end Libsaf
