/-
`saf::Pipeline`.  `process` owns one `HandlerData` at a time and replaces it by
the one that the next handler returns.  An object that is returned to `process`
by the handler that it was given to is released and then used.
-/
import Libsaf.UnpackHandler

namespace Libsaf

universe u

/-- The classes that derive from `HandlerData`; `BufferData` is one of them. -/
class HandlerClass (D : Type u) where
  bufferData : BufferData → D
  getStatus : D → HandlerStatus

instance : HandlerClass HandlerData := ⟨.bufferData, HandlerData.getStatus⟩

/-- What a handler returns: an object that it created, or the very object that
it was given, as it left it. -/
inductive HandlerReturn (D : Type u) where
  | fresh (data : D)
  | given (data : D)

/-- `Handler::process`.  The buffer that the data points to is passed beside it,
`W` is whatever else the handlers read and write. -/
abbrev Handler (D W : Type u) :=
  D → Buffer → W → Option (HandlerReturn D × Buffer × W)

/-- All objects that were created, and the pointers that were released.  The
pointer to an object is its place. -/
structure DataHeap (D : Type u) where
  created : List D
  released : List Nat
deriving Repr, DecidableEq

namespace DataHeap

variable {D : Type u}

def empty : DataHeap D := ⟨[], []⟩

def create (heap : DataHeap D) (data : D) : Nat × DataHeap D :=
  (heap.created.length, { heap with created := heap.created ++ [data] })

def write (heap : DataHeap D) (pointer : Nat) (data : D) : DataHeap D :=
  { heap with created := heap.created.set pointer data }

/-- A released object is not read. -/
def read (heap : DataHeap D) (pointer : Nat) : Option D :=
  if pointer ∈ heap.released then none else heap.created[pointer]?

/-- An object is not released twice. -/
def release (heap : DataHeap D) (pointer : Nat) : Option (DataHeap D) :=
  if pointer ∈ heap.released then none
  else some { heap with released := heap.released ++ [pointer] }

/-- After a release the pointer dangles. -/
theorem read_release {heap heap' : DataHeap D} {pointer : Nat}
    (h : heap.release pointer = some heap') : heap'.read pointer = none := by
  unfold release at h
  split at h
  · cases h
  · cases h
    simp [read]

/-- The object behind `holder` is the last that was created, and all others
were released once. -/
structure Holds (heap : DataHeap D) (holder : Nat) (data : D) : Prop where
  released : heap.released = List.range holder
  created : heap.created.length = holder + 1
  held : heap.created[holder]? = some data

variable {heap : DataHeap D} {holder : Nat} {data : D}

theorem empty_create (data : D) :
    ((empty.create data).2 : DataHeap D).Holds (empty.create data).1 data :=
  ⟨rfl, rfl, rfl⟩

theorem Holds.read (h : heap.Holds holder data) :
    heap.read holder = some data := by
  rw [DataHeap.read, h.released, if_neg (by simp), h.held]

/-- `reset` to a new object: the old one is released and the new one held. -/
theorem Holds.reset (h : heap.Holds holder data) (next : D) :
    ∃ heap', (heap.create next).2.release holder = some heap' ∧
      heap'.Holds (heap.create next).1 next := by
  have hnot : holder ∉ (heap.create next).2.released := by
    rw [create, h.released]
    simp
  refine ⟨_, if_neg hnot, ?_⟩
  constructor
  · simp only [create, h.released, h.created, List.range_succ]
  · simp [create]
  · simp [create]

/-- The destructor of the shared pointer. -/
theorem Holds.release (h : heap.Holds holder data) :
    ∃ heap', heap.release holder = some heap' ∧
      heap'.released = List.range heap'.created.length := by
  have hnot : holder ∉ heap.released := by
    rw [h.released]
    simp
  refine ⟨_, if_neg hnot, ?_⟩
  simp only [h.released, h.created, List.range_succ]

end DataHeap

namespace Pipeline

open HandlerClass

variable {D W : Type u}

/-- Nothing released was read or released again, and every object was released. -/
def ReleasedOnce (outcome : Option (DataHeap D × Buffer × W)) : Prop :=
  ∃ heap buffer world, outcome = some (heap, buffer, world) ∧
    heap.released.Perm (List.range heap.created.length)

theorem not_releasedOnce_of_none {outcome : Option (DataHeap D × Buffer × W)}
    (h : outcome = none) : ¬ ReleasedOnce outcome := by
  rintro ⟨_, _, _, hsome, _⟩
  rw [h] at hsome
  cases hsome

variable [HandlerClass D]

/-- The pointer that a handler returns to the owner of `holder`. -/
def returned (heap : DataHeap D) (holder : Nat) :
    HandlerReturn D → Nat × DataHeap D
  | .fresh data => heap.create data
  | .given data => (holder, heap.write holder data)

/-- The loop over the handlers: the object that is held, and all else, behind
it. -/
def processHandlers : List (Handler D W) → Nat → DataHeap D → Buffer → W →
    Option (Nat × DataHeap D × Buffer × W)
  | [], holder, heap, buffer, world => some (holder, heap, buffer, world)
  | handler :: handlers, holder, heap, buffer, world => do
      let data ← heap.read holder
      let (result, buffer, world) ← handler data buffer world
      let (next, heap) := returned heap holder result
      -- `holder.reset(next)` takes the new pointer and releases the old one
      let heap ← heap.release holder
      let held ← heap.read next
      if getStatus held ≠ .SUCCESS then some (next, heap, buffer, world)
      else processHandlers handlers next heap buffer world

def process (handlers : List (Handler D W)) (buffer : Buffer) (world : W) :
    Option (DataHeap D × Buffer × W) := do
  let (data, heap) := DataHeap.empty.create
    (bufferData (BufferData.create buffer.readableBytes))
  let (holder, heap, buffer, world) ←
    processHandlers handlers data heap buffer world
  let heap ← heap.release holder
  some (heap, buffer, world)

/-- Every handler that is reached returns an object that it created. -/
def Renewed : List (Handler D W) → D → Buffer → W → Prop
  | [], _, _, _ => True
  | handler :: handlers, data, buffer, world =>
      ∃ next buffer' world',
        handler data buffer world = some (.fresh next, buffer', world') ∧
        (getStatus next = .SUCCESS → Renewed handlers next buffer' world')

/-- A handler that returns what it was given makes the next read a fault. -/
theorem processHandlers_given {handler : Handler D W}
    {handlers : List (Handler D W)} {heap : DataHeap D} {holder : Nat}
    {data : D} {buffer : Buffer} {world : W} (h : heap.Holds holder data)
    {left : D} {buffer' : Buffer} {world' : W}
    (hreturn : handler data buffer world = some (.given left, buffer', world')) :
    processHandlers (handler :: handlers) holder heap buffer world = none := by
  simp only [processHandlers, h.read, hreturn, returned, Option.bind_eq_bind,
    Option.bind_some]
  cases hrelease : (heap.write holder left).release holder with
  | none => rfl
  | some heap' =>
      rw [Option.bind_some, DataHeap.read_release hrelease]
      rfl

/-- A handler that returns an object that it created. -/
theorem processHandlers_fresh {handler : Handler D W}
    (handlers : List (Handler D W)) {heap : DataHeap D} {holder : Nat}
    {data : D} {buffer : Buffer} {world : W} (h : heap.Holds holder data)
    {next : D} {buffer' : Buffer} {world' : W}
    (hreturn : handler data buffer world = some (.fresh next, buffer', world')) :
    ∃ holder' heap', heap'.Holds holder' next ∧
      processHandlers (handler :: handlers) holder heap buffer world =
        if getStatus next ≠ .SUCCESS then some (holder', heap', buffer', world')
        else processHandlers handlers holder' heap' buffer' world' := by
  obtain ⟨heap', hrelease, hholds⟩ := h.reset next
  refine ⟨_, heap', hholds, ?_⟩
  simp only [processHandlers, h.read, hreturn, returned, Option.bind_eq_bind,
    Option.bind_some, hrelease, hholds.read]

/-- As long as the object is renewed the loop has no fault and the last object
is held behind it. -/
theorem processHandlers_of_renewed {handlers : List (Handler D W)}
    {heap : DataHeap D} {holder : Nat} {data : D} {buffer : Buffer} {world : W}
    (h : heap.Holds holder data) (hrenewed : Renewed handlers data buffer world) :
    ∃ holder' heap' buffer' world' last,
      processHandlers handlers holder heap buffer world =
        some (holder', heap', buffer', world') ∧ heap'.Holds holder' last := by
  induction handlers generalizing heap holder data buffer world with
  | nil => exact ⟨holder, heap, buffer, world, data, rfl, h⟩
  | cons handler handlers ih =>
      obtain ⟨next, buffer', world', hreturn, hrest⟩ := hrenewed
      obtain ⟨holder', heap', hholds, hprocess⟩ :=
        processHandlers_fresh handlers h hreturn
      rw [hprocess]
      by_cases hstatus : getStatus next = .SUCCESS
      · rw [if_neg (not_not_intro hstatus)]
        exact ih hholds (hrest hstatus)
      · rw [if_pos hstatus]
        exact ⟨holder', heap', buffer', world', next, rfl, hholds⟩

theorem renewed_of_processHandlers {handlers : List (Handler D W)}
    {heap : DataHeap D} {holder : Nat} {data : D} {buffer : Buffer} {world : W}
    (h : heap.Holds holder data)
    (hprocess : processHandlers handlers holder heap buffer world ≠ none) :
    Renewed handlers data buffer world := by
  induction handlers generalizing heap holder data buffer world with
  | nil => trivial
  | cons handler handlers ih =>
      cases hreturn : handler data buffer world with
      | none => exact absurd (by simp [processHandlers, h.read, hreturn]) hprocess
      | some result =>
          obtain ⟨result, buffer', world'⟩ := result
          cases result with
          | given left => exact absurd (processHandlers_given h hreturn) hprocess
          | fresh next =>
              refine ⟨next, buffer', world', hreturn, fun hstatus => ?_⟩
              obtain ⟨holder', heap', hholds, heq⟩ :=
                processHandlers_fresh handlers h hreturn
              rw [heq, if_neg (not_not_intro hstatus)] at hprocess
              exact ih hholds hprocess

/-- `process` releases every object exactly once, and reads none behind its
release, if and only if every handler that is reached creates what it returns. -/
theorem process_released_iff (handlers : List (Handler D W)) (buffer : Buffer)
    (world : W) :
    ReleasedOnce (process handlers buffer world) ↔
      Renewed handlers (bufferData (BufferData.create buffer.readableBytes))
        buffer world := by
  have hstart := DataHeap.empty_create
    (bufferData (BufferData.create buffer.readableBytes) : D)
  constructor
  · rintro ⟨heap, buffer', world', hprocess, _⟩
    apply renewed_of_processHandlers hstart
    intro hnone
    simp [process, hnone] at hprocess
  · intro hrenewed
    obtain ⟨holder, heap, buffer', world', last, hloop, hholds⟩ :=
      processHandlers_of_renewed hstart hrenewed
    obtain ⟨heap', hrelease, hreleased⟩ := hholds.release
    refine ⟨heap', buffer', world', ?_, hreleased ▸ List.Perm.refl _⟩
    simp [process, hloop, hrelease]

/-- `UnpackHandler` returns the data that it was given, or else the package that
it created.  It is only given a `BufferData`. -/
def unpackHandler {W : Type} : Handler HandlerData W
  | .bufferData data, buffer, world =>
      (UnpackHandler.process buffer data).map fun
        | (.bufferData data, buffer) =>
            (.given (.bufferData data), buffer, world)
        | (.bitsData package, buffer) =>
            (.fresh (.bitsData package), buffer, world)
  | .bitsData _, _, _ => none

/-- Alone in a pipeline it renews the object if and only if the buffer begins
with a complete frame. -/
theorem renewed_unpackHandler_iff {W : Type} {buffer : Buffer}
    {data : BufferData} {world : W} :
    Renewed [unpackHandler] (.bufferData data) buffer world ↔
      ∃ payload rest,
        UnpackHandler.parseFrame buffer.asString = some (payload, rest) := by
  constructor
  · rintro ⟨next, buffer', world', hreturn, _⟩
    cases hparse : UnpackHandler.parseFrame buffer.asString with
    | none =>
        rw [unpackHandler, UnpackHandler.process_of_parseFrame_none data hparse,
          Option.map_some] at hreturn
        cases hreturn
    | some frame => exact ⟨frame.1, frame.2, rfl⟩
  · rintro ⟨payload, rest, hparse⟩
    obtain ⟨package, buffer', hprocess, _⟩ :=
      UnpackHandler.process_of_parseFrame data hparse
    refine ⟨.bitsData package, buffer', world, ?_, fun _ => trivial⟩
    rw [unpackHandler, hprocess, Option.map_some]

/-- One byte is no frame: the object that `UnpackHandler` returns is released
and its status read. -/
theorem process_unpack_faults :
    ∃ buffer, (Buffer.ofSize 4).append [7] = some buffer ∧
      buffer.asString = [7] ∧
      ¬ ReleasedOnce (process [unpackHandler] buffer ()) := by
  refine ⟨_, rfl, by decide, not_releasedOnce_of_none ?_⟩
  decide +kernel

end Pipeline

end Libsaf
