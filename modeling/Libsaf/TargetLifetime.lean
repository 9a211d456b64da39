/-
The lifetime of the connections and of the connector of libsaf.  A functor with
a bare `this` runs on an object that exists if no step destroys the object
while the functor waits or is executed, and in finished runs only then.
-/
import Libsaf.SharedTargets

namespace Libsaf

universe u v w

variable {A : Type u} {K : Type v} {T : Type w}

namespace SharedTargets

variable {config : TargetConfig T} {f f' : TargetFlags A K T}
variable {work t : TargetWork K T}

section

variable [DecidableEq K]

theorem mem_owners_of_object {owner : TargetOwner K} {x : Nat}
    (h : object work owner = some x) : (owner, x) ∈ work.owners := by
  obtain ⟨⟨o, y⟩, hfind, rfl⟩ := Option.map_eq_some_iff.mp h
  have howner : o = owner := by simpa using List.find?_some hfind
  rw [← howner]
  exact List.mem_of_find?_eq_some hfind

/-- A call with a list of operations that are possible in the state `t`, and
that makes no object. -/
structure Quiet (config : TargetConfig T) (f : TargetFlags A K T)
    (t : TargetWork K T) (e : Effect A K T) : Prop where
  origin : e.1.origin = f.origin
  next : e.1.next = f.next
  enabled : ∀ op ∈ e.2, t.Enabled targetCapture config.loops op
  plain : ∀ op ∈ e.2, op.Plain

omit [DecidableEq K] in
/-- The callbacks may have been unbound first. -/
theorem Quiet.unbound {x : Nat} {e : Effect A K T}
    (h : Quiet config (f.unbindDefaultCallbacks x) t e) :
    Quiet config f t e :=
  ⟨h.origin, h.next, h.enabled, h.plain⟩

omit [DecidableEq K] in
theorem quiet_none (horigin : f'.origin = f.origin)
    (hnext : f'.next = f.next) : Quiet config f t (f', none) :=
  ⟨horigin, hnext, by simp, by simp⟩

omit [DecidableEq K] in
theorem quiet_take {x : Nat} (owner : TargetOwner K)
    (halive : t.count x ≠ 0) :
    Quiet config f t (f, some (.take owner x)) where
  origin := rfl
  next := rfl
  enabled op hop := by
    obtain rfl := Option.some.inj hop
    exact halive
  plain op hop := by
    obtain rfl := Option.some.inj hop
    trivial

omit [DecidableEq K] in
theorem quiet_queueInLoop {loop : T} {task : TargetTask}
    (horigin : f'.origin = f.origin) (hnext : f'.next = f.next)
    (hloop : loop ∈ config.loops) (halive : t.count task.target ≠ 0) :
    Quiet config f t (f', some (.queueInLoop loop task)) where
  origin := horigin
  next := hnext
  enabled op hop := by
    obtain rfl := Option.some.inj hop
    exact ⟨hloop, halive⟩
  plain op hop := by
    obtain rfl := Option.some.inj hop
    trivial

theorem quiet_reset {owner : TargetOwner K} (hgrows : work.Grows t)
    (horigin : f'.origin = f.origin) (hnext : f'.next = f.next) :
    Quiet config f t (f', reset work owner) where
  origin := horigin
  next := hnext
  enabled op hop := by
    obtain ⟨x, hobject, rfl⟩ := Option.map_eq_some_iff.mp hop
    exact hgrows.owners _ (mem_owners_of_object hobject)
  plain op hop := by
    obtain ⟨x, _, rfl⟩ := Option.map_eq_some_iff.mp hop
    trivial

omit [DecidableEq K] in
theorem quiet_armed {old new : TcpConnector A}
    (horigin : f'.origin = f.origin) (hnext : f'.next = f.next)
    (halive : t.count 0 ≠ 0) : Quiet config f t (f', armed old new) where
  origin := horigin
  next := hnext
  enabled op hop := by
    unfold armed at hop
    split at hop
    · obtain rfl := Option.some.inj hop
      exact halive
    · cases hop
  plain op hop := by
    unfold armed at hop
    split at hop
    · obtain rfl := Option.some.inj hop
      trivial
    · cases hop

theorem quiet_closeInLoop {x : Nat} (stopped : Bool) (hgrows : work.Grows t)
    (halive : t.count x ≠ 0) :
    Quiet config f t (closeInLoop config work f x stopped) := by
  unfold closeInLoop
  dsimp only
  split
  · unfold onClosedInConnection
    split
    · exact quiet_queueInLoop rfl rfl config.server_mem halive
    · exact quiet_reset hgrows rfl rfl
  · exact quiet_none rfl rfl

theorem quiet_removeConnectionInLoop {x : Nat} (hgrows : work.Grows t) :
    Quiet config f t (removeConnectionInLoop work f x) := by
  unfold removeConnectionInLoop
  dsimp only
  split
  · exact quiet_reset hgrows rfl rfl
  · exact quiet_none rfl rfl

end

variable (hloops : ∀ x, f.loopOf config x ∈ config.loops)

include hloops in
theorem quiet_handleWriteInLoop {x : Nat} (outcome : WriteOutcome)
    (halive : t.count x ≠ 0) :
    Quiet config f t (handleWriteInLoop config f x outcome) := by
  unfold handleWriteInLoop
  split
  · cases outcome with
    | all => exact quiet_none rfl rfl
    | rest => exact quiet_queueInLoop rfl rfl (hloops x) halive
    | error => exact quiet_none rfl rfl
  · exact quiet_none rfl rfl

include hloops in
theorem quiet_sendInLoop {x : Nat} (outcome : WriteOutcome)
    (halive : t.count x ≠ 0) :
    Quiet config f t (sendInLoop config f x outcome) := by
  unfold sendInLoop
  split
  · split
    · exact quiet_none rfl rfl
    · have hwrite := quiet_handleWriteInLoop
        (f := { f with writing := Function.update f.writing x true })
        hloops outcome halive
      exact ⟨hwrite.origin, hwrite.next, hwrite.enabled, hwrite.plain⟩
  · split
    · exact quiet_queueInLoop rfl rfl (hloops x) halive
    · exact quiet_none rfl rfl

variable [DecidableEq T]

include hloops in
theorem quiet_send {thread : T} {x : Nat} (outcome : WriteOutcome)
    (halive : t.count x ≠ 0) :
    Quiet config f t (send config f thread x outcome) := by
  unfold send
  split
  · exact quiet_sendInLoop hloops outcome halive
  · exact quiet_queueInLoop rfl rfl (hloops x) halive

include hloops in
theorem quiet_shutdown {thread : T} {x : Nat} (halive : t.count x ≠ 0) :
    Quiet config f t (shutdown config f thread x) := by
  unfold shutdown
  split
  · exact quiet_none rfl rfl
  · dsimp only
    split
    · exact quiet_none rfl rfl
    · exact quiet_queueInLoop rfl rfl (hloops x) halive

variable [DecidableEq K]

include hloops in
theorem quiet_close {thread : T} {x : Nat} (stopped : Bool)
    (hgrows : work.Grows t) (halive : t.count x ≠ 0) :
    Quiet config f t (close config f work thread x stopped) := by
  unfold close
  split
  · exact quiet_none rfl rfl
  · dsimp only
    split
    · have hclose : Quiet config (f.changeStatus x .kDisconnecting) t
          (closeInLoop config work _ x stopped) :=
        quiet_closeInLoop stopped hgrows halive
      exact ⟨hclose.origin, hclose.next, hclose.enabled, hclose.plain⟩
    · exact quiet_queueInLoop rfl rfl (hloops x) halive

omit [DecidableEq T] in
include hloops in
/-- A functor does nothing to its object that needs more than the object. -/
theorem quiet_runTask {task : TargetTask} (outcome : WriteOutcome)
    (stopped : Bool) (hgrows : work.Grows t)
    (halive : t.count task.target ≠ 0) :
    Quiet config f t (runTask config f work task outcome stopped) := by
  cases task with
  | onConnectEstablishedInLoop x => exact quiet_none rfl rfl
  | handleReadInLoop x | shutdown x | writeComplete x =>
      exact quiet_none rfl rfl
  | closeInLoop x => exact quiet_closeInLoop stopped hgrows halive
  | removeConnectionInLoop x => exact quiet_removeConnectionInLoop hgrows
  | sendInLoop x => exact quiet_sendInLoop hloops outcome halive
  | handleWriteInLoop x => exact quiet_handleWriteInLoop hloops outcome halive
  | onRetryInLoop => exact quiet_armed rfl rfl halive

/-- The invariant of the pointers, the loops of the connections, and the
numbers of the objects. -/
structure Intact (config : TargetConfig T) (s : SharedTargets A K T) :
    Prop where
  counted : s.work.Counted targetCapture config.loops
  loops : ∀ x, s.flags.loopOf config x ∈ config.loops
  fresh : ∀ x ∈ s.work.made, x < s.flags.next

/-- The operations of a step are possible one after the other, and keep the
rest of the invariant. -/
structure Regular (config : TargetConfig T) (s : SharedTargets A K T)
    (e : TargetFlags A K T × List (TargetStep K T)) : Prop where
  legal : (workMachine targetCapture config.loops).Legal s.work e.2
  returns : ∀ loop, .returnFunctor loop ∈ e.2 → e.2 = [.returnFunctor loop]
  loops : ∀ x, e.1.loopOf config x ∈ config.loops
  fresh : ∀ x ∈ (s.work.applyAll targetCapture e.2).made, x < e.1.next

variable {s : SharedTargets A K T}

omit [DecidableEq K] [DecidableEq T] in
theorem loopOf_congr (horigin : f'.origin = f.origin) (x : Nat) :
    f'.loopOf config x = f.loopOf config x := by
  unfold TargetFlags.loopOf
  rw [horigin]

theorem Intact.regular (hs : s.Intact config)
    {word : List (TargetStep K T)} (horigin : f'.origin = s.flags.origin)
    (hnext : f'.next = s.flags.next)
    (hlegal : (workMachine targetCapture config.loops).Legal s.work word)
    (hreturns : ∀ loop, .returnFunctor loop ∈ word →
      word = [.returnFunctor loop])
    (hmade : (s.work.applyAll targetCapture word).made = s.work.made) :
    Regular config s (f', word) where
  legal := hlegal
  returns := hreturns
  loops x := by
    rw [loopOf_congr horigin]
    exact hs.loops x
  fresh x hx := by
    rw [hmade] at hx
    rw [hnext]
    exact hs.fresh x hx

theorem Intact.regular_plain (hs : s.Intact config)
    {word : List (TargetStep K T)} (horigin : f'.origin = s.flags.origin)
    (hnext : f'.next = s.flags.next)
    (hlegal : (workMachine targetCapture config.loops).Legal s.work word)
    (hplain : ∀ op ∈ word, op.Plain) : Regular config s (f', word) :=
  hs.regular horigin hnext hlegal
    (fun _ hmem => absurd (hplain _ hmem) id)
    (SharedWork.made_applyAll hplain)

theorem Intact.regular_word (hs : s.Intact config) {e : Effect A K T}
    (h : Quiet config s.flags s.work e) : Regular config s (word e) := by
  apply hs.regular_plain h.origin h.next (SharedWork.legal_toList h.enabled)
  intro op hop
  exact h.plain op (Option.mem_toList.mp hop)

theorem Intact.regular_one (hs : s.Intact config) {op : TargetStep K T}
    (henabled : s.work.Enabled targetCapture config.loops op)
    (hmade : s.work.madeAfter op = s.work.made) :
    Regular config s (s.flags, [op]) :=
  hs.regular rfl rfl ⟨henabled, fun _ _ => trivial⟩
    (fun loop hmem => by rw [List.mem_singleton.mp hmem]) hmade

/-- A call is followed by one operation on what was there before. -/
theorem Intact.regular_append (hs : s.Intact config) {e : Effect A K T}
    (h : Quiet config s.flags s.work e)
    (hdropped : ∀ op ∈ e.2, s.work.dropped targetCapture op = [])
    {owner : TargetOwner K} {x : Nat} (howner : (owner, x) ∈ s.work.owners) :
    Regular config s (e.1, e.2.toList ++ [.drop owner x]) := by
  apply hs.regular_plain h.origin h.next
  · apply SharedWork.legal_append h.enabled hdropped
    intro t hgrows
    exact ⟨hgrows.owners _ howner, fun _ _ => trivial⟩
  · intro op hop
    rcases List.mem_append.mp hop with hop | hop
    · exact h.plain op (Option.mem_toList.mp hop)
    · obtain rfl := List.mem_singleton.mp hop
      trivial

omit [DecidableEq K] [DecidableEq T] in
theorem dropped_armed {old new : TcpConnector A} {op : TargetStep K T}
    (hop : op ∈ armed old new) : t.dropped targetCapture op = [] := by
  unfold armed at hop
  split at hop
  · obtain rfl := Option.some.inj hop
    rfl
  · cases hop

/-- A connection whose close callback was unset is only closed, now or in a
functor. -/
theorem dropped_close {thread : T} {x : Nat} {op : TargetStep K T}
    (hop : op ∈ (close config (f.unbindDefaultCallbacks x) work thread x
      false).2) : t.dropped targetCapture op = [] := by
  have hbound : ((f.unbindDefaultCallbacks x).changeStatus x
      .kDisconnecting).bound x = false := Function.update_self ..
  unfold close at hop
  split at hop
  · cases hop
  · dsimp only at hop
    split at hop
    · unfold closeInLoop at hop
      rw [if_neg (fun h => absurd (hbound.symm.trans h.1) (by decide))] at hop
      cases hop
    · obtain rfl := Option.some.inj hop
      rfl

/-- The old object of an owner is dropped after the new one is made. -/
theorem Intact.regular_newConnection (hs : s.Intact config)
    (connector : TcpConnector A) {origin : TargetOrigin K T}
    {status : TcpStatus} {owner : TargetOwner K}
    {tail : List (TargetStep K T)} (hplain : ∀ op ∈ tail, op.Plain)
    (horigin : ∀ key loop, origin = .server key loop → loop ∈ config.loops)
    (htail : ∀ t : TargetWork K T, t.count s.flags.next ≠ 0 →
      (workMachine targetCapture config.loops).Legal t tail) :
    Regular config s
      ({ s.flags with connector := connector }.newConnection origin status,
        .make owner s.flags.next ::
          ((reset s.work owner).toList ++ tail)) := by
  have hnew : s.flags.next ∉ s.work.made := fun hmem =>
    absurd (hs.fresh _ hmem) (Nat.lt_irrefl _)
  have hzero : s.work.count s.flags.next = 0 := by
    by_contra halive
    exact hnew (hs.counted.made _ halive)
  let t : TargetWork K T :=
    s.work.apply targetCapture (.make owner s.flags.next)
  have hgrows : s.work.Grows t := SharedWork.grows_apply rfl
  have halive : t.count s.flags.next ≠ 0 := by
    change s.work.count _ + [s.flags.next].count s.flags.next - [].count _ ≠ 0
    simp
  have hreset : Quiet config s.flags t (s.flags, reset s.work owner) :=
    quiet_reset hgrows rfl rfl
  have hrest : ∀ op ∈ (reset s.work owner).toList ++ tail, op.Plain := by
    intro op hop
    rcases List.mem_append.mp hop with hop | hop
    · exact hreset.plain op (Option.mem_toList.mp hop)
    · exact hplain op hop
  constructor
  · refine ⟨hnew, fun u hu => ?_⟩
    obtain rfl : t = u := Option.some.inj hu
    cases hop : reset s.work owner with
    | none => exact htail t halive
    | some op =>
        refine ⟨hreset.enabled op hop, fun u hu => htail u ?_⟩
        obtain rfl := Option.some.inj hu
        obtain ⟨y, hy, rfl⟩ := Option.map_eq_some_iff.mp hop
        have hne : y ≠ s.flags.next := by
          rintro rfl
          exact hs.counted.alive_of_owner (mem_owners_of_object hy) hzero
        have hother : [y].count s.flags.next = 0 :=
          List.count_eq_zero.mpr (by simpa using hne.symm)
        rw [SharedWork.count_apply]
        change t.count _ + [].count _ - [y].count _ ≠ 0
        rw [hother]
        exact halive
  · intro loop hmem
    rcases List.mem_cons.mp hmem with hmake | hmem
    · cases hmake
    · exact absurd (hrest _ hmem) id
  · intro x
    let f : TargetFlags A K T :=
      { s.flags with connector := connector }.newConnection origin status
    by_cases hx : x = s.flags.next
    · have hself : f.origin x = origin := by
        rw [hx]
        exact Function.update_self ..
      change f.loopOf config x ∈ config.loops
      unfold TargetFlags.loopOf
      rw [hself]
      cases origin with
      | server key loop => exact horigin key loop rfl
      | client => exact config.client_mem
    · have hold : f.origin x = s.flags.origin x := Function.update_of_ne hx ..
      have hloop := hs.loops x
      change f.loopOf config x ∈ config.loops
      unfold TargetFlags.loopOf at hloop ⊢
      rw [hold]
      exact hloop
  · intro x hx
    have hmade : (t.applyAll targetCapture
        ((reset s.work owner).toList ++ tail)).made = t.made :=
      SharedWork.made_applyAll hrest
    change x ∈ (t.applyAll targetCapture _).made at hx
    rw [hmade] at hx
    change x < s.flags.next + 1
    rcases List.mem_cons.mp hx with rfl | hx
    · exact Nat.lt_succ_self _
    · exact Nat.lt_succ_of_lt (hs.fresh x hx)

/-- Every step that the threads can take is possible. -/
theorem Intact.regular_operations (hs : s.Intact config)
    {step : SharedStep A K T} (henabled : Enabled config s step) :
    Regular config s (operations config s step) := by
  have hgrows := SharedWork.Grows.refl s.work
  cases step with
  | newConnection key loop =>
      apply hs.regular_newConnection s.flags.connector
      · simp [WorkStep.Plain]
      · intro key' loop' horigin
        cases horigin
        exact henabled.1
      · exact fun t halive => ⟨⟨henabled.1, halive⟩, fun _ _ => trivial⟩
  | recvMessage key =>
      obtain ⟨x, hx⟩ := Option.ne_none_iff_exists'.mp henabled.2
      have halive := hs.counted.alive_of_owner (mem_owners_of_object hx)
      dsimp only [operations]
      rw [hx]
      change Regular config s (word (s.flags, some _))
      exact hs.regular_word (quiet_queueInLoop rfl rfl (hs.loops x) halive)
  | send thread x outcome =>
      exact hs.regular_word (quiet_send hs.loops outcome henabled.2)
  | close thread x stopped =>
      exact hs.regular_word (quiet_close hs.loops stopped hgrows henabled.2)
  | shutdown thread x =>
      exact hs.regular_word (quiet_shutdown hs.loops henabled.2.1)
  | handleClose x stopped =>
      exact hs.regular_word (quiet_closeInLoop stopped hgrows henabled.2.1)
  | stop key =>
      dsimp only [operations]
      split
      · exact hs.regular_word (quiet_none rfl rfl)
      · next x hx =>
          have halive := hs.counted.alive_of_owner (mem_owners_of_object hx)
          have hclose : Quiet config _ s.work
              (close config _ s.work config.serverLoop x false) :=
            quiet_close (f := s.flags.unbindDefaultCallbacks x) hs.loops false
              hgrows halive
          exact hs.regular_word hclose.unbound
  | clear key => exact hs.regular_word (quiet_reset hgrows rfl rfl)
  | expire key =>
      dsimp only [operations]
      split
      · exact hs.regular_word (quiet_none rfl rfl)
      · next x hx =>
          have howner := mem_owners_of_object hx
          have htake : Quiet config s.flags s.work
              (s.flags, some (.take .deletes x)) :=
            quiet_take .deletes (hs.counted.alive_of_owner howner)
          exact hs.regular_append htake (by simp [SharedWork.dropped]) howner
  | clearDeletes x | release x => exact hs.regular_one henabled rfl
  | share x => exact hs.regular_one henabled.2 rfl
  | connect addr errno =>
      change Regular config s
        (word ({ s.flags with connector := _ }, armed _ _))
      exact hs.regular_word
        (quiet_armed rfl rfl (hs.counted.alive_of_owner henabled))
  | connectTimer errno =>
      dsimp only [operations]
      have hconnect : Quiet config s.flags s.work
          (connectInLoop config { s.flags with
            connector := { s.flags.connector with
              timers := s.flags.connector.timers.tail } } errno) :=
        quiet_armed rfl rfl (hs.counted.alive_of_owner henabled)
      exact hs.regular_append hconnect (fun op hop => dropped_armed hop)
        henabled
  | connectorWrite error =>
      dsimp only [operations]
      split
      · rw [← List.append_nil (reset s.work .connection).toList]
        exact hs.regular_newConnection _ (by simp) (by simp)
          fun _ _ => trivial
      · change Regular config s
          (word ({ s.flags with connector := _ }, armed _ _))
        exact hs.regular_word (quiet_armed rfl rfl henabled.1)
  | connectorError =>
      dsimp only [operations]
      split
      · change Regular config s (word ({ s.flags with connector := _ }, some _))
        exact hs.regular_word
          (quiet_queueInLoop rfl rfl config.client_mem henabled.1)
      · change Regular config s (word ({ s.flags with connector := _ }, none))
        exact hs.regular_word (quiet_none rfl rfl)
  | connectorClose =>
      dsimp only [operations]
      split
      · change Regular config s (word (s.flags, some _))
        exact hs.regular_word
          (quiet_queueInLoop rfl rfl config.client_mem henabled.1)
      · exact hs.regular_word (quiet_none rfl rfl)
  | disconnect =>
      dsimp only [operations]
      split
      · change Regular config s (word ({ s.flags with connector := _ }, none))
        exact hs.regular_word (quiet_none rfl rfl)
      · next x hx =>
          have howner := mem_owners_of_object hx
          have halive := hs.counted.alive_of_owner howner
          have hclose : Quiet config _ s.work
              (close config _ s.work config.clientLoop x false) :=
            quiet_close (f := { s.flags with
              connector := s.flags.connector.disconnect
                }.unbindDefaultCallbacks x) hs.loops false hgrows halive
          exact hs.regular_append
            ⟨hclose.origin, hclose.next, hclose.enabled, hclose.plain⟩
            (fun op hop => dropped_close hop) howner
  | dropClient =>
      dsimp only [operations]
      cases hop : reset s.work .connection with
      | none => exact hs.regular_one henabled rfl
      | some op =>
          obtain ⟨x, hx, rfl⟩ := Option.map_eq_some_iff.mp hop
          apply hs.regular_plain rfl rfl
          · refine ⟨mem_owners_of_object hx, fun t ht => ?_⟩
            obtain rfl := Option.some.inj ht
            refine ⟨?_, fun _ _ => trivial⟩
            exact (List.mem_erase_of_ne (by simp)).mpr henabled
          · simp [WorkStep.Plain]
  | swapFunctors loop | returnFunctor loop | returnFunctors loop =>
      exact hs.regular_one henabled rfl
  | callFunctor loop outcome stopped =>
      dsimp only [operations]
      split
      · exact hs.regular_one henabled rfl
      · next task rest hbatch =>
          split
          · exact hs.regular_one henabled rfl
          · next halive =>
              have hcalled : s.work.Grows
                  (s.work.apply targetCapture (.callFunctor loop)) :=
                SharedWork.grows_apply rfl
              have htask := quiet_runTask hs.loops outcome stopped hcalled
                (hcalled.count _ halive)
              have hplain : ∀ op ∈ (runTask config s.flags s.work task outcome
                  stopped).2.toList, op.Plain := fun op hop =>
                htask.plain op (Option.mem_toList.mp hop)
              apply hs.regular htask.origin htask.next
              · refine ⟨henabled, fun t ht => ?_⟩
                obtain rfl := Option.some.inj ht
                exact SharedWork.legal_toList htask.enabled
              · intro loop' hmem
                rcases List.mem_cons.mp hmem with hcall | hmem
                · cases hcall
                · exact absurd (hplain _ hmem) id
              · exact SharedWork.made_applyAll (s := s.work.apply _ _) hplain

/-- No object is destroyed in the step while a functor that has only its
address waits or is executed. -/
def Kept (config : TargetConfig T) (s : SharedTargets A K T)
    (step : SharedStep A K T) : Prop :=
  (workMachine targetCapture config.loops).Meets
    (SharedWork.Kept targetCapture config.loops) s.work
    (operations config s step).2

/-- No loop executes a functor on a connection or a connector that was
destroyed. -/
def Sound (config : TargetConfig T) (s : SharedTargets A K T) : Prop :=
  ∀ loop ∈ config.loops, ∀ task ∈ (s.work.work loop).executing,
    s.work.count task.target ≠ 0

omit [DecidableEq K] [DecidableEq T] in
theorem start_intact (config : TargetConfig T) (addr : A) :
    (start addr : SharedTargets A K T).Intact config where
  counted :=
    { count := fun x => by
        change (if x = 0 then 1 else 0) = [0].count x + ∑ _ ∈ config.loops, 0
        rw [Finset.sum_const_zero, List.count_singleton]
        by_cases hx : x = 0
        · rw [hx]
          rfl
        · rw [if_neg hx, if_neg (by simpa using Ne.symm hx), Nat.add_zero]
      made := fun x hx => by
        by_contra hmem
        exact hx (if_neg (by simpa [start] using hmem))
      known := fun _ _ hmem => by cases hmem
      called := fun _ _ hexecuting => by cases hexecuting
      batch := fun _ _ => rfl }
  loops _ := config.client_mem
  fresh x hx := by
    obtain rfl := List.mem_singleton.mp hx
    exact Nat.one_pos

/-- Step lemma. -/
theorem Intact.step (hs : s.Intact config) {step : SharedStep A K T}
    (henabled : Enabled config s step) :
    ∃ s', (sharedMachine config).exec s step = some s' ∧ s'.Intact config ∧
      s'.work = s.work.applyAll targetCapture (operations config s step).2 := by
  have hregular := hs.regular_operations henabled
  exact ⟨_, rfl, ⟨hs.counted.applyAll hregular.legal, hregular.loops,
    hregular.fresh⟩, rfl⟩

omit [DecidableEq K] [DecidableEq T] in
/-- A run starts with nothing waiting. -/
theorem start_safe (config : TargetConfig T) (addr : A) :
    (start addr : SharedTargets A K T).work.Safe targetCapture config.loops :=
  ⟨(start_intact config addr).counted, fun _ _ _ hmem => by cases hmem⟩

/-- A step that does not keep the targets leaves a functor without one. -/
theorem Intact.broken_of_not_kept (hs : s.Intact config)
    {step : SharedStep A K T} (henabled : Enabled config s step)
    (hnot : ¬ s.Kept config step) :
    (s.work.applyAll targetCapture (operations config s step).2).Broken
      targetCapture config.loops := by
  have hregular := hs.regular_operations henabled
  apply hs.counted.broken_applyAll hregular.legal _ hnot
  intro loop hmem
  -- The return of a functor destroys nothing.
  unfold Kept at hnot
  rw [hregular.returns loop hmem] at hnot
  exact hnot ⟨SharedWork.kept_of_dropped rfl, fun _ _ => trivial⟩

/-- The functor stays without it, as long as it is not executed. -/
theorem Intact.broken_stays (hs : s.Intact config) {step : SharedStep A K T}
    (henabled : Enabled config s step) (hsound : s.Sound config)
    (hbroken : s.work.Broken targetCapture config.loops) :
    (s.work.applyAll targetCapture (operations config s step).2).Broken
      targetCapture config.loops := by
  have hregular := hs.regular_operations henabled
  by_cases hreturns : ∃ loop, .returnFunctor loop ∈ (operations config s step).2
  · obtain ⟨loop, hmem⟩ := hreturns
    have hlegal := hregular.legal
    rw [hregular.returns loop hmem] at hlegal ⊢
    exact hbroken.apply hs.counted hlegal.1 (Or.inl hsound)
  · push Not at hreturns
    exact hbroken.applyAll hs.counted hregular.legal hreturns

instance (s : SharedTargets A K T) (step : SharedStep A K T) :
    Decidable ((sharedMachine config).enabled s step) :=
  match step with
  | .newConnection key loop => inferInstanceAs (Decidable (loop ∈ config.loops ∧
      (config.udp = true → object s.work (.entry key) = none)))
  | .recvMessage key | .expire key => inferInstanceAs
      (Decidable (config.udp = true ∧ object s.work (.entry key) ≠ none))
  | .send _ x _ | .close _ x _ | .share x => inferInstanceAs
      (Decidable (x ≠ 0 ∧ s.work.count x ≠ 0))
  | .shutdown _ x => inferInstanceAs (Decidable
      (x ≠ 0 ∧ s.work.count x ≠ 0 ∧ s.flags.isUdp config x = false))
  | .handleClose x _ => inferInstanceAs (Decidable
      (x ≠ 0 ∧ s.work.count x ≠ 0 ∧ s.flags.isUdp config x = false ∧
        (s.flags.status x = .kConnected ∨
          s.flags.status x = .kDisconnecting) ∧
        (s.work.work (s.flags.loopOf config x)).running = false))
  | .stop key | .clear key => inferInstanceAs
      (Decidable (object s.work (.entry key) ≠ none))
  | .clearDeletes x => inferInstanceAs
      (Decidable ((.deletes, x) ∈ s.work.owners))
  | .release x => inferInstanceAs
      (Decidable ((.application, x) ∈ s.work.owners))
  | .connect _ _ | .disconnect | .dropClient => inferInstanceAs
      (Decidable ((.connector, 0) ∈ s.work.owners))
  | .connectTimer _ => inferInstanceAs
      (Decidable ((.timer, 0) ∈ s.work.owners))
  | .connectorWrite _ | .connectorError | .connectorClose => inferInstanceAs
      (Decidable (s.work.count 0 ≠ 0 ∧
        (s.work.work config.clientLoop).running = false))
  | .swapFunctors loop => inferInstanceAs (Decidable
      (s.work.Enabled targetCapture config.loops (.swapFunctors loop)))
  | .callFunctor loop _ _ => inferInstanceAs (Decidable
      (s.work.Enabled targetCapture config.loops (.callFunctor loop)))
  | .returnFunctor loop => inferInstanceAs (Decidable
      (s.work.Enabled targetCapture config.loops (.returnFunctor loop)))
  | .returnFunctors loop => inferInstanceAs (Decidable
      (s.work.Enabled targetCapture config.loops (.returnFunctors loop)))

instance (s : SharedTargets A K T) (step : SharedStep A K T) :
    Decidable (s.Kept config step) :=
  inferInstanceAs (Decidable ((workMachine targetCapture config.loops).Meets
    (SharedWork.Kept targetCapture config.loops) s.work
    (operations config s step).2))

instance (s : SharedTargets A K T) : Decidable (s.Sound config) :=
  inferInstanceAs (Decidable (∀ loop ∈ config.loops,
    ∀ task ∈ (s.work.work loop).executing, s.work.count task.target ≠ 0))

end SharedTargets

open SharedTargets

/-- Lifetime of the targets.  If no connection and no connector is destroyed
while a functor that has only its address waits or is executed, then no functor
is executed on a destroyed one; and a run at whose end no functor waits is so
only then. -/
theorem sharedTargets_lifetime_iff [DecidableEq K] [DecidableEq T]
    (config : TargetConfig T) (addr : A) (word : List (SharedStep A K T))
    (hlegal : (sharedMachine config).Legal (start addr) word) :
    ((sharedMachine config).Meets (Kept config) (start addr) word →
      (sharedMachine config).Holds (Sound config) (start addr) word) ∧
    ((∀ t, (sharedMachine config).run (start addr) word = some t →
        ∀ loop ∈ config.loops, (t.work.work loop).waiting = []) →
      ((sharedMachine config).Holds (Sound config) (start addr) word ↔
        (sharedMachine config).Meets (Kept config) (start addr) word)) := by
  have hkeep : ∀ (s : SharedTargets A K T) (step : SharedStep A K T),
      s.Intact config ∧ s.work.Safe targetCapture config.loops →
      Enabled config s step → Kept config s step →
      ∃ s', (sharedMachine config).exec s step = some s' ∧
        s'.Intact config ∧ s'.work.Safe targetCapture config.loops := by
    rintro s step ⟨hs, hsafe⟩ henabled hkept
    obtain ⟨s', hexec, hs', hwork⟩ := hs.step henabled
    refine ⟨s', hexec, hs', ?_⟩
    rw [hwork]
    exact hsafe.applyAll (hs.regular_operations henabled).legal hkept
  have hstart := And.intro (start_intact (K := K) config addr)
    (start_safe (K := K) config addr)
  have henough : (sharedMachine config).Meets (Kept config) (start addr) word →
      (sharedMachine config).Holds (Sound config) (start addr) word := by
    intro hkept
    have hrun := Machine.holds_of_step
      (fun s step hs h => hkeep s step hs h.1 h.2) hstart (hlegal.and hkept)
    exact hrun.mono fun s hs => hs.2.sound
  refine ⟨henough, fun hdone => ⟨fun hholds => ?_, henough⟩⟩
  apply Machine.meets_of_doomed (E := Enabled config)
    (B := fun s => s.Intact config ∧
      s.work.Broken targetCapture config.loops) hkeep
  · rintro s step s' ⟨hs, _⟩ henabled hnot hexec _
    obtain ⟨t, ht, hs', hwork⟩ := hs.step henabled
    obtain rfl : t = s' := Option.some.inj (ht.symm.trans hexec)
    refine ⟨hs', ?_⟩
    rw [hwork]
    exact hs.broken_of_not_kept henabled hnot
  · rintro s step s' ⟨hs, hbroken⟩ hsound henabled hexec
    obtain ⟨t, ht, hs', hwork⟩ := hs.step henabled
    obtain rfl : t = s' := Option.some.inj (ht.symm.trans hexec)
    refine ⟨hs', ?_⟩
    rw [hwork]
    exact hs.broken_stays henabled hsound hbroken
  · exact hstart
  · exact hlegal
  · rintro t ht _ ⟨_, loop, hloop, task, hmem, _⟩
    rw [hdone t ht loop hloop] at hmem
    cases hmem
  · exact hholds

/-- A server and a client on one loop, and a worker of the server. -/
def TargetConfig.oneWorker : TargetConfig Bool :=
  { loops := {false, true}
    serverLoop := false
    clientLoop := false
    server_mem := by decide
    client_mem := by decide
    udp := false
    writeComplete := false
    delay := 1 }

/-- The worker writes a message that was sent to it, while the application
keeps the connection. -/
theorem sharedTargets_lifetime_iff_send :
    (sharedMachine .oneWorker).Holds (Sound .oneWorker)
      (start 0 : SharedTargets Nat Nat Bool)
      [.newConnection 7 true, .swapFunctors true,
        .callFunctor true .all false, .share 1, .returnFunctor true,
        .returnFunctors true, .send false 1 .all, .swapFunctors true,
        .callFunctor true .all false] :=
  (sharedTargets_lifetime_iff .oneWorker 0 _ (by decide +kernel)).1
    (by decide +kernel)

/-- A message is sent from another thread, and before the worker writes it the
peer closes the connection and all pointers to it are dropped; and a connect
fails, and before the retry runs the application disconnects and drops the
client. -/
theorem sharedTargets_destroyed :
    let send : List (SharedStep Nat Nat Bool) :=
      [.newConnection 7 true, .swapFunctors true,
        .callFunctor true .all false, .share 1, .returnFunctor true,
        .returnFunctors true, .send false 1 .all, .release 1,
        .handleClose 1 false, .swapFunctors false,
        .callFunctor false .all false, .returnFunctor false,
        .returnFunctors false, .swapFunctors true,
        .callFunctor true .all false]
    let retry : List (SharedStep Nat Nat Bool) :=
      [.connect 5 EINPROGRESS, .connectorError, .disconnect, .dropClient,
        .swapFunctors false, .callFunctor false .all false]
    ((sharedMachine .oneWorker).Legal (start 0) send ∧
      ¬ (sharedMachine .oneWorker).Holds (Sound .oneWorker) (start 0) send) ∧
    (sharedMachine .oneWorker).Legal (start 0) retry ∧
      ¬ (sharedMachine .oneWorker).Holds (Sound .oneWorker) (start 0)
        retry := by
  exact ⟨⟨by decide +kernel, Machine.not_holds_of_run (by decide +kernel)⟩,
    by decide +kernel, Machine.not_holds_of_run (by decide +kernel)⟩

end Libsaf
