import Sharpvpn.Rudp.Trace

/-!
# Packages waiting to be delivered

A package that was stored and acknowledged waits in `recv_pool` for
`recv_package`. Nothing keeps its slot for it: `set` deletes whatever package the
slot holds, even one that `recv_package` has taken and is about to load, and
`recv_package` erases an id it kept in an `int`.
-/

namespace Sharpvpn

open Foundation

/-- The packages stored and not taken since, and those of them that were taken last. -/
def storedAndTaken (trace : List Event) : List PackageData × List PackageData :=
  trace.foldl (fun packages event =>
    match event with
    | .stored package => (package :: packages.1, packages.2)
    | .taken package => (packages.1.filter (· ≠ package), packages.1.filter (· = package))
    | _ => packages) ([], [])

theorem storedAndTaken_snoc (trace : List Event) (event : Event) :
    storedAndTaken (trace ++ [event]) =
      match event with
      | .stored package => (package :: (storedAndTaken trace).1, (storedAndTaken trace).2)
      | .taken package => ((storedAndTaken trace).1.filter (· ≠ package),
          (storedAndTaken trace).1.filter (· = package))
      | _ => storedAndTaken trace := by
  rw [storedAndTaken, List.foldl_append]
  rfl

theorem storedAndTaken_filter (trace : List Event) :
    storedAndTaken (trace.filter Event.ofRecv) = storedAndTaken trace := by
  unfold storedAndTaken
  rw [List.foldl_filter]
  congr 1
  funext packages event
  cases event <;> rfl

namespace RecvSide

variable {crypto : SharpCrypto} {side next : RecvSide} {trace events : List Event}

/-- The packages stored and not delivered: those that `recv_package` has not taken, and what
it has taken and not loaded. -/
def undelivered (side : RecvSide) (trace : List Event) : List PackageData :=
  (storedAndTaken trace).1 ++
    if side.caller.holding.isSome then (storedAndTaken trace).2 else []

/-- Every package waiting for delivery is found. -/
def HoldsUndelivered (side : RecvSide) (trace : List Event) : Prop :=
  ∀ package ∈ side.undelivered trace, side.recvPool.find package.packageId = some package

/-- An action spares the packages that wait: a package is stored only in a slot none
of them occupies, and `recv_package` erases none of them. -/
def Spares (side : RecvSide) (trace : List Event) : Action → Prop
  | .receive (.data packageId _ payload) =>
      side.accepts ⟨packageId.toNat, payload⟩ = true → ∀ package ∈ side.undelivered trace,
        package.packageId % ringCapacity ≠ packageId.toNat % ringCapacity
  | .recvPackage => ∀ recvNow, side.caller = .loaded recvNow →
      ∀ package ∈ side.undelivered trace, package.packageId ≠ recvNow
  | _ => True

theorem undelivered_filter (side : RecvSide) (trace : List Event) :
    side.undelivered (trace.filter Event.ofRecv) = side.undelivered trace := by
  unfold undelivered
  rw [storedAndTaken_filter]

theorem spares_filter (side : RecvSide) (trace : List Event) :
    side.Spares (trace.filter Event.ofRecv) = side.Spares trace := by
  unfold Spares
  simp only [undelivered_filter]

/-- Waiting packages are found, and their ids are not the mark of an empty slot. -/
structure Waiting (side : RecvSide) (trace : List Event) : Prop where
  holds : side.HoldsUndelivered trace
  packageId_ne : ∀ package ∈ side.undelivered trace, package.packageId ≠ 0

/-- Steps after which no other packages wait, and that keep those in the pool. -/
theorem Waiting.mono (hwaiting : side.Waiting trace)
    (hfewer : ∀ package ∈ next.undelivered (trace ++ events), package ∈ side.undelivered trace)
    (hfind : ∀ package ∈ side.undelivered trace, next.recvPool.find package.packageId =
      side.recvPool.find package.packageId) : next.Waiting (trace ++ events) where
  holds package hpackage := by
    have hbefore := hfewer package hpackage
    rw [hfind package hbefore, hwaiting.holds package hbefore]
  packageId_ne package hpackage := hwaiting.packageId_ne package (hfewer package hpackage)

/-- Neither the packages stored and taken nor what the caller holds has changed. -/
theorem undelivered_congr {later : List Event}
    (htrace : storedAndTaken later = storedAndTaken trace)
    (hholding : next.caller.holding = side.caller.holding) :
    next.undelivered later = side.undelivered trace := by
  unfold undelivered
  rw [htrace, hholding]

/-- Steps that store, take and load nothing. -/
theorem Waiting.still (hwaiting : side.Waiting trace)
    (htrace : storedAndTaken (trace ++ events) = storedAndTaken trace)
    (hholding : next.caller.holding = side.caller.holding)
    (hfind : ∀ package ∈ side.undelivered trace, next.recvPool.find package.packageId =
      side.recvPool.find package.packageId) : next.Waiting (trace ++ events) := by
  refine hwaiting.mono (fun package hpackage => ?_) hfind
  rwa [undelivered_congr htrace hholding] at hpackage

theorem Waiting.receiveData {packageId una : UInt64} {payload : Bytes}
    (hwaiting : side.Waiting trace)
    (hspares : side.Spares trace (.receive (.data packageId una payload))) :
    (side.receiveData ⟨packageId.toNat, payload⟩).Waiting
      (trace ++ .arrived (.data packageId una payload) ::
        side.receiveDataEvents ⟨packageId.toNat, payload⟩) := by
  have harrived := storedAndTaken_snoc trace (.arrived (.data packageId una payload))
  have hholding := holding_callerAfter side ⟨packageId.toNat, payload⟩
  unfold receiveDataEvents
  split
  next haccepts =>
    have hstored := storedAndTaken_snoc (trace ++ [.arrived (.data packageId una payload)])
      (.stored ⟨packageId.toNat, payload⟩)
    simp only [harrived, List.append_assoc, List.singleton_append] at hstored
    have hset : (side.receiveData ⟨packageId.toNat, payload⟩).recvPool =
        side.recvPool.set packageId.toNat ⟨packageId.toNat, payload⟩ := if_pos haccepts
    have hundelivered : (side.receiveData ⟨packageId.toNat, payload⟩).undelivered
        (trace ++ [.arrived (.data packageId una payload), .stored ⟨packageId.toNat, payload⟩]) =
        ⟨packageId.toNat, payload⟩ :: side.undelivered trace := by
      simp only [undelivered, RecvSide.receiveData, hstored, hholding, List.cons_append]
    have hlt := (accepts_iff.mp haccepts).2
    constructor
    · intro package hpackage
      rw [hset]
      rcases List.mem_cons.mp (hundelivered ▸ hpackage) with rfl | hold
      · exact PackageMap.find_set_self _ _ _
      · have hslot := hspares haccepts package hold
        rw [PackageMap.find_set_of_ne (fun heq => hslot (by rw [heq])), if_neg hslot]
        exact hwaiting.holds package hold
    · intro package hpackage
      rcases List.mem_cons.mp (hundelivered ▸ hpackage) with rfl | hold
      · exact Nat.ne_of_gt (Nat.zero_lt_of_lt hlt)
      · exact hwaiting.packageId_ne package hold
  next haccepts =>
    have hsame : (side.receiveData ⟨packageId.toNat, payload⟩).recvPool = side.recvPool :=
      if_neg haccepts
    exact hwaiting.still harrived hholding fun package _ => by rw [hsame]

/-- What `recv_package` takes still waits until it is loaded. -/
theorem Waiting.take {taken : PackageData} {recvNow : Nat} (hwaiting : side.Waiting trace) :
    Waiting { side with recvId := succ64 side.recvId, caller := .taken taken recvNow }
      (trace ++ [.taken taken]) := by
  have htaken := storedAndTaken_snoc trace (.taken taken)
  refine hwaiting.mono (fun package hpackage => ?_) fun _ _ => rfl
  simp only [undelivered, htaken, RecvCaller.holding, Option.isSome_some, if_true] at hpackage
  rcases List.mem_append.mp hpackage with hother | hlast
  · exact List.mem_append_left _ (List.mem_of_mem_filter hother)
  · exact List.mem_append_left _ (List.mem_of_mem_filter hlast)

theorem Waiting.step {action : Action} {move : RecvAction} (hwaiting : side.Waiting trace)
    (htransition : side.Transition crypto move next events)
    (hmoves : ReliableSocket.MovesRecv action move) (hspares : side.Spares trace action) :
    next.Waiting (trace ++ events) := by
  have hnil : storedAndTaken (trace ++ []) = storedAndTaken trace := by rw [List.append_nil]
  cases htransition with
  | data =>
      cases hmoves
      exact hwaiting.receiveData hspares
  | ack => exact hwaiting.still (storedAndTaken_snoc _ _) (by simp) fun package _ => by simp
  | connectionClose =>
      exact hwaiting.still (storedAndTaken_snoc _ _) (holding_signal side) fun package _ => by simp
  | signal => exact hwaiting.still hnil (holding_signal side) fun package _ => by simp
  | buffered => exact hwaiting.still (storedAndTaken_snoc _ _) rfl fun package _ => rfl
  | skip => exact hwaiting.still hnil rfl fun package _ => rfl
  | enter hcaller | stop hcaller | wait hcaller | wake hcaller =>
      exact hwaiting.still hnil (by rw [hcaller]; rfl) fun package _ => rfl
  | take => exact hwaiting.take
  | load =>
      refine hwaiting.mono (fun package hpackage => ?_) fun package _ => rfl
      simp only [undelivered, RecvCaller.holding, Option.isSome_none, Bool.false_eq_true,
        if_false, List.append_nil] at hpackage
      exact List.mem_append_left _ hpackage
  | finish hcaller =>
      cases hmoves
      refine hwaiting.still (storedAndTaken_snoc _ _) (by rw [hcaller]; rfl) ?_
      intro package hpackage
      rw [PackageMap.find_erase (hwaiting.packageId_ne package hpackage),
        if_neg (hspares _ hcaller package hpackage)]

end RecvSide

namespace ReliableSocket

variable {config : Config} {crypto : SharpCrypto} {memory : Memory} {socket : ReliableSocket}
  {trace : List Event}

/-- The payload of a package with one segment. -/
def waitingPayload (byte : UInt8) : Bytes := SharpCrypto.marking.encrypt .zero [1, 0, byte, 0, 0]

instance (caller : RecvCaller) (condition : Nat → Prop) [DecidablePred condition] :
    Decidable (∀ recvNow, caller = .loaded recvNow → condition recvNow) :=
  match caller with
  | .loaded recvNow => decidable_of_iff (condition recvNow) (by simp)
  | .idle | .scanning | .waiting _ | .taken .. | .dangling _ => isTrue (by simp)

instance (side : RecvSide) (trace : List Event) (action : Action) :
    Decidable (side.Spares trace action) := by
  unfold RecvSide.Spares
  split <;> infer_instance

end ReliableSocket

end Sharpvpn
