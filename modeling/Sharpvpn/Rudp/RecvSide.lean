import Sharpvpn.Rudp.NetStruct

/-!
# The receiving half of a socket

The fields that Data datagrams, the `send_from` of Ack datagrams and the callers
of `recv_package` act on. `recv_package` is one thread; it holds `recv_mutex`
while it looks for the next package, and gives it up to wait for a signal.
-/

namespace Sharpvpn

open Foundation

/-- Where the caller of `recv_package` stands. -/
inductive RecvCaller
  /-- Between calls. -/
  | idle
  /-- In the loop, holding `recv_mutex`. -/
  | scanning
  /-- In `recv_cv.wait`. -/
  | waiting (signalled : Bool)
  /-- With a package taken and not loaded, and its id as the `int recv_now`. -/
  | taken (package : PackageData) (recvNow : Nat)
  /-- With a package taken that has been deleted before it was loaded. -/
  | dangling (package : PackageData)
  /-- With the package loaded and not erased. -/
  | loaded (recvNow : Nat)
  deriving DecidableEq

/-- The package taken and not loaded. -/
def RecvCaller.holding : RecvCaller → Option PackageData
  | .taken package _ | .dangling package => some package
  | .idle | .scanning | .waiting _ | .loaded _ => none

structure RecvSide where
  /-- The last id up to which everything counts as received. -/
  recvAckId : Nat := 0
  /-- The next id to deliver. -/
  recvId : Nat := 1
  recvPool : PackageMap ringCapacity := {}
  segmentRecv : SegmentParser
  caller : RecvCaller := .idle

/-- The `uint64_t` that `erase` gets for an id kept in an `int`. -/
def truncateInt (id : Nat) : Nat :=
  if id % 2 ^ 32 < 2 ^ 31 then id % 2 ^ 32 else 2 ^ 64 - 2 ^ 32 + id % 2 ^ 32

/-- The `int` either keeps the id, or makes it an id far below or far above. -/
theorem truncateInt_far (id : Nat) :
    truncateInt id ≤ id ∨ id + 2 ^ 32 ≤ truncateInt id := by
  unfold truncateInt
  split <;> omega

namespace RecvSide

/-- The duplicate filter of the Data branch. -/
def accepts (side : RecvSide) (package : PackageData) : Bool :=
  (side.recvPool.find package.packageId).isNone && side.recvAckId < package.packageId

/-- `recv_pool` after the duplicate filter. -/
def poolAfter (side : RecvSide) (package : PackageData) : PackageMap ringCapacity :=
  if side.accepts package then side.recvPool.set package.packageId package else side.recvPool

/-- The caller of `recv_package` after the duplicate filter. `set` deletes the package that
the slot holds, also while the caller is about to load it. -/
def callerAfter (side : RecvSide) (package : PackageData) : RecvCaller :=
  match side.caller with
  | .taken held recvNow =>
      if side.accepts package ∧
          held.packageId % ringCapacity = package.packageId % ringCapacity then .dangling held
      else .taken held recvNow
  | caller => caller

/-- The section of the Data branch under `recv_mutex`. -/
def receiveData (side : RecvSide) (package : PackageData) : RecvSide :=
  { side with
    recvPool := side.poolAfter package
    caller := side.callerAfter package
    recvAckId := SlotTable.scan (fun id => ((side.poolAfter package).find id).isSome) succ64
      ringCapacity side.recvAckId }

def receiveDataEvents (side : RecvSide) (package : PackageData) : List Event :=
  if side.accepts package then [.stored package] else []

/-- The Ack branch's use of `send_from`. -/
def receiveSendFrom (side : RecvSide) (sendFrom : Nat) : RecvSide :=
  if sendFrom > side.recvAckId then { side with recvAckId := sendFrom } else side

/-- `recv_cv.signal()` -/
def signal (side : RecvSide) : RecvSide :=
  match side.caller with
  | .waiting _ => { side with caller := .waiting true }
  | _ => side

/-- The next step of `recv_package`. -/
def recvPackage (crypto : SharpCrypto) (running : Bool) (side : RecvSide) :
    Option (RecvSide × List Event) :=
  match side.caller with
  | .idle =>
      match side.segmentRecv.nextSegment with
      | ([], _) => some ({ side with caller := .scanning }, [])
      | (segment, parser) => some ({ side with segmentRecv := parser }, [.returned segment])
  | .scanning =>
      match side.recvPool.find side.recvId with
      | none =>
          if !running then some ({ side with caller := .idle }, [])
          -- An id that counts as received and is not there is passed over.
          else if side.recvId < side.recvAckId then
            some ({ side with recvId := succ64 side.recvId }, [])
          else some ({ side with caller := .waiting false }, [])
      | some package =>
          some ({ side with
            recvId := succ64 side.recvId
            -- `int recv_now = recv_id++`
            caller := .taken package (truncateInt side.recvId) }, [.taken package])
  | .waiting false => none
  | .waiting true => some ({ side with caller := .scanning }, [])
  | .taken package recvNow =>
      some ({ side with
        segmentRecv := side.segmentRecv.load crypto package.payload
        caller := .loaded recvNow }, [])
  -- Reading a deleted package has no defined result.
  | .dangling _ => none
  -- `erase` runs after `recv_mutex` has been unlocked.
  | .loaded recvNow =>
      some ({ side with
        recvPool := side.recvPool.erase recvNow
        segmentRecv := side.segmentRecv.nextSegment.2
        caller := .idle }, [.returned side.segmentRecv.nextSegment.1])

variable {side : RecvSide}

@[simp] theorem signal_recvAckId : side.signal.recvAckId = side.recvAckId := by
  unfold signal
  split <;> rfl

@[simp] theorem signal_recvId : side.signal.recvId = side.recvId := by
  unfold signal
  split <;> rfl

@[simp] theorem signal_recvPool : side.signal.recvPool = side.recvPool := by
  unfold signal
  split <;> rfl

@[simp] theorem signal_segmentRecv : side.signal.segmentRecv = side.segmentRecv := by
  unfold signal
  split <;> rfl

theorem signal_caller (side : RecvSide) : side.signal.caller = side.caller ∨
    ∃ signalled, side.caller = .waiting signalled ∧ side.signal.caller = .waiting true := by
  unfold signal
  split
  next signalled hcaller => exact .inr ⟨signalled, hcaller, rfl⟩
  next => exact .inl rfl

@[simp] theorem holding_signal (side : RecvSide) :
    side.signal.caller.holding = side.caller.holding := by
  rcases signal_caller side with hsame | ⟨_, hwaiting, hsignalled⟩
  · rw [hsame]
  · rw [hwaiting, hsignalled]
    rfl

theorem receiveSendFrom_recvAckId (sendFrom : Nat) :
    (side.receiveSendFrom sendFrom).recvAckId = max side.recvAckId sendFrom := by
  unfold receiveSendFrom
  split <;> simp <;> omega

@[simp] theorem receiveSendFrom_recvId (sendFrom : Nat) :
    (side.receiveSendFrom sendFrom).recvId = side.recvId := by
  unfold receiveSendFrom
  split <;> rfl

@[simp] theorem receiveSendFrom_recvPool (sendFrom : Nat) :
    (side.receiveSendFrom sendFrom).recvPool = side.recvPool := by
  unfold receiveSendFrom
  split <;> rfl

@[simp] theorem receiveSendFrom_segmentRecv (sendFrom : Nat) :
    (side.receiveSendFrom sendFrom).segmentRecv = side.segmentRecv := by
  unfold receiveSendFrom
  split <;> rfl

@[simp] theorem receiveSendFrom_caller (sendFrom : Nat) :
    (side.receiveSendFrom sendFrom).caller = side.caller := by
  unfold receiveSendFrom
  split <;> rfl

theorem accepts_iff {package : PackageData} : side.accepts package = true ↔
    side.recvPool.find package.packageId = none ∧ side.recvAckId < package.packageId := by
  simp [accepts]

/-- What the pool holds after a Data datagram: the package or what it held. -/
theorem find_poolAfter {package found : PackageData} {id : Nat}
    (hfind : (side.poolAfter package).find id = some found) :
    (id = package.packageId ∧ found = package ∧ side.accepts package = true) ∨
      side.recvPool.find id = some found := by
  unfold poolAfter at hfind
  split at hfind
  next haccepts =>
    rcases PackageMap.find_of_find_set hfind with ⟨rfl, rfl⟩ | ⟨_, hfound⟩
    · exact .inl ⟨rfl, rfl, haccepts⟩
    · exact .inr hfound
  next => exact .inr hfind

theorem callerAfter_cases (side : RecvSide) (package : PackageData) :
    side.callerAfter package = side.caller ∨ ∃ held recvNow, side.caller = .taken held recvNow ∧
      side.callerAfter package = .dangling held := by
  unfold callerAfter
  split
  next held recvNow hcaller =>
    split
    next => exact .inr ⟨held, recvNow, hcaller, rfl⟩
    next => exact .inl hcaller.symm
  next => exact .inl rfl

/-- A caller that has not lost its package is where it was. -/
theorem caller_of_callerAfter {package : PackageData} {caller : RecvCaller}
    (hafter : side.callerAfter package = caller) (hne : ∀ held, caller ≠ .dangling held) :
    side.caller = caller := by
  rcases side.callerAfter_cases package with hsame | ⟨held, _, _, hdangling⟩
  · exact hsame.symm.trans hafter
  · exact absurd (hafter.symm.trans hdangling) (hne held)

@[simp] theorem holding_callerAfter (side : RecvSide) (package : PackageData) :
    (side.callerAfter package).holding = side.caller.holding := by
  rcases side.callerAfter_cases package with hsame | ⟨held, recvNow, hcaller, hdangling⟩
  · rw [hsame]
  · rw [hcaller, hdangling]
    rfl

/-- A package that is discarded leaves the caller alone. -/
theorem callerAfter_of_discarded {package : PackageData}
    (hdiscards : side.accepts package = false) : side.callerAfter package = side.caller := by
  unfold callerAfter
  split
  next hcaller => simp [hdiscards, hcaller]
  next => rfl

end RecvSide

end Sharpvpn
