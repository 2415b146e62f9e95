import Sharpvpn.Rudp.Transitions

/-!
# The halves of a socket as machines

What the receiving half does depends on the datagrams that arrive, the signals
and the calls of `recv_package`; what the sending half does depends on the
packages it is given, its two threads and the acknowledgements. A run of a socket
is a run of each half, with the events of that half.
-/

namespace Sharpvpn

open Foundation

inductive RecvAction
  | receive (datagram : Datagram)
  | signal
  | recvPackage (running : Bool)

def RecvSide.step (crypto : SharpCrypto) (side : RecvSide) :
    RecvAction → Option (RecvSide × List Event)
  | .receive (.data packageId una payload) =>
      if side.caller = .scanning then none
      else some (side.receiveData ⟨packageId.toNat, payload⟩,
        .arrived (.data packageId una payload) ::
          side.receiveDataEvents ⟨packageId.toNat, payload⟩)
  | .receive (.ack una sendFrom ackList) =>
      some (side.receiveSendFrom sendFrom.toNat, [.arrived (.ack una sendFrom ackList)])
  | .receive .connectionClose => some (side.signal, [.arrived .connectionClose])
  | .signal => some (side.signal, [])
  | .recvPackage running => side.recvPackage crypto running

def recvMachine (crypto : SharpCrypto) : Machine RecvSide RecvAction Event where
  step := RecvSide.step crypto

inductive SendAction
  | assign (payload : Bytes)
  | sender (running : Bool) (recvAckId : Nat)
  | ackHandler (running timedOut : Bool)
  | recvUna (una : UInt64)
  | ackRecv (una : UInt64) (ackList : List UInt64)
  | fastResend (id : Nat)
  | fastResent (maxAckId : Nat)

def SendSide.step (side : SendSide) : SendAction → Option (SendSide × List Event)
  | .assign payload =>
      if side.sendId + 2 < 2 ^ 63 then some (side.assign payload, side.assignEvents payload)
      else none
  | .sender running recvAckId => side.senderStep running recvAckId
  | .ackHandler running timedOut => side.ackHandlerStep running timedOut
  | .recvUna una => some (side.receiveUna una.toNat, [])
  | .ackRecv una ackList => some (side.receiveAck una.toNat (ackList.map UInt64.toNat), [])
  | .fastResend id => some (side.fastResend id, side.fastResendEvents id)
  | .fastResent maxAckId => some ({ side with resendNow := maxAckId }, [])

def sendMachine : Machine SendSide SendAction Event where
  step := SendSide.step

namespace Event

/-- The events of the receiving half. -/
def ofRecv : Event → Bool
  | .arrived _ | .stored _ | .taken _ | .returned _ => true
  | _ => false

/-- The events of the sending half. -/
def ofSend : Event → Bool
  | .assigned _ | .popped _ | .sent (.data ..) | .settled _ | .dropped _ | .timedOut _
  | .fastResent _ | .freed _ => true
  | _ => false

end Event

/-- Everything a step of the receiving half can do. -/
inductive RecvSide.Transition (crypto : SharpCrypto) (side : RecvSide) :
    RecvAction → RecvSide → List Event → Prop
  | data {packageId una payload} (hcaller : side.caller ≠ .scanning) :
      Transition crypto side (.receive (.data packageId una payload))
        (side.receiveData ⟨packageId.toNat, payload⟩)
        (.arrived (.data packageId una payload) ::
          side.receiveDataEvents ⟨packageId.toNat, payload⟩)
  | ack {una sendFrom ackList} :
      Transition crypto side (.receive (.ack una sendFrom ackList))
        (side.receiveSendFrom sendFrom.toNat) [.arrived (.ack una sendFrom ackList)]
  | connectionClose : Transition crypto side (.receive .connectionClose) side.signal
      [.arrived .connectionClose]
  | signal : Transition crypto side .signal side.signal []
  | buffered {running segment parser} (hcaller : side.caller = .idle)
      (hsegment : side.segmentRecv.nextSegment = (segment, parser)) (hne : segment ≠ []) :
      Transition crypto side (.recvPackage running) { side with segmentRecv := parser }
        [.returned segment]
  | enter {running} (hcaller : side.caller = .idle)
      (hsegment : side.segmentRecv.nextSegment.1 = []) :
      Transition crypto side (.recvPackage running) { side with caller := .scanning } []
  | stop (hcaller : side.caller = .scanning) (hfind : side.recvPool.find side.recvId = none) :
      Transition crypto side (.recvPackage false) { side with caller := .idle } []
  | skip (hcaller : side.caller = .scanning) (hfind : side.recvPool.find side.recvId = none)
      (hlt : side.recvId < side.recvAckId) :
      Transition crypto side (.recvPackage true) { side with recvId := succ64 side.recvId } []
  | wait (hcaller : side.caller = .scanning) (hfind : side.recvPool.find side.recvId = none)
      (hge : side.recvAckId ≤ side.recvId) :
      Transition crypto side (.recvPackage true) { side with caller := .waiting false } []
  | take {running package} (hcaller : side.caller = .scanning)
      (hfind : side.recvPool.find side.recvId = some package) :
      Transition crypto side (.recvPackage running)
        { side with
          recvId := succ64 side.recvId
          caller := .taken package (truncateInt side.recvId) } [.taken package]
  | wake {running} (hcaller : side.caller = .waiting true) :
      Transition crypto side (.recvPackage running) { side with caller := .scanning } []
  | load {running package recvNow} (hcaller : side.caller = .taken package recvNow) :
      Transition crypto side (.recvPackage running)
        { side with
          segmentRecv := side.segmentRecv.load crypto package.payload
          caller := .loaded recvNow } []
  | finish {running recvNow} (hcaller : side.caller = .loaded recvNow) :
      Transition crypto side (.recvPackage running)
        { side with
          recvPool := side.recvPool.erase recvNow
          segmentRecv := side.segmentRecv.nextSegment.2
          caller := .idle } [.returned side.segmentRecv.nextSegment.1]

theorem RecvSide.step_transition {crypto : SharpCrypto} {side next : RecvSide}
    {action : RecvAction} {events : List Event}
    (hstep : side.step crypto action = some (next, events)) :
    side.Transition crypto action next events := by
  cases action with
  | receive datagram =>
      cases datagram with
      | data packageId una payload =>
          simp only [step] at hstep
          split at hstep
          next => cases hstep
          next hcaller =>
            cases hstep
            exact .data hcaller
      | ack una sendFrom ackList =>
          cases hstep
          exact .ack
      | connectionClose =>
          cases hstep
          exact .connectionClose
  | signal =>
      cases hstep
      exact .signal
  | recvPackage running =>
      simp only [step, recvPackage] at hstep
      cases hcaller : side.caller with
      | idle =>
          simp only [hcaller] at hstep
          split at hstep
          next hsegment =>
            cases hstep
            exact .enter hcaller (by rw [hsegment])
          next hne hsegment =>
            cases hstep
            have hbuffered : side.Transition crypto (.recvPackage running) _ _ :=
              .buffered hcaller hsegment hne
            simpa only [hcaller] using hbuffered
      | scanning =>
          simp only [hcaller] at hstep
          split at hstep
          next hfind =>
            cases running with
            | false =>
                cases hstep
                exact .stop hcaller hfind
            | true =>
                simp only [Bool.not_true, Bool.false_eq_true, if_false] at hstep
                split at hstep
                next hlt =>
                  cases hstep
                  simpa only [hcaller] using Transition.skip hcaller hfind hlt
                next hge =>
                  cases hstep
                  exact .wait hcaller hfind (by omega)
          next hfind =>
            cases hstep
            exact .take hcaller hfind
      | waiting signalled =>
          cases signalled with
          | false => simp [hcaller] at hstep
          | true =>
              simp only [hcaller] at hstep
              cases hstep
              exact .wake hcaller
      | taken package recvNow =>
          simp only [hcaller] at hstep
          cases hstep
          exact .load hcaller
      | dangling package => simp [hcaller] at hstep
      | loaded recvNow =>
          simp only [hcaller] at hstep
          cases hstep
          exact .finish hcaller

/-- Everything a step of the sending half can do. -/
inductive SendSide.Transition (side : SendSide) : SendAction → SendSide → List Event → Prop
  | assign {payload} (hid : side.sendId + 2 < 2 ^ 63) :
      Transition side (.assign payload) (side.assign payload) (side.assignEvents payload)
  | senderMove {running recvAckId thread}
      (hold : side.sender = .head ∨ side.sender = .polling)
      (hnew : thread = .head ∨ thread = .polling ∨ thread = .exited) :
      Transition side (.sender running recvAckId) { side with sender := thread } []
  | missed {running recvAckId} (hsender : side.sender = .polling)
      (hsize : 0 < side.sendPool.size)
      (hpop : side.sendPool.popId ≠ side.sendPool.arr (side.sendPool.popId % ringCapacity)) :
      Transition side (.sender running recvAckId)
        { side with sendPool := side.sendPool.popRest, sender := .head } []
  | vanished {running recvAckId} (hsender : side.sender = .polling)
      (hsize : 0 < side.sendPool.size)
      (hpop : side.sendPool.popId = side.sendPool.arr (side.sendPool.popId % ringCapacity))
      (hdata : side.sendPool.dataList (side.sendPool.popId % ringCapacity) = none) :
      Transition side (.sender running recvAckId)
        { side with sendPool := side.sendPool.popRest, sender := .head } []
  | popped {running recvAckId package} (hsender : side.sender = .polling)
      (hsize : 0 < side.sendPool.size)
      (hpop : side.sendPool.popId = side.sendPool.arr (side.sendPool.popId % ringCapacity))
      (hdata : side.sendPool.dataList (side.sendPool.popId % ringCapacity) = some package) :
      Transition side (.sender running recvAckId)
        { side with sendPool := side.sendPool.popRest, sender := .holding package }
        [.popped package.packageId]
  | sent {running recvAckId package} (hsender : side.sender = .holding package) :
      Transition side (.sender running recvAckId)
        { side.countSend package.packageId with sender := .sent package }
        (List.replicate (side.copies package.packageId)
          (.sent (.data (UInt64.ofNat package.packageId) (UInt64.ofNat recvAckId)
            package.payload)))
  | queued {running recvAckId package} (hsender : side.sender = .sent package) :
      Transition side (.sender running recvAckId)
        { side with ackPool := side.ackPool.push package, sender := .head } []
  | handlerMove {running timedOut thread}
      (hold : side.ackHandler = .head ∨ side.ackHandler = .polling)
      (hnew : thread = .polling ∨ thread = .exited) :
      Transition side (.ackHandler running timedOut) { side with ackHandler := thread } []
  | handled {running timedOut package pool} (hhandler : side.ackHandler = .polling)
      (hpop : side.ackPool.pop = some (package, pool)) :
      Transition side (.ackHandler running timedOut)
        { side with ackPool := pool, ackHandler := .popped package } []
  | dropped {running timedOut package} (hhandler : side.ackHandler = .popped package)
      (hcount : 20 < side.sendCount package.packageId) :
      Transition side (.ackHandler running timedOut)
        { side with
          sendPool := side.sendPool.erase package.packageId
          sendFrom := side.sendFromAfterDrop package.packageId
          ackHandler := .head }
        (.dropped package.packageId :: side.eraseEvents package.packageId)
  | watch {running timedOut package}
      (hhandler : side.ackHandler = .popped package ∨ side.ackHandler = .waiting package)
      (hcount : side.ackHandler = .popped package → side.sendCount package.packageId ≤ 20) :
      Transition side (.ackHandler running timedOut)
        { side with ackHandler := .waiting package } []
  | expire {running package} (hhandler : side.ackHandler = .waiting package) :
      Transition side (.ackHandler running true)
        { side with ackHandler := .expired package } []
  | settle {running timedOut package} (hhandler : side.ackHandler = .waiting package)
      (hacked : side.Acknowledged package.packageId) :
      Transition side (.ackHandler running timedOut)
        { side with ackHandler := .settling package } []
  | timedOut {running timedOut package} (hhandler : side.ackHandler = .expired package) :
      Transition side (.ackHandler running timedOut)
        { side with
          sendPool := side.sendPool.pushResend package.packageId
          ackHandler := .head } [.timedOut package.packageId]
  | settled {running timedOut package} (hhandler : side.ackHandler = .settling package) :
      Transition side (.ackHandler running timedOut)
        { side with
          sendPool := side.sendPool.erase package.packageId
          ackHandler := .head }
        (.settled package.packageId :: side.eraseEvents package.packageId)
  | recvUna {una} : Transition side (.recvUna una) (side.receiveUna una.toNat) []
  | ackRecv {una ackList} : Transition side (.ackRecv una ackList)
      (side.receiveAck una.toNat (ackList.map UInt64.toNat)) []
  | fastResend {id} : Transition side (.fastResend id) (side.fastResend id)
      (side.fastResendEvents id)
  | fastResent {maxAckId} :
      Transition side (.fastResent maxAckId) { side with resendNow := maxAckId } []

namespace SendSide

variable {side next : SendSide} {events : List Event}

theorem senderStep_transition {running : Bool} {recvAckId : Nat}
    (hstep : side.senderStep running recvAckId = some (next, events)) :
    side.Transition (.sender running recvAckId) next events := by
  unfold senderStep at hstep
  cases hsender : side.sender with
  | head =>
      simp only [hsender, Option.some.injEq, Prod.mk.injEq] at hstep
      obtain ⟨rfl, rfl⟩ := hstep
      refine .senderMove (.inl hsender) ?_
      split <;> simp
  | polling =>
      simp only [hsender] at hstep
      split at hstep
      next =>
        split at hstep
        next => cases hstep
        next =>
          cases hstep
          exact .senderMove (.inr hsender) (.inr (.inr rfl))
      next hsize =>
        have hpos : 0 < side.sendPool.size := Nat.pos_of_ne_zero hsize
        have hsome : ¬(side.sendPool.queueCursor.len ≤ 0 ∧ side.sendPool.resendCursor.len ≤ 0) := by
          intro hempty
          simp only [PackageQueueMap.size] at hsize
          omega
        simp only [PackageQueueMap.pop, if_neg hsome] at hstep
        by_cases hpop : side.sendPool.popId =
            side.sendPool.arr (side.sendPool.popId % ringCapacity)
        · simp only [ne_eq, ← hpop, not_true_eq_false, if_false] at hstep
          cases hdata : side.sendPool.dataList (side.sendPool.popId % ringCapacity) with
          | none =>
              simp only [hdata] at hstep
              cases hstep
              exact .vanished hsender hpos hpop hdata
          | some package =>
              simp only [hdata] at hstep
              cases hstep
              exact .popped hsender hpos hpop hdata
        · simp only [ne_eq, hpop, not_false_eq_true, if_true] at hstep
          cases hstep
          exact .missed hsender hpos hpop
  | holding package =>
      simp only [hsender] at hstep
      cases hstep
      exact .sent hsender
  | sent package =>
      simp only [hsender] at hstep
      cases hstep
      exact .queued hsender
  | exited => simp [hsender] at hstep

theorem ackHandlerStep_transition {running timedOut : Bool}
    (hstep : side.ackHandlerStep running timedOut = some (next, events)) :
    side.Transition (.ackHandler running timedOut) next events := by
  unfold ackHandlerStep at hstep
  cases hhandler : side.ackHandler with
  | head =>
      simp only [hhandler, Option.some.injEq, Prod.mk.injEq] at hstep
      obtain ⟨rfl, rfl⟩ := hstep
      refine .handlerMove (.inl hhandler) ?_
      split <;> simp
  | polling =>
      simp only [hhandler] at hstep
      split at hstep
      next =>
        split at hstep
        next => cases hstep
        next =>
          cases hstep
          exact .handlerMove (.inr hhandler) (.inr rfl)
      next =>
        split at hstep
        next => cases hstep
        next hpop =>
          cases hstep
          exact .handled hhandler hpop
  | popped package =>
      simp only [hhandler] at hstep
      split at hstep
      next hcount =>
        cases hstep
        exact .dropped hhandler hcount
      next hcount =>
        cases hstep
        exact .watch (.inl hhandler) fun _ => Nat.le_of_not_lt hcount
  | waiting package =>
      simp only [hhandler] at hstep
      split at hstep
      next =>
        cases timedOut with
        | true =>
            cases hstep
            exact .expire hhandler
        | false =>
            cases hstep
            exact .watch (.inr hhandler) fun hpopped => by simp [hhandler] at hpopped
      next hacked =>
        cases hstep
        refine .settle hhandler ?_
        unfold Acknowledged
        omega
  | expired package =>
      simp only [hhandler] at hstep
      cases hstep
      exact .timedOut hhandler
  | settling package =>
      simp only [hhandler] at hstep
      cases hstep
      exact .settled hhandler
  | exited => simp [hhandler] at hstep

theorem step_transition {action : SendAction} (hstep : side.step action = some (next, events)) :
    side.Transition action next events := by
  cases action with
  | assign payload =>
      simp only [step] at hstep
      split at hstep
      next hid =>
        cases hstep
        exact .assign hid
      next => cases hstep
  | sender running recvAckId => exact senderStep_transition hstep
  | ackHandler running timedOut => exact ackHandlerStep_transition hstep
  | recvUna una =>
      cases hstep
      exact .recvUna
  | ackRecv una ackList =>
      cases hstep
      exact .ackRecv
  | fastResend id =>
      cases hstep
      exact .fastResend
  | fastResent maxAckId =>
      cases hstep
      exact .fastResent

end SendSide

end Sharpvpn
