import SimpleNF.Rpc.Message

/-! receiveRPCRequest_zsim_l3fwd (rpc.cpp), one poll of the completion queue at a
time. The local record is declared without a value: the fields that a return does
not assign keep what the memory held. -/
namespace SimpleNF

/-- A receive result: the record, and what was stored through source_node_id. -/
structure RecvResult where
  rpc : RPCWithHeader
  sourceNodeId : Option UInt16
  deriving DecidableEq, Repr

/-- What a poll meets: the result of rmc_check_cq, the flag client_done read after
it, and the memory of the record that would be returned. -/
structure Poll where
  retd : SuccessStruct
  clientDone : Bool
  unassigned : RPCWithHeader
  deriving DecidableEq, Repr

inductive Receiving where
  | polling (count : Nat)
  | returned (r : RecvResult)
  deriving DecidableEq, Repr

def firstCount : Nat := 1

/-- One poll of a call with the given count, up to the next poll or the return. -/
def receivePoll (count : Nat) (p : Poll) : Receiving :=
  if p.retd.op ≠ rmcIncomingSend ∧ ¬ p.clientDone then
    let count := count + 1
    if count > 500 then .returned ⟨{ p.unassigned with payloadLen := 0xbeef }, none⟩
    else .polling count
  else if p.clientDone then .returned ⟨{ p.unassigned with payloadLen := 0xdead }, none⟩
  else
    .returned
      { rpc := { p.unassigned with payload := p.retd.recvBufAddr,
                                   sendersNid := p.retd.tid.toUInt16 }
        sourceNodeId := some p.retd.tid.toUInt16 }

section Polls

variable {p : Poll}

theorem receivePoll_fruitless (count : Nat) (other : p.retd.op ≠ rmcIncomingSend)
    (running : p.clientDone = false) :
    receivePoll count p =
      if count + 1 > 500 then .returned ⟨{ p.unassigned with payloadLen := 0xbeef }, none⟩
      else .polling (count + 1) := by
  simp [receivePoll, other, running]

theorem receivePoll_done (count : Nat) (done : p.clientDone = true) :
    receivePoll count p = .returned ⟨{ p.unassigned with payloadLen := 0xdead }, none⟩ := by
  simp [receivePoll, done]

theorem receivePoll_packet (count : Nat) (packet : p.retd.op = rmcIncomingSend)
    (running : p.clientDone = false) :
    receivePoll count p =
      .returned
        { rpc := { p.unassigned with payload := p.retd.recvBufAddr,
                                     sendersNid := p.retd.tid.toUInt16 }
          sourceNodeId := some p.retd.tid.toUInt16 } := by
  simp [receivePoll, packet, running]

theorem receivePoll_polling {count next : Nat}
    (polling : receivePoll count p = .polling next) :
    p.retd.op ≠ rmcIncomingSend ∧ p.clientDone = false ∧ next = count + 1 ∧ next ≤ 500 := by
  cases done : p.clientDone with
  | true =>
    rw [receivePoll_done count done] at polling
    contradiction
  | false =>
    by_cases packet : p.retd.op = rmcIncomingSend
    · rw [receivePoll_packet count packet done] at polling
      contradiction
    · rw [receivePoll_fruitless count packet done] at polling
      split at polling
      · contradiction
      · cases polling
        exact ⟨packet, rfl, rfl, by omega⟩

end Polls

end SimpleNF
