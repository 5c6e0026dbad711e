import SimpleNF.Ring

/-! The queue pair shared by a worker thread and the NIC (zsim_nic_defines.hpp).
Addresses are natural numbers. The positions head and tail are bounded by their
type, as the code's wrap test keeps them. -/
namespace SimpleNF

abbrev Addr := Nat

def maxNumWq : Nat := 512
def cacheBlockBits : UInt64 := 6
def cacheBlockSize : UInt64 := 64

instance : NeZero maxNumWq := ⟨by decide⟩

def rmcSabre : UInt32 := 4
def rmcRecv : UInt32 := 5
def rmcSend : UInt32 := (1 : UInt32) <<< 4
def rmcIncomingSend : UInt32 := ((1 : UInt32) <<< 4) ||| ((1 : UInt32) <<< 1)
def rmcIncomingResp : UInt32 := ((1 : UInt32) <<< 4) ||| ((1 : UInt32) <<< 2)
def rmcInval : UInt32 := 42

/-- wq_entry_t -/
structure WqEntry where
  op : UInt32
  SR : Bool
  valid : Bool
  bufAddr : Addr
  cid : UInt32
  nid : UInt64
  offset : UInt64
  length : UInt64
  deriving DecidableEq, Repr, Inhabited

/-- cq_entry_t -/
structure CqEntry where
  SR : Bool
  valid : Bool
  success : UInt32
  tid : UInt32
  recvBufAddr : Addr
  deriving DecidableEq, Repr, Inhabited

/-- rmc_wq_t -/
structure RmcWq where
  q : Fin maxNumWq → WqEntry
  head : Fin maxNumWq
  SR : Bool

/-- rmc_cq_t -/
structure RmcCq where
  q : Fin maxNumWq → CqEntry
  tail : Fin maxNumWq
  SR : Bool

/-- successStruct, the result of polling the completion queue -/
structure SuccessStruct where
  success : UInt32
  op : UInt32
  tid : UInt32
  recvBufAddr : Addr
  deriving DecidableEq, Repr, Inhabited

/-- A work queue in zeroed memory, and a completion queue where all looks stale. -/
def RmcWq.zeroed : RmcWq := ⟨fun _ => ⟨0, false, false, 0, 0, 0, 0, 0⟩, 0, false⟩
def RmcCq.fresh (SR : Bool) : RmcCq := ⟨fun _ => ⟨!SR, false, 0, 0, 0⟩, 0, SR⟩

/-- The head moves on; at the end of the ring it wraps and flips SR. -/
def RmcWq.advanceHead (wq : RmcWq) : RmcWq :=
  let next := SenseRing.advance wq.head wq.SR
  { wq with head := next.1, SR := next.2 }

def RmcCq.advanceTail (cq : RmcCq) : RmcCq :=
  let next := SenseRing.advance cq.tail cq.SR
  { cq with tail := next.1, SR := next.2 }

@[simp] theorem advanceHead_q (wq : RmcWq) : wq.advanceHead.q = wq.q := rfl

@[simp] theorem advanceTail_q (cq : RmcCq) : cq.advanceTail.q = cq.q := rfl

/-- Position and sense bit of the k-th item of a queue whose first lap has bit s0. -/
abbrev position (k : Nat) : Fin maxNumWq := SenseRing.slot maxNumWq k
abbrev sense (s0 : Bool) (k : Nat) : Bool := SenseRing.lapBit maxNumWq s0 k

theorem advanceHead_at (wq : RmcWq) {s0 : Bool} {k : Nat}
    (head : wq.head = position k) (lap : wq.SR = sense s0 k) :
    wq.advanceHead.head = position (k + 1) ∧ wq.advanceHead.SR = sense s0 (k + 1) := by
  simp only [RmcWq.advanceHead, head, lap, SenseRing.advance_slot, and_self]

theorem advanceTail_at (cq : RmcCq) {s0 : Bool} {k : Nat}
    (tail : cq.tail = position k) (lap : cq.SR = sense s0 k) :
    cq.advanceTail.tail = position (k + 1) ∧ cq.advanceTail.SR = sense s0 (k + 1) := by
  simp only [RmcCq.advanceTail, tail, lap, SenseRing.advance_slot, and_self]

end SimpleNF
