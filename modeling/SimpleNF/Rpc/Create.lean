import SimpleNF.Rpc.CircularBuffer
import SimpleNF.Rpc.Context
import SimpleNF.Rpc.Transport

/-! Creating the messaging context in the simulator build: createRPCNUMAContext
(rpc.cpp) with kal_reg_ctx and kal_reg_send_recv_bufs (zsim_nic_defines.cpp).
Allocation succeeds, but what it allocates holds anything until it is assigned.
An int product wraps where it overflows. The node id only names a file. -/
namespace SimpleNF

def emulatorSwPageSize : UInt64 := 8192
def srCtxId : UInt16 := 7
def msgsPerPair : Nat := 256

/-- A C int given to a uint64_t: the sign is extended. -/
def uint64OfInt (v : Int32) : UInt64 := v.toInt64.toUInt64

/-- send_buf_management_t -/
structure SendBufManagement where
  head : UInt16
  tail : UInt16
  lock : UInt8
  deriving DecidableEq, Repr

/-- The other fields of ctx_entry_t. A pointer to an array is the array, or none. -/
structure MessagingCtxEntry extends CtxEntry where
  ctxBaseAddr : Addr
  sendBufAddr : Addr
  recvBufAddr : Addr
  numNodes : UInt16
  bufManagement : Option (List SendBufManagement)
  deriving DecidableEq, Repr

structure SoNUMAMessagingDomain where
  recvSlots : Addr
  ctxStruct : MessagingCtxEntry
  sendBuf : Addr
  sendCtrl : Option (List SendBufManagement)
  perNodeChunk : UInt64
  deriving DecidableEq, Repr

/-- The fields of rpcNUMAContext that its creation and the circular buffers use. -/
structure NumaContext extends RpcNUMAContext where
  qps : List Addr
  msgDomain : SoNUMAMessagingDomain
  appBuffers : List Addr
  circBuffers : List CircularReceiveBuffer
  pgas : Addr
  lbufSizeBytes : UInt64
  deriving DecidableEq, Repr

/-- What allocation yields: aligned memory of some size, and the contents of the
objects that are left uninitialized. -/
structure Heap where
  posixMemalign : UInt64 → Addr
  context : NumaContext
  domain : SoNUMAMessagingDomain

/-- The return code, the region's address and its size. -/
def kalRegCtx (heap : Heap) (ctxPtr : Addr) (numPages : UInt32) : Int32 × Addr × UInt64 :=
  let ctxSize : Int32 := (numPages * emulatorSwPageSize.toUInt32).toInt32
  if ctxPtr = 0 then (0, heap.posixMemalign (uint64OfInt ctxSize), uint64OfInt ctxSize)
  else (0, ctxPtr, uint64OfInt ctxSize)

def kalRegSendRecvBufs (ctxEntry : MessagingCtxEntry) (sendBufBase : Addr)
    (sendBufEntries msgEntrySize : UInt64) (numNodes : UInt16) (recvBufBase : Addr)
    (sendCtrl : Option (List SendBufManagement)) :
    Int32 × MessagingCtxEntry × Option (List SendBufManagement) :=
  if msgEntrySize % cacheBlockSize ≠ 0 then (-1, ctxEntry, sendCtrl)
  else
    let ctrl := List.replicate numNodes.toNat ⟨0, (sendBufEntries - 1).toUInt16, 0⟩
    let ctxEntry := { ctxEntry with msgEntrySize, numNodes, msgsPerDest := sendBufEntries }
    (0, { ctxEntry with sendBufAddr := sendBufBase, recvBufAddr := recvBufBase,
                        bufManagement := some ctrl }, some ctrl)

def ctxPages : UInt32 := (emulatorSwPageSize * 2 / emulatorSwPageSize).toUInt32

/-- The result of kal_reg_send_recv_bufs is not looked at. -/
def createRPCNUMAContext (heap : Heap) (totalNodes qpStart qpEnd packetSize : UInt32) :
    Option NumaContext :=
  let ctx := { heap.context with circBuffers := [], pgas := 0 }
  let (registered, pgas, _) := kalRegCtx heap ctx.pgas ctxPages
  if registered < 0 then none
  else
    let domain := { heap.domain with recvSlots := 0, sendBuf := 0, sendCtrl := none }
    let entry := { domain.ctxStruct with ctxId := srCtxId }
    let msgSize : Int32 := packetSize.toInt32
    let numNodes : Int32 := totalNodes.toInt32
    let msgsPerNode : Int32 := Int32.ofNat msgsPerPair
    let (_, entry, sendCtrl) := kalRegSendRecvBufs entry domain.sendBuf (uint64OfInt msgsPerNode)
      (uint64OfInt msgSize) numNodes.toInt16.toUInt16 domain.recvSlots domain.sendCtrl
    let perNodeChunk := (entry.msgEntrySize + cacheBlockSize) * entry.msgsPerDest
    let numQps := (qpEnd - qpStart + 1).toNat
    some
      { ctx with
        pgas
        msgDomain := { domain with ctxStruct := entry, sendCtrl, perNodeChunk }
        lbufSizeBytes := uint64OfInt (msgsPerNode * msgSize)
        qps := List.replicate numQps 0
        appBuffers := List.replicate numQps 0 }

theorem uint64OfInt_toNat (v : UInt32) :
    (uint64OfInt v.toInt32).toNat =
      if v.toNat < 2 ^ 31 then v.toNat else v.toNat + (2 ^ 64 - 2 ^ 32) := by
  have extended : (uint64OfInt v.toInt32).toNat = (BitVec.signExtend 64 v.toBitVec).toNat := rfl
  have below := v.toNat_lt
  have small : v.toBitVec.toNat = v.toNat := rfl
  rw [extended, BitVec.toNat_signExtend, BitVec.toNat_setWidth, BitVec.msb_eq_decide, small,
    Nat.mod_eq_of_lt (by omega)]
  simp only [decide_eq_true_eq, Nat.add_one_sub_one]
  by_cases positive : v.toNat < 2 ^ 31
  · rw [if_pos positive, if_neg (by omega), Nat.add_zero]
  · rw [if_neg positive, if_pos (by omega)]

def Heap.sendRecvBufs (heap : Heap) (totalNodes packetSize : UInt32) :
    Int32 × MessagingCtxEntry × Option (List SendBufManagement) :=
  kalRegSendRecvBufs { heap.domain.ctxStruct with ctxId := srCtxId } 0
    (uint64OfInt (Int32.ofNat msgsPerPair)) (uint64OfInt packetSize.toInt32)
    totalNodes.toInt32.toInt16.toUInt16 0 none

/-- The geometry a context is meant to have, as unbounded numbers. -/
structure NumaContext.Geometry (packetSize totalNodes : Nat) (ctx : NumaContext) : Prop where
  msgEntrySize : ctx.msgDomain.ctxStruct.msgEntrySize.toNat = packetSize
  msgsPerDest : ctx.msgDomain.ctxStruct.msgsPerDest.toNat = 256
  numNodes : ctx.msgDomain.ctxStruct.numNodes.toNat = totalNodes
  perNodeChunk : ctx.msgDomain.perNodeChunk.toNat = (packetSize + 64) * 256
  lbufSizeBytes : ctx.lbufSizeBytes.toNat = 256 * packetSize

/-- A context that is returned has the geometry asked for, and none is returned
when the buffers report an error or no context can hold that geometry. -/
def Heap.CreationSound (heap : Heap) (totalNodes qpStart qpEnd packetSize : UInt32) : Prop :=
  (∀ ctx, createRPCNUMAContext heap totalNodes qpStart qpEnd packetSize = some ctx →
    ctx.Geometry packetSize.toNat totalNodes.toNat) ∧
  ((heap.sendRecvBufs totalNodes packetSize).1 < 0 ∨
      (¬ ∃ ctx : NumaContext, ctx.Geometry packetSize.toNat totalNodes.toNat) →
    createRPCNUMAContext heap totalNodes qpStart qpEnd packetSize = none)

theorem sendRecvBufs_code (heap : Heap) (totalNodes packetSize : UInt32) :
    (heap.sendRecvBufs totalNodes packetSize).1 < 0 ↔ packetSize.toNat % 64 ≠ 0 := by
  have extended := uint64OfInt_toNat packetSize
  have rest : (uint64OfInt packetSize.toInt32 % cacheBlockSize = 0) ↔
      packetSize.toNat % 64 = 0 := by
    have block : cacheBlockSize.toNat = 64 := rfl
    rw [← UInt64.toNat_inj, UInt64.toNat_mod, block, extended, UInt64.toNat_zero]
    split <;> omega
  unfold Heap.sendRecvBufs kalRegSendRecvBufs
  by_cases whole : packetSize.toNat % 64 = 0
  · rw [if_neg (not_not_intro (rest.mpr whole))]
    simp only [whole, ne_eq, not_true_eq_false, iff_false]
    decide
  · rw [if_pos (mt rest.mp whole)]
    simp only [whole, ne_eq, not_false_eq_true, iff_true]
    decide

/-- Creation never fails: neither return code leads to a null context. -/
theorem createRPCNUMAContext_some (heap : Heap) (totalNodes qpStart qpEnd packetSize : UInt32) :
    ∃ ctx, createRPCNUMAContext heap totalNodes qpStart qpEnd packetSize = some ctx ∧
      ctx.msgDomain.ctxStruct = (heap.sendRecvBufs totalNodes packetSize).2.1 ∧
      ctx.msgDomain.perNodeChunk =
        (ctx.msgDomain.ctxStruct.msgEntrySize + 64) * ctx.msgDomain.ctxStruct.msgsPerDest ∧
      ctx.lbufSizeBytes = uint64OfInt (Int32.ofNat msgsPerPair * packetSize.toInt32) ∧
      ctx.pgas = heap.posixMemalign 16384 ∧ ctx.circBuffers = [] :=
  ⟨_, rfl, rfl, rfl, rfl, rfl, rfl⟩

theorem numNodes_toNat (v : UInt32) : v.toInt32.toInt16.toUInt16.toNat = v.toNat % 2 ^ 16 := by
  have narrowed : v.toInt32.toInt16.toUInt16.toNat = (BitVec.signExtend 16 v.toBitVec).toNat := rfl
  rw [narrowed, BitVec.signExtend_eq_setWidth_of_le _ (by decide), BitVec.toNat_setWidth]
  rfl

theorem lbufSize_toNat (v : UInt32) : (uint64OfInt (Int32.ofNat msgsPerPair * v.toInt32)).toNat =
    let product := 256 * v.toNat % 2 ^ 32
    if product < 2 ^ 31 then product else product + (2 ^ 64 - 2 ^ 32) := by
  have product : Int32.ofNat msgsPerPair * v.toInt32 = (256 * v : UInt32).toInt32 := by
    rw [UInt32.toInt32_mul]
    rfl
  rw [product, uint64OfInt_toNat, UInt32.toNat_mul]
  rfl

theorem created_fields (heap : Heap) (totalNodes : UInt32) {packetSize : UInt32}
    (whole : packetSize.toNat % 64 = 0) :
    let entry := (heap.sendRecvBufs totalNodes packetSize).2.1
    entry.msgEntrySize = uint64OfInt packetSize.toInt32 ∧ entry.msgsPerDest = 256 ∧
      entry.numNodes.toNat = totalNodes.toNat % 2 ^ 16 := by
  have accepted : ¬ uint64OfInt packetSize.toInt32 % cacheBlockSize ≠ 0 := by
    have code := (sendRecvBufs_code heap totalNodes packetSize).not.mpr (not_not_intro whole)
    intro rest
    apply code
    simp only [Heap.sendRecvBufs, kalRegSendRecvBufs, if_pos rest]
    decide
  intro entry
  have filled : entry = (heap.sendRecvBufs totalNodes packetSize).2.1 := rfl
  simp only [Heap.sendRecvBufs, kalRegSendRecvBufs, if_neg accepted] at filled
  rw [filled]
  exact ⟨rfl, rfl, numNodes_toNat totalNodes⟩

theorem created_geometry_iff (heap : Heap) (totalNodes qpStart qpEnd : UInt32) {packetSize : UInt32}
    (whole : packetSize.toNat % 64 = 0) {ctx : NumaContext}
    (created : createRPCNUMAContext heap totalNodes qpStart qpEnd packetSize = some ctx) :
    ctx.Geometry packetSize.toNat totalNodes.toNat ↔
      256 * packetSize.toNat < 2 ^ 31 ∧ totalNodes.toNat < 2 ^ 16 := by
  obtain ⟨made, same, entry, chunk, lbuf, _, _⟩ :=
    createRPCNUMAContext_some heap totalNodes qpStart qpEnd packetSize
  cases Option.some.inj (same.symm.trans created)
  obtain ⟨entrySize, entries, nodes⟩ := created_fields heap totalNodes whole
  rw [← entry] at entrySize entries nodes
  have size := packetSize.toNat_lt
  have extended := uint64OfInt_toNat packetSize
  have lbufSize := lbufSize_toNat packetSize
  constructor
  · intro geometry
    have sameSize := geometry.msgEntrySize
    have sameNodes := geometry.numNodes
    have sameLbuf := geometry.lbufSizeBytes
    rw [entrySize, extended] at sameSize
    rw [lbuf, lbufSize] at sameLbuf
    refine ⟨?_, by omega⟩
    have positive : packetSize.toNat < 2 ^ 31 := by
      by_contra negative
      rw [if_neg negative] at sameSize
      omega
    simp only at sameLbuf
    split at sameLbuf <;> omega
  · rintro ⟨fits, few⟩
    have positive : packetSize.toNat < 2 ^ 31 := by omega
    rw [if_pos positive] at extended
    constructor
    · rw [entrySize, extended]
    · rw [entries]
      rfl
    · rw [nodes, Nat.mod_eq_of_lt few]
    · have block : (64 : UInt64).toNat = 64 := rfl
      have slots : (256 : UInt64).toNat = 256 := rfl
      rw [chunk, entries, entrySize, UInt64.toNat_mul, UInt64.toNat_add, extended, block, slots]
      omega
    · have product : 256 * packetSize.toNat % 2 ^ 32 = 256 * packetSize.toNat :=
        Nat.mod_eq_of_lt (by omega)
      rw [lbuf, lbufSize]
      simp only [product, if_pos fits]

/-- Creation meets its contract exactly for sizes that are whole cache blocks,
with 256 of them in an int, and for node counts in a uint16_t. -/
theorem creation_sound_iff (heap : Heap) (totalNodes qpStart qpEnd packetSize : UInt32) :
    heap.CreationSound totalNodes qpStart qpEnd packetSize ↔
      packetSize.toNat % 64 = 0 ∧ 256 * packetSize.toNat < 2 ^ 31 ∧ totalNodes.toNat < 2 ^ 16 := by
  obtain ⟨ctx, created, _⟩ := createRPCNUMAContext_some heap totalNodes qpStart qpEnd packetSize
  unfold Heap.CreationSound
  rw [sendRecvBufs_code]
  constructor
  · rintro ⟨sound, rejects⟩
    have whole : packetSize.toNat % 64 = 0 := by
      by_contra part
      cases created.symm.trans (rejects (Or.inl part))
    exact ⟨whole,
      (created_geometry_iff heap totalNodes qpStart qpEnd whole created).mp (sound ctx created)⟩
  · rintro ⟨whole, fits⟩
    have geometry := (created_geometry_iff heap totalNodes qpStart qpEnd whole created).mpr fits
    constructor
    · intro made same
      cases Option.some.inj (created.symm.trans same)
      exact geometry
    · rintro (part | none)
      · exact absurd whole part
      · exact absurd ⟨ctx, geometry⟩ none

def Heap.zeroed : Heap where
  posixMemalign := fun _ => 0x10000
  context := ⟨⟨0, 0⟩, [], ⟨0, ⟨⟨0, 0, 0⟩, 0, 0, 0, 0, none⟩, 0, none, 0⟩, [], [], 0, 0⟩
  domain := ⟨0, ⟨⟨0, 0, 0⟩, 0, 0, 0, 0, none⟩, 0, none, 0⟩

/-- A packet size of 100 bytes is reported as an error, and the context comes
back with zero slots all the same. -/
theorem creation_ignores_error :
    ¬ Heap.zeroed.CreationSound 2 0 0 100 ∧
      (createRPCNUMAContext Heap.zeroed 2 0 0 100).map
        (fun ctx => ctx.msgDomain.ctxStruct.msgsPerDest) = some 0 := by
  refine ⟨?_, by decide⟩
  rintro ⟨_, rejects⟩
  exact absurd (rejects (Or.inl (by decide))) (by decide)

end SimpleNF
