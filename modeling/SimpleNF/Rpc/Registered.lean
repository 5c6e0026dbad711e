import SimpleNF.Rpc.BufferSet

/-! The circular buffers against the two pages that createRPCNUMAContext registers.
Whatever geometry is asked for, each buffer is laid out with 256 entries of a page. -/
namespace SimpleNF

open Bytes (Mem)

def Heap.registered (heap : Heap) : Addr × UInt64 := (kalRegCtx heap 0 ctxPages).2

/-- What an operation polls or zeroes: the byte that is polled first, or an entry. -/
def BufferState.accesses (s : BufferState) : BufferOp → Option (Nat × Nat)
  | .zeroOutRBufHead k =>
    s.ctx.circBuffers[k]?.map (fun b => (b.getHeadAddress, b.entryByteSize))
  | .pollOnBufferNumber k _ => s.ctx.circBuffers[k]?.map (fun b => (b.getHeadAddress, 1))
  | .incrementBufferHead _ => none
  | .flowControlUpdateSendersHead _ _ => none
  | .post _ => none

def StaysRegistered (heap : Heap) (s : Option BufferState) (op : BufferOp) : Prop :=
  ∀ set, s = some set → ∀ a n, set.accesses op = some (a, n) →
    heap.registered.1 ≤ a ∧ a + n ≤ heap.registered.1 + heap.registered.2.toNat

/-- Only the first two entries of the first buffer are polled or zeroed. -/
def AtFirstPages (s : Option BufferState) (op : BufferOp) : Prop :=
  ∀ set, s = some set → ∀ (k : Nat) (b : CircularReceiveBuffer),
    op = .zeroOutRBufHead k ∨ (∃ dec, op = .pollOnBufferNumber k dec) →
    set.ctx.circBuffers[k]? = some b → k = 0 ∧ b.head < 2

theorem registered_size (heap : Heap) : heap.registered.2.toNat = 16384 := by
  have pages : uint64OfInt (ctxPages * emulatorSwPageSize.toUInt32).toInt32 = 16384 := by decide
  simp only [Heap.registered, kalRegCtx, if_true, pages]
  rfl

theorem CircularReceiveBuffer.Placed.head_registered {pgas k n : Nat} {b : CircularReceiveBuffer}
    (h : b.Placed (bufferBase pgas k)) (some : 1 ≤ n) (short : n ≤ 8192) :
    pgas ≤ b.getHeadAddress ∧ b.getHeadAddress + n ≤ pgas + 16384 ↔ k = 0 ∧ b.head < 2 := by
  rw [getHeadAddress, h.base, h.size, bufferBase]
  omega

theorem stays_iff {heap : Heap} {pgas : Addr} {count : Nat} (same : heap.registered.1 = pgas)
    {s : Option BufferState} (h : AlwaysLaidOut pgas count s) (op : BufferOp) :
    AtFirstPages s op ↔ StaysRegistered heap s op := by
  have size := registered_size heap
  constructor
  · intro first set holds a n accessed
    rw [same, size]
    cases op with
    | zeroOutRBufHead k =>
      obtain ⟨b, found, range⟩ := Option.map_eq_some_iff.mp accessed
      cases range
      have placed := (h set holds).placed k b found
      exact (placed.head_registered (by rw [placed.size]; decide) (Nat.le_of_eq placed.size)).mpr
        (first set holds k b (Or.inl rfl) found)
    | pollOnBufferNumber k dec =>
      obtain ⟨b, found, range⟩ := Option.map_eq_some_iff.mp accessed
      cases range
      exact (((h set holds).placed k b found).head_registered (by decide) (by decide)).mpr
        (first set holds k b (Or.inr ⟨dec, rfl⟩) found)
    | incrementBufferHead k => contradiction
    | flowControlUpdateSendersHead k inc => contradiction
    | post k => contradiction
  · intro stays set holds k b which found
    have placed := (h set holds).placed k b found
    rcases which with rfl | ⟨dec, rfl⟩
    · have inside := stays set holds b.getHeadAddress b.entryByteSize
        (by simp [BufferState.accesses, found])
      rw [same, size] at inside
      exact (placed.head_registered (by rw [placed.size]; decide) (Nat.le_of_eq placed.size)).mp
        inside
    · have inside := stays set holds b.getHeadAddress 1 (by simp [BufferState.accesses, found])
      rw [same, size] at inside
      exact (placed.head_registered (by decide) (by decide)).mp inside

/-- A run stays in the registered region exactly when it polls and zeroes nothing
but the first two entries of the first buffer, whatever geometry was asked for. -/
theorem buffers_registered_iff (heap : Heap) (totalNodes qpStart qpEnd packetSize : UInt32)
    (ctx : NumaContext)
    (created : createRPCNUMAContext heap totalNodes qpStart qpEnd packetSize = some ctx)
    (nid : UInt32) (entryByteSize numEntries senders receivers : UInt64) (areSendersCopies : Bool)
    (m : Mem) (ops : List BufferOp) :
    let start :=
      BufferState.start ctx nid entryByteSize numEntries senders receivers areSendersCopies m
    Schedule.Along bufferStep (StaysRegistered heap) start ops ↔
      Schedule.Along bufferStep AtFirstPages start ops := by
  intro start
  obtain ⟨made, same, _, _, _, pgas, _⟩ :=
    createRPCNUMAContext_some heap totalNodes qpStart qpEnd packetSize
  cases Option.some.inj (same.symm.trans created)
  have base : heap.registered.1 = ctx.pgas := pgas.symm
  have laidOut : AlwaysLaidOut ctx.pgas (senders * receivers).toNat start :=
    BufferState.start_laidOut ctx nid entryByteSize numEntries senders receivers areSendersCopies m
  exact (Schedule.along_iff bufferStep (fun _ _ => True) AtFirstPages (StaysRegistered heap)
    (AlwaysLaidOut ctx.pgas _) (fun s op h _ _ => bufferStep_laidOut s op h)
    (fun s op h _ => stays_iff base h op) laidOut
    (Schedule.along_of_forall _ _ start ops (fun _ _ => trivial))).symm

theorem buffers_registered_first_page :
    ∃ ctx, createRPCNUMAContext Heap.zeroed 2 0 0 64 = some ctx ∧
      Schedule.Along bufferStep (StaysRegistered Heap.zeroed)
        (BufferState.start ctx 0 64 4 1 1 true (fun _ => 0)) [.zeroOutRBufHead 0] := by
  refine ⟨_, rfl, (buffers_registered_iff Heap.zeroed 2 0 0 64 _ rfl 0 64 4 1 1 true (fun _ => 0)
    [.zeroOutRBufHead 0]).mpr ⟨?_, trivial⟩⟩
  rintro set started k b (same | ⟨dec, same⟩) found
  · cases same
    cases Option.some.inj started
    cases Option.some.inj found
    exact ⟨rfl, by decide⟩
  · contradiction

/-- One buffer of four entries of 64 bytes is asked for, which fits. After two
increments the head entry, as it is laid out, begins where the region ends. -/
theorem buffer_leaves_registered :
    ∃ ctx, createRPCNUMAContext Heap.zeroed 2 0 0 64 = some ctx ∧
      ¬ Schedule.Along bufferStep (StaysRegistered Heap.zeroed)
        (BufferState.start ctx 0 64 4 1 1 true (fun _ => 0))
        [.incrementBufferHead 0, .incrementBufferHead 0, .zeroOutRBufHead 0] := by
  refine ⟨_, rfl, ?_⟩
  rintro ⟨_, _, stays, _⟩
  have inside := (stays _ rfl _ _ rfl).2
  exact absurd inside (by decide)

end SimpleNF
