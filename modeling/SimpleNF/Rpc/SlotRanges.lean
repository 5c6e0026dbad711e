import SimpleNF.Rpc.SendSlots
import SimpleNF.Rpc.Create

/-! Where sendToNode_zsim writes: one slot of the local buffer for each count modulo
256, also across the wrap of the 32-bit count. -/
namespace SimpleNF

def SendRequest.written (ctx : CtxEntry) (buffer : NIExposedBuffer) (r : SendRequest)
    (rpcSendCount : UInt32) : List (Nat × Nat) :=
  (sendToNodeZsim ctx buffer r.messageByteSize r.destNode r.rawPayloadData r.skipcpy
    rpcSendCount).filterMap Instr.extent

/-- A context that was created for whole cache blocks has usable slots, and its
local buffer is as large as all of them. -/
theorem NumaContext.Geometry.usable {ctx : NumaContext} {packetSize totalNodes : Nat}
    (h : ctx.Geometry packetSize totalNodes) (some : 0 < packetSize)
    (blocks : packetSize % 64 = 0) (fits : 256 * packetSize < 2 ^ 31) :
    ctx.msgDomain.ctxStruct.toCtxEntry.Usable ∧
      ctx.lbufSizeBytes.toNat = 256 * ctx.msgDomain.ctxStruct.msgEntrySize.toNat := by
  have size := h.msgEntrySize
  refine ⟨⟨UInt64.toNat_inj.mp h.msgsPerDest, ?_, ?_, ?_⟩, ?_⟩
  · rw [size, blocks]
  · rwa [size]
  · rwa [size]
  · rw [h.lbufSizeBytes, size]

section Slots

variable {ctx : CtxEntry} {buffer : NIExposedBuffer} {r : SendRequest} {count : UInt32}

theorem SendRequest.written_eq (usable : ctx.Usable) (buffer : NIExposedBuffer) (r : SendRequest)
    (count : UInt32) : r.written ctx buffer count =
      [(slotAddr ctx buffer count.toNat, if r.skipcpy then 4 else r.messageByteSize.toNat)] := by
  have place := lbufAddress_eq usable buffer count.toNat
  rw [UInt32.ofNat_toNat] at place
  simp only [SendRequest.written, sendToNodeZsim, place]
  cases r.skipcpy <;> rfl

theorem SendRequest.written_slot (usable : ctx.Usable) (fits : r.Fits ctx) {x : Nat × Nat}
    (among : x ∈ r.written ctx buffer count) :
    x.1 = slotAddr ctx buffer count.toNat ∧ x.2 ≤ ctx.msgEntrySize.toNat := by
  have blocks := usable.blocks
  have some := usable.some
  rw [SendRequest.written_eq usable] at among
  cases List.mem_singleton.mp among
  cases r.skipcpy with
  | true => exact ⟨rfl, by simp only [if_true]; omega⟩
  | false => exact ⟨rfl, fits⟩

theorem count_slot (count : UInt32) (i : Nat) :
    (count + UInt32.ofNat i).toNat % 256 = (count.toNat + i) % 256 := by
  rw [UInt32.toNat_add, UInt32.toNat_ofNat']
  omega

end Slots

/-- A call writes once, to the slot of its count, which lies in the first
256 * packet_size bytes of the local buffer, and any 256 consecutive counts write to
disjoint places. -/
theorem send_slot_ranges (ctx : CtxEntry) (usable : ctx.Usable) (buffer : NIExposedBuffer)
    (count : UInt32) (r : SendRequest) (fits : r.Fits ctx) :
    r.written ctx buffer count =
      [(buffer.underlyingBuffer + count.toNat % 256 * ctx.msgEntrySize.toNat,
        if r.skipcpy then 4 else r.messageByteSize.toNat)] ∧
    (∀ x ∈ r.written ctx buffer count, ∀ a, Bytes.Within x.1 x.2 a →
      Bytes.Within buffer.underlyingBuffer (256 * ctx.msgEntrySize.toNat) a) ∧
    (∀ r' : SendRequest, r'.Fits ctx → ∀ i j, i < 256 → j < 256 → i ≠ j →
      ∀ x ∈ r.written ctx buffer (count + UInt32.ofNat i),
      ∀ y ∈ r'.written ctx buffer (count + UInt32.ofNat j),
        ∀ a, Bytes.Within x.1 x.2 a → ¬ Bytes.Within y.1 y.2 a) := by
  refine ⟨SendRequest.written_eq usable buffer r count, ?_, ?_⟩
  · intro x among a written
    obtain ⟨place, short⟩ := SendRequest.written_slot usable fits among
    have below := slot_below ctx count.toNat
    simp only [Bytes.Within, place, slotAddr] at written ⊢
    omega
  · intro r' fits' i j hi hj differ x amongX y amongY a writtenX writtenY
    obtain ⟨placeX, shortX⟩ := SendRequest.written_slot usable fits amongX
    obtain ⟨placeY, shortY⟩ := SendRequest.written_slot usable fits' amongY
    have slots : (count + UInt32.ofNat i).toNat % 256 ≠ (count + UInt32.ofNat j).toNat % 256 := by
      rw [count_slot count i, count_slot count j]
      omega
    have apart := slot_apart ctx buffer slots
    simp only [Bytes.Within, placeX, placeY] at writtenX writtenY
    omega

/-- The last count before the wrap copies 64 bytes to the last slot, and the next one
writes a header to the first. -/
theorem send_slot_ranges_at_wrap :
    let copies : SendRequest := ⟨64, 1, 0x8000, false, 0x8000, 64⟩
    let header : SendRequest := ⟨64, 2, 0x9000, true, 0x9000, 64⟩
    copies.written CtxEntry.oneBlock ⟨0x40000⟩ 0xffffffff = [(0x43fc0, 64)] ∧
      header.written CtxEntry.oneBlock ⟨0x40000⟩ (0xffffffff + UInt32.ofNat 1) = [(0x40000, 4)] ∧
      ∀ x ∈ copies.written CtxEntry.oneBlock ⟨0x40000⟩ (0xffffffff + UInt32.ofNat 0),
      ∀ y ∈ header.written CtxEntry.oneBlock ⟨0x40000⟩ (0xffffffff + UInt32.ofNat 1),
        ∀ a, Bytes.Within x.1 x.2 a → ¬ Bytes.Within y.1 y.2 a := by
  intro copies header
  obtain ⟨_, _, apart⟩ := send_slot_ranges CtxEntry.oneBlock oneBlock_usable ⟨0x40000⟩ 0xffffffff
    copies (Nat.le_refl _)
  exact ⟨by decide, by decide, apart header (Nat.le_refl _) 0 1 (by decide) (by decide) (by decide)⟩

end SimpleNF
