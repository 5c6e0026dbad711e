import SimpleNF.Rpc.Message

/-! Where packPayload puts the bytes of a message, as offsets from its buffer, for
buffers of any alignment, and what unpackBufferToRPCLayer makes of any header. -/
namespace SimpleNF

open Bytes (Mem)

/-- The FLEXUS, QFLEX or ZSIM branch of the two functions, or the other one. -/
inductive Build where
  | simulator
  | vm
  deriving DecidableEq, Repr

def Build.packPayload : Build → Mem → RPCWithHeader → Addr → Mem
  | .simulator => Simulator.packPayload
  | .vm => Vm.packPayload

def Build.unpackBufferToRPCLayer : Build → Mem → Addr → RPCWithHeader
  | .simulator => Simulator.unpackBufferToRPCLayer
  | .vm => Vm.unpackBufferToRPCLayer

def Build.header : Build → RPCWithHeader → WireHeader
  | .simulator, rpc => rpc.header
  | .vm, rpc => rpc.header.hton

def getPayloadBytes (r : RPCWithHeader) : UInt32 := r.rpcLen - calcTotalHeaderBytes

def Build.rpcLen : Build → Mem → Addr → UInt32
  | .simulator, m, buf => load32 m buf
  | .vm, m, buf => ntohl (load32 m buf)

/-- The offset of the payload, after a padding as long as the excess it should fill. -/
def payloadOffset (buf : Nat) : Nat := 12 + (buf + 12) % 8

theorem payloadOffset_bounds (buf : Nat) : 12 ≤ payloadOffset buf ∧ payloadOffset buf < 20 := by
  unfold payloadOffset
  omega

theorem payloadOffset_same {a b : Nat} : payloadOffset a = payloadOffset b ↔ a % 8 = b % 8 := by
  unfold payloadOffset
  omega

theorem payloadOffset_sixteen {buf : Nat} : payloadOffset buf = 16 ↔ buf % 8 = 0 := by
  unfold payloadOffset
  omega

theorem packHeader_offset (m : Mem) (buf : Nat) (h : WireHeader) :
    (packHeader m buf h).2 = buf + payloadOffset buf := by
  have align : getAlignmentReq.toNat = 8 := by decide
  have fields : buf + 4 + 2 * 1 + 2 + 2 + 2 = buf + 12 := rfl
  simp only [packHeader, align, fields, payloadOffset]
  split
  · exact Nat.add_assoc buf 12 _
  · rename_i none
    rw [not_ne_iff.mp none]

theorem Build.packPayload_eq (build : Build) (m : Mem) (rpc : RPCWithHeader) (buf : Nat) :
    build.packPayload m rpc buf =
      Bytes.copy (packHeader m buf (build.header rpc)).1 (buf + payloadOffset buf) rpc.payload
        rpc.payloadLen.toNat := by
  cases build with
  | simulator =>
    simp only [packPayload, Simulator.packPayload, header, packHeader_offset]
  | vm =>
    simp only [packPayload, Vm.packPayload, header, packHeader_offset]
    split
    · rfl
    · rename_i none
      rw [not_ne_iff.mp none, UInt32.toNat_zero, Bytes.copy_zero]

def Clear (payload buf len : Nat) : Prop :=
  ∀ i, i < len → payload + i < buf ∨ buf + 19 + len ≤ payload + i

theorem Clear.ne {payload buf len i o : Nat} (clear : Clear payload buf len) (hi : i < len)
    (inside : o < 19 + len) : payload + i ≠ buf + o := by
  have apart := clear i hi
  omega

theorem Clear.beside_header {payload buf len i : Nat} (clear : Clear payload buf len)
    (hi : i < len) : ¬ PackedByte buf 0 (payload + i) := by
  have apart := clear i hi
  simp only [PackedByte]
  omega

def SamePayload (rpc : RPCWithHeader) (m m' : Mem) : Prop :=
  ∀ i, i < rpc.payloadLen.toNat → m' (rpc.payload + i) = m (rpc.payload + i)

def Overwrites (build : Build) (m : Mem) (rpc : RPCWithHeader) (buf o : Nat) (v : UInt8) : Prop :=
  ∀ x, build.packPayload (Function.update m (buf + o) x) rpc buf (buf + o) = v

/-- The message packed at buf, or more of the memory behind it, is copied to a slot
anywhere: there it is decoded to the same payload. -/
def Decodes (build : Build) (m : Mem) (rpc : RPCWithHeader) (buf : Nat) : Prop :=
  ∀ slot n, 16 + rpc.payloadLen.toNat ≤ n →
    let received := Bytes.copy (build.packPayload m rpc buf) slot buf n
    let got := build.unpackBufferToRPCLayer received slot
    Bytes.read received got.payload rpc.payloadLen.toNat =
        Bytes.read m rpc.payload rpc.payloadLen.toNat ∧
      (rpc.rpcLen = calcTotalHeaderBytes + rpc.payloadLen → got.payloadLen = rpc.payloadLen)

/-- Whatever memory holds beside the payload, packing at a and at b writes the same
bytes at the same offsets, and the message is decoded wherever it is copied to. -/
def PositionIndependent (build : Build) (m : Mem) (rpc : RPCWithHeader) (a b : Nat) : Prop :=
  ∀ m', SamePayload rpc m m' →
    (∀ o v, Overwrites build m' rpc a o v ↔ Overwrites build m' rpc b o v) ∧
    Decodes build m' rpc a

section Packing

variable {build : Build} {m m' : Mem} {rpc : RPCWithHeader} {a b buf : Nat}

theorem packHeader_shift (h : WireHeader) {o : Nat} (same : m (a + o) = m' (b + o)) :
    (packHeader m a h).1 (a + o) = (packHeader m' b h).1 (b + o) := by
  have len := Bytes.write_shift same 0 (Bytes.encode 4 h.rpcLen.toNat)
  have type := Bytes.write_shift len 4 (Bytes.encode 1 h.rpcType.toNat)
  have id := Bytes.write_shift type 6 (Bytes.encode 2 h.rpcId.toNat)
  have qp := Bytes.write_shift id 8 (Bytes.encode 2 h.sendersQp.toNat)
  exact Bytes.write_shift qp 10 (Bytes.encode 2 h.sendersNid.toNat)

theorem pack_untouched (build : Build) (m : Mem) {o : Nat} (behind : 12 ≤ o)
    (outside : o < payloadOffset buf ∨ payloadOffset buf + rpc.payloadLen.toNat ≤ o) :
    build.packPayload m rpc buf (buf + o) = m (buf + o) := by
  rw [build.packPayload_eq, Bytes.copy_outside (by omega)]
  apply (packHeader_packed m buf (build.header rpc) 0).frame
  simp only [PackedByte]
  omega

theorem Clear.header (clear : Clear rpc.payload buf rpc.payloadLen.toNat) (m : Mem) (h : WireHeader)
    {i : Nat} (hi : i < rpc.payloadLen.toNat) :
    (packHeader m buf h).1 (rpc.payload + i) = m (rpc.payload + i) :=
  (packHeader_packed m buf h 0).frame _ (clear.beside_header hi)

theorem pack_payload (build : Build) (m : Mem)
    (clear : Clear rpc.payload buf rpc.payloadLen.toNat) {i : Nat}
    (hi : i < rpc.payloadLen.toNat) :
    build.packPayload m rpc buf (buf + (payloadOffset buf + i)) = m (rpc.payload + i) := by
  rw [build.packPayload_eq, ← Nat.add_assoc, Bytes.copy_inside _ _ _ hi]
  exact clear.header m _ hi

/-- Without a payload, or with the same padding, packing is the same at both places. -/
theorem pack_shift (build : Build) (clearA : Clear rpc.payload a rpc.payloadLen.toNat)
    (clearB : Clear rpc.payload b rpc.payloadLen.toNat)
    (place : rpc.payloadLen.toNat = 0 ∨ payloadOffset a = payloadOffset b)
    (payload : SamePayload rpc m m') {o : Nat} (same : m (a + o) = m' (b + o)) :
    build.packPayload m rpc a (a + o) = build.packPayload m' rpc b (b + o) := by
  have header := packHeader_shift (build.header rpc) same
  rw [build.packPayload_eq, build.packPayload_eq]
  rcases place with none | place
  · rw [none, Bytes.copy_zero, Bytes.copy_zero]
    exact header
  · have source :
        Bytes.read (packHeader m a (build.header rpc)).1 rpc.payload rpc.payloadLen.toNat =
          Bytes.read (packHeader m' b (build.header rpc)).1 rpc.payload rpc.payloadLen.toNat := by
      apply Bytes.read_congr
      intro i hi
      rw [clearA.header m _ hi, clearB.header m' _ hi, payload i hi]
    rw [Bytes.copy, Bytes.copy, source, place]
    exact Bytes.write_shift header _ _

theorem Clear.update (clear : Clear rpc.payload buf rpc.payloadLen.toNat) (m : Mem) {o : Nat}
    (inside : o < 19 + rpc.payloadLen.toNat) (x : UInt8) :
    SamePayload rpc m (Function.update m (buf + o) x) :=
  fun _ hi => Function.update_of_ne (clear.ne hi inside) x m

theorem overwrites_payload (build : Build) (m : Mem)
    (clear : Clear rpc.payload buf rpc.payloadLen.toNat) {i : Nat} (hi : i < rpc.payloadLen.toNat) :
    Overwrites build m rpc buf (payloadOffset buf + i) (m (rpc.payload + i)) := by
  intro x
  have bounds := payloadOffset_bounds buf
  rw [pack_payload build _ clear hi]
  exact clear.update m (by omega) x i hi

theorem untouched_not_overwritten (build : Build) (m : Mem) {o : Nat} (v : UInt8) (behind : 12 ≤ o)
    (outside : o < payloadOffset buf ∨ payloadOffset buf + rpc.payloadLen.toNat ≤ o) :
    ¬ Overwrites build m rpc buf o v := by
  intro h
  have kept := h (v + 1)
  rw [pack_untouched build _ behind outside, Function.update_self] at kept
  simp at kept

theorem Overwrites.shift (clearA : Clear rpc.payload a rpc.payloadLen.toNat)
    (clearB : Clear rpc.payload b rpc.payloadLen.toNat)
    (place : rpc.payloadLen.toNat = 0 ∨ payloadOffset a = payloadOffset b) {o : Nat} {v : UInt8}
    (h : Overwrites build m rpc a o v) : Overwrites build m rpc b o v := by
  have bounds := payloadOffset_bounds a
  rcases Nat.lt_or_ge o (19 + rpc.payloadLen.toNat) with inside | beyond
  · intro x
    have keptA := clearA.update m inside x
    have keptB := clearB.update m inside x
    rw [← h x]
    refine (pack_shift build clearA clearB place ?_ ?_).symm
    · intro i hi
      rw [keptA i hi, keptB i hi]
    · rw [Function.update_self, Function.update_self]
  · exact absurd h (untouched_not_overwritten build m v (by omega) (Or.inr (by omega)))

/-- Where the payload begins earlier, its last byte ends earlier. -/
theorem earlier_differs (build : Build) (m : Mem)
    (clear : Clear rpc.payload b rpc.payloadLen.toNat) (some : 0 < rpc.payloadLen.toNat)
    (earlier : payloadOffset a < payloadOffset b) :
    ∃ o v, Overwrites build m rpc b o v ∧ ¬ Overwrites build m rpc a o v := by
  have bounds := payloadOffset_bounds a
  have last : rpc.payloadLen.toNat - 1 < rpc.payloadLen.toNat := by omega
  exact ⟨_, _, overwrites_payload build m clear last,
    untouched_not_overwritten build m _ (by omega) (Or.inr (by omega))⟩

theorem offsets_agree (build : Build) (m : Mem) (clearA : Clear rpc.payload a rpc.payloadLen.toNat)
    (clearB : Clear rpc.payload b rpc.payloadLen.toNat) (some : 0 < rpc.payloadLen.toNat)
    (same : ∀ o v, Overwrites build m rpc a o v ↔ Overwrites build m rpc b o v) :
    payloadOffset a = payloadOffset b := by
  rcases Nat.lt_trichotomy (payloadOffset a) (payloadOffset b) with earlier | equal | later
  · obtain ⟨o, v, atB, notA⟩ := earlier_differs build m clearB some earlier
    exact absurd ((same o v).mpr atB) notA
  · exact equal
  · obtain ⟨o, v, atA, notB⟩ := earlier_differs build m clearA some later
    exact absurd ((same o v).mp atA) notB

end Packing

section Decoding

variable {build : Build} {m : Mem} {rpc : RPCWithHeader} {buf : Nat}

theorem unpack_payload (build : Build) (m : Mem) (buf : Nat) :
    (build.unpackBufferToRPCLayer m buf).payload = buf + 16 := by
  cases build <;> rfl

theorem unpack_payloadLen (build : Build) (m : Mem) (buf : Nat) :
    (build.unpackBufferToRPCLayer m buf).payloadLen = build.rpcLen m buf - 16 := by
  cases build <;> rfl

theorem unpack_rpcLen (build : Build) (m : Mem) (buf : Nat) :
    (build.unpackBufferToRPCLayer m buf).rpcLen = build.rpcLen m buf := by
  have length : (build.unpackBufferToRPCLayer m buf).rpcLen = 16 + (build.rpcLen m buf - 16) := by
    cases build <;> rfl
  rw [length, UInt32.add_comm, UInt32.sub_add_cancel]

theorem received_payload (build : Build) (m : Mem) (slot : Nat) {n : Nat}
    (whole : 16 + rpc.payloadLen.toNat ≤ n) :
    let received := Bytes.copy (build.packPayload m rpc buf) slot buf n
    Bytes.read received (build.unpackBufferToRPCLayer received slot).payload rpc.payloadLen.toNat =
      Bytes.read (build.packPayload m rpc buf) (buf + 16) rpc.payloadLen.toNat := by
  intro received
  rw [unpack_payload]
  apply Bytes.read_shift
  intro i hi
  have inside : 16 + i < n := by omega
  rw [Nat.add_assoc, Nat.add_assoc]
  exact Bytes.copy_inside (build.packPayload m rpc buf) slot buf inside

theorem received_rpcLen (build : Build) (m : Mem) (slot : Nat) {n : Nat}
    (whole : 16 + rpc.payloadLen.toNat ≤ n) :
    build.rpcLen (Bytes.copy (build.packPayload m rpc buf) slot buf n) slot = rpc.rpcLen := by
  have bounds := payloadOffset_bounds buf
  have packed : load32 (build.packPayload m rpc buf) buf = (build.header rpc).rpcLen := by
    rw [build.packPayload_eq, load32, Bytes.load_copy_apart (by omega)]
    exact (packHeader_packed m buf (build.header rpc) 0).rpcLen
  have moved : load32 (Bytes.copy (build.packPayload m rpc buf) slot buf n) slot =
      load32 (build.packPayload m rpc buf) buf := by
    have bytes : Bytes.read (Bytes.copy (build.packPayload m rpc buf) slot buf n) slot 4 =
        Bytes.read (build.packPayload m rpc buf) buf 4 := by
      apply Bytes.read_shift
      intro i hi
      exact Bytes.copy_inside (build.packPayload m rpc buf) slot buf (by omega)
    rw [load32, load32, Bytes.load, Bytes.load, bytes]
  rw [packed] at moved
  cases build with
  | simulator => exact moved
  | vm => rw [Build.rpcLen, moved, Build.header, RPCWithHeader.header, WireHeader.hton, ntohl_htonl]

theorem decodes_iff (build : Build) (m : Mem) (rpc : RPCWithHeader) (buf : Nat) :
    Decodes build m rpc buf ↔
      Bytes.read (build.packPayload m rpc buf) (buf + 16) rpc.payloadLen.toNat =
        Bytes.read m rpc.payload rpc.payloadLen.toNat := by
  constructor
  · intro h
    exact (received_payload build m 0 (Nat.le_refl _)).symm.trans (h 0 _ (Nat.le_refl _)).1
  · intro same slot n whole received got
    refine ⟨(received_payload build m slot whole).trans same, ?_⟩
    intro created
    have length := length_back rpc.payloadLen
    rw [unpack_payloadLen, received_rpcLen build m slot whole, created, header_bytes]
    exact length.2

theorem Build.packPayload_packed (build : Build) (m : Mem) (aligned : buf % 8 = 0)
    (clear : Clear rpc.payload buf rpc.payloadLen.toNat) :
    Packed m buf (build.header rpc) rpc.payload rpc.payloadLen.toNat
      (build.packPayload m rpc buf) := by
  have apart : Apart rpc.payload buf rpc.payloadLen.toNat := by
    intro i hi
    rcases clear i hi with before | behind
    · exact Or.inl before
    · exact Or.inr (Nat.le_trans (by omega) behind)
  cases build with
  | simulator => exact Simulator.packPayload_packed m rpc aligned apart
  | vm => exact Vm.packPayload_packed m rpc aligned apart

/-- A payload that does not begin at offset 16 leaves a byte of what is decoded as
the buffer had it. -/
theorem misplaced_not_decoded (build : Build) (m : Mem)
    (clear : Clear rpc.payload buf rpc.payloadLen.toNat) (some : 0 < rpc.payloadLen.toNat)
    (misplaced : payloadOffset buf ≠ 16) :
    ∃ m', SamePayload rpc m m' ∧ ¬ Decodes build m' rpc buf := by
  have bounds := payloadOffset_bounds buf
  obtain ⟨i, hi, outside⟩ : ∃ i, i < rpc.payloadLen.toNat ∧
      (16 + i < payloadOffset buf ∨ payloadOffset buf + rpc.payloadLen.toNat ≤ 16 + i) := by
    rcases Nat.lt_or_ge 16 (payloadOffset buf) with late | early
    · exact ⟨0, some, Or.inl late⟩
    · exact ⟨rpc.payloadLen.toNat - 1, by omega, Or.inr (by omega)⟩
  have kept := clear.update m (o := 16 + i) (by omega) (m (rpc.payload + i) + 1)
  refine ⟨_, kept, ?_⟩
  intro decodes
  have byte := Bytes.read_byte ((decodes_iff build _ rpc buf).mp decodes) hi
  rw [Nat.add_assoc, pack_untouched build _ (by omega) outside, Function.update_self,
    kept i hi] at byte
  simp at byte

end Decoding

/-- The bytes packed do not depend on the buffer, and are decoded wherever they are
copied to, exactly when there is no payload or both buffers are 8-byte aligned. -/
theorem position_independent_iff (build : Build) (m : Mem) (rpc : RPCWithHeader) (a b : Nat)
    (clearA : Clear rpc.payload a rpc.payloadLen.toNat)
    (clearB : Clear rpc.payload b rpc.payloadLen.toNat) :
    PositionIndependent build m rpc a b ↔
      rpc.payloadLen = 0 ∨ (a % 8 = 0 ∧ b % 8 = 0) := by
  constructor
  · intro independent
    rcases Nat.eq_zero_or_pos rpc.payloadLen.toNat with none | some
    · exact Or.inl (UInt32.toNat_inj.mp none)
    · right
      have agree := offsets_agree build m clearA clearB some (independent m (fun _ _ => rfl)).1
      have sixteen : payloadOffset a = 16 := by
        by_contra misplaced
        obtain ⟨m', same, fails⟩ := misplaced_not_decoded build m clearA some misplaced
        exact fails (independent m' same).2
      exact ⟨payloadOffset_sixteen.mp sixteen, payloadOffset_sixteen.mp (agree.symm.trans sixteen)⟩
  · intro condition m' same
    have place : rpc.payloadLen.toNat = 0 ∨ payloadOffset a = payloadOffset b := by
      rcases condition with none | ⟨alignedA, alignedB⟩
      · exact Or.inl (congrArg UInt32.toNat none)
      · exact Or.inr (payloadOffset_same.mpr (alignedA.trans alignedB.symm))
    refine ⟨fun o v => ⟨?_, ?_⟩, ?_⟩
    · exact Overwrites.shift clearA clearB place
    · exact Overwrites.shift clearB clearA (place.imp id Eq.symm)
    · rw [decodes_iff]
      rcases condition with none | ⟨alignedA, _⟩
      · rw [none]
        rfl
      · exact (build.packPayload_packed m' alignedA clearA).bytes

theorem position_independent_pages :
    let m : Mem := fun a => UInt8.ofNat (a + 0xA1)
    PositionIndependent .simulator m (createRPCStruct 1 2 3 4 4 0x800) 4096 8192 := by
  intro m
  have independent := position_independent_iff .simulator m
    (createRPCStruct 1 2 3 4 4 0x800) 4096 8192
    (fun i _ => Or.inl (by simp [createRPCStruct] at *; omega))
    (fun i _ => Or.inl (by simp [createRPCStruct] at *; omega))
  exact independent.mpr (Or.inr ⟨rfl, rfl⟩)

/-- One byte of payload, packed into a zeroed buffer at 4100: it is written at offset
12, and what is decoded is the zero at offset 16. -/
theorem payload_misplaced :
    let m : Mem := fun x => if x = 64 then 7 else 0
    let rpc := createRPCStruct 1 2 3 4 1 64
    let received := Bytes.copy (Build.packPayload .simulator m rpc 4100) 8192 4100 17
    let got := Build.unpackBufferToRPCLayer .simulator received 8192
    Build.packPayload .simulator m rpc 4100 4112 = 7 ∧
      Bytes.read received got.payload 1 = [0] ∧
      ¬ PositionIndependent .simulator m rpc 4100 4096 := by
  intro m rpc received got
  refine ⟨by decide, by decide, ?_⟩
  intro independent
  have decodes := (independent m (fun _ _ => rfl)).2 8192 17 (by decide)
  exact absurd decodes.1 (by decide)

theorem decoded_payloadLen (build : Build) (m : Mem) (buf : Nat) :
    (build.unpackBufferToRPCLayer m buf).payloadLen.toNat =
      (2 ^ 32 - 16 + (build.rpcLen m buf).toNat) % 2 ^ 32 := by
  rw [unpack_payloadLen, UInt32.toNat_sub]
  rfl

theorem payload_fits_iff (build : Build) (m : Mem) (buf : Nat) :
    calcTotalHeaderBytes.toNat + (build.unpackBufferToRPCLayer m buf).payloadLen.toNat ≤
        (build.rpcLen m buf).toNat ↔ 16 ≤ (build.rpcLen m buf).toNat := by
  have below := (build.rpcLen m buf).toNat_lt
  have header : calcTotalHeaderBytes.toNat = 16 := by decide
  rw [decoded_payloadLen, header]
  omega

/-- The lengths of a decoded record fit each other for every header; they fit the
message when its rpc_len covers at least the header. -/
theorem decoded_lengths (build : Build) (m : Mem) (buf : Nat) :
    let got := build.unpackBufferToRPCLayer m buf
    getPayloadBytes got = got.payloadLen ∧ got.rpcLen = build.rpcLen m buf ∧
      (16 ≤ (build.rpcLen m buf).toNat →
        calcTotalHeaderBytes.toNat + got.payloadLen.toNat ≤ (build.rpcLen m buf).toNat) := by
  intro got
  have rpcLen : got.rpcLen = build.rpcLen m buf := unpack_rpcLen build m buf
  have payloadLen : got.payloadLen = build.rpcLen m buf - 16 := unpack_payloadLen build m buf
  refine ⟨?_, rpcLen, (payload_fits_iff build m buf).mpr⟩
  rw [getPayloadBytes, rpcLen, payloadLen, header_bytes]

/-- A header with an rpc_len of 5: the record claims 2^32 - 11 bytes of payload. -/
theorem short_header_overclaims :
    let received : Mem := Bytes.store 4 (fun a => UInt8.ofNat (a + 0xA1)) 0x4000 5
    let got := Build.unpackBufferToRPCLayer .simulator received 0x4000
    got.payloadLen.toNat = 2 ^ 32 - 11 ∧
      ¬ calcTotalHeaderBytes.toNat + got.payloadLen.toNat ≤
        (Build.rpcLen .simulator received 0x4000).toNat := by
  decide

end SimpleNF
