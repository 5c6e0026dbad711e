import SimpleNF.Bytes
import SimpleNF.Nic.Queues

/-! The RPC message layer (rpc.h, rpc.cpp): packPayload and unpackBufferToRPCLayer
of the simulator build and of the VM build. A C char is a byte, and the host is
little-endian. -/
namespace SimpleNF

open Bytes (Mem)

structure RPCWithHeader where
  rpcLen : UInt32
  rpcType : UInt8
  rpcId : UInt16
  sendersQp : UInt16
  sendersNid : UInt16
  payload : Addr
  payloadLen : UInt32
  deriving DecidableEq, Repr, Inhabited

def getAlignmentReq : UInt32 := 8

def calcTotalHeaderBytes : UInt32 :=
  let hbytes := 4 + 2 * 1 + 2 + 2 + 2
  let alignmentBytes := hbytes % getAlignmentReq
  hbytes + alignmentBytes

def createRPCStruct (aType : UInt8) (anRPCId aQPId aNID : UInt16) (aPayloadLen : UInt32)
    (aPayloadPointer : Addr) : RPCWithHeader where
  rpcLen := calcTotalHeaderBytes + aPayloadLen
  rpcType := aType
  rpcId := anRPCId
  sendersQp := aQPId
  sendersNid := aNID
  payload := aPayloadPointer
  payloadLen := aPayloadLen

@[simp] theorem header_bytes : calcTotalHeaderBytes = 16 := by decide

def htonl (v : UInt32) : UInt32 := UInt32.ofNat (Bytes.swap 4 v.toNat)
def htons (v : UInt16) : UInt16 := UInt16.ofNat (Bytes.swap 2 v.toNat)
def ntohl (v : UInt32) : UInt32 := htonl v
def ntohs (v : UInt16) : UInt16 := htons v

def load32 (m : Mem) (a : Addr) : UInt32 := UInt32.ofNat (Bytes.load 4 m a)
def load16 (m : Mem) (a : Addr) : UInt16 := UInt16.ofNat (Bytes.load 2 m a)

structure WireHeader where
  rpcLen : UInt32
  rpcType : UInt8
  rpcId : UInt16
  sendersQp : UInt16
  sendersNid : UInt16
  deriving DecidableEq, Repr

def RPCWithHeader.header (rpc : RPCWithHeader) : WireHeader :=
  ⟨rpc.rpcLen, rpc.rpcType, rpc.rpcId, rpc.sendersQp, rpc.sendersNid⟩

def WireHeader.hton (h : WireHeader) : WireHeader :=
  ⟨htonl h.rpcLen, h.rpcType, htons h.rpcId, htons h.sendersQp, htons h.sendersNid⟩

/-- The stores that both builds of packPayload begin with, and the place they reach. -/
def packHeader (m : Mem) (buf : Addr) (h : WireHeader) : Mem × Addr :=
  let m := Bytes.store 4 m buf h.rpcLen.toNat
  let buf := buf + 4
  let m := Bytes.store 1 m buf h.rpcType.toNat
  let buf := buf + 2 * 1
  let m := Bytes.store 2 m buf h.rpcId.toNat
  let buf := buf + 2
  let m := Bytes.store 2 m buf h.sendersQp.toNat
  let buf := buf + 2
  let m := Bytes.store 2 m buf h.sendersNid.toNat
  let buf := buf + 2
  let align := getAlignmentReq.toNat
  let buf := if buf % align ≠ 0 then buf + buf % align else buf
  (m, buf)

namespace Simulator

def packPayload (m : Mem) (rpc : RPCWithHeader) (buf : Addr) : Mem :=
  let packed := packHeader m buf rpc.header
  Bytes.copy packed.1 packed.2 rpc.payload rpc.payloadLen.toNat

def unpackBufferToRPCLayer (m : Mem) (buf : Addr) : RPCWithHeader :=
  let aNetworkBuffer := buf
  let rpcLen := load32 m aNetworkBuffer
  let aNetworkBuffer := aNetworkBuffer + 4
  let rpcType := m aNetworkBuffer
  let aNetworkBuffer := aNetworkBuffer + 2 * 1
  let rpcId := load16 m aNetworkBuffer
  let aNetworkBuffer := aNetworkBuffer + 2
  let sendersQp := load16 m aNetworkBuffer
  let aNetworkBuffer := aNetworkBuffer + 2
  let sendersNid := load16 m aNetworkBuffer
  createRPCStruct rpcType rpcId sendersQp sendersNid (rpcLen - calcTotalHeaderBytes)
    (buf + calcTotalHeaderBytes.toNat)

end Simulator

namespace Vm

def packPayload (m : Mem) (rpc : RPCWithHeader) (buf : Addr) : Mem :=
  let packed := packHeader m buf rpc.header.hton
  if rpc.payloadLen ≠ 0 then Bytes.copy packed.1 packed.2 rpc.payload rpc.payloadLen.toNat
  else packed.1

/-- Unlike the simulator build, this one moves on by one byte after the type. -/
def unpackBufferToRPCLayer (m : Mem) (buf : Addr) : RPCWithHeader :=
  let aNetworkBuffer := buf
  let rpcLen := ntohl (load32 m aNetworkBuffer)
  let aNetworkBuffer := aNetworkBuffer + 4
  let rpcType := m aNetworkBuffer
  let aNetworkBuffer := aNetworkBuffer + 1
  let rpcId := ntohs (load16 m aNetworkBuffer)
  let aNetworkBuffer := aNetworkBuffer + 2
  let sendersQp := ntohs (load16 m aNetworkBuffer)
  let aNetworkBuffer := aNetworkBuffer + 2
  let sendersNid := ntohs (load16 m aNetworkBuffer)
  createRPCStruct rpcType rpcId sendersQp sendersNid (rpcLen - calcTotalHeaderBytes)
    (buf + calcTotalHeaderBytes.toNat)

end Vm

theorem load32_store (m : Mem) (a : Nat) (v : UInt32) :
    load32 (Bytes.store 4 m a v.toNat) a = v := by
  have below := v.toNat_lt
  rw [load32, Bytes.load_store, Nat.mod_eq_of_lt (by simpa using below), UInt32.ofNat_toNat]

theorem load16_store (m : Mem) (a : Nat) (v : UInt16) :
    load16 (Bytes.store 2 m a v.toNat) a = v := by
  have below := v.toNat_lt
  rw [load16, Bytes.load_store, Nat.mod_eq_of_lt (by simpa using below), UInt16.ofNat_toNat]

theorem byte_store (m : Mem) (a : Nat) (v : UInt8) : Bytes.store 1 m a v.toNat a = v := by
  have below := v.toNat_lt
  apply UInt8.toNat_inj.mp
  rw [← Bytes.load_one, Bytes.load_store, Nat.mod_eq_of_lt (by simpa using below)]

theorem load16_outside {w : Nat} {m : Mem} {a b : Nat} {v : Nat} (apart : b + 2 ≤ a ∨ a + w ≤ b) :
    load16 (Bytes.store w m a v) b = load16 m b := by
  rw [load16, Bytes.load_store_apart apart, ← load16]

theorem load32_outside {w : Nat} {m : Mem} {a b : Nat} {v : Nat} (apart : b + 4 ≤ a ∨ a + w ≤ b) :
    load32 (Bytes.store w m a v) b = load32 m b := by
  rw [load32, Bytes.load_store_apart apart, ← load32]

/-- The bytes of the packed message: header, hole, header, padding, payload. -/
def PackedByte (buf : Nat) (len : Nat) (a : Nat) : Prop :=
  (buf ≤ a ∧ a ≤ buf + 4) ∨ (buf + 6 ≤ a ∧ a ≤ buf + 11) ∨ (buf + 16 ≤ a ∧ a ≤ buf + 15 + len)

structure Packed (m : Mem) (buf : Nat) (h : WireHeader) (payload : Nat) (len : Nat) (m' : Mem) :
    Prop where
  rpcLen : load32 m' buf = h.rpcLen
  rpcType : m' (buf + 4) = h.rpcType
  rpcId : load16 m' (buf + 6) = h.rpcId
  sendersQp : load16 m' (buf + 8) = h.sendersQp
  sendersNid : load16 m' (buf + 10) = h.sendersNid
  bytes : Bytes.read m' (buf + 16) len = Bytes.read m payload len
  frame : ∀ a, ¬ PackedByte buf len a → m' a = m a

theorem packHeader_place (m : Mem) {buf : Nat} (h : WireHeader) (aligned : buf % 8 = 0) :
    (packHeader m buf h).2 = buf + 16 := by
  have align : getAlignmentReq.toNat = 8 := by decide
  have rest : (buf + 4 + 2 * 1 + 2 + 2 + 2) % 8 = 4 := by omega
  simp only [packHeader, align, rest]
  simp

theorem packHeader_packed (m : Mem) (buf : Nat) (h : WireHeader) (payload : Nat) :
    Packed m buf h payload 0 (packHeader m buf h).1 := by
  simp only [packHeader]
  constructor
  · simp (disch := omega) only [load32_outside, load32_store]
  · simp (disch := omega) only [Bytes.store_outside, byte_store]
  · simp (disch := omega) only [load16_outside, load16_store]
  · simp (disch := omega) only [load16_outside, load16_store]
  · simp only [load16_store]
  · rfl
  · intro a out
    simp only [PackedByte] at out
    simp (disch := omega) only [Bytes.store_outside]

def Apart (payload buf len : Nat) : Prop :=
  ∀ i, i < len → payload + i < buf ∨ buf + 16 + len ≤ payload + i

theorem copy_packed {m : Mem} {buf : Nat} {h : WireHeader} {payload len : Nat}
    (apart : Apart payload buf len) :
    Packed m buf h payload len (Bytes.copy (packHeader m buf h).1 (buf + 16) payload len) := by
  have base := packHeader_packed m buf h payload
  constructor
  · rw [load32, Bytes.load_copy_apart (by omega)]
    exact base.rpcLen
  · rw [Bytes.copy_outside (by omega)]
    exact base.rpcType
  · rw [load16, Bytes.load_copy_apart (by omega)]
    exact base.rpcId
  · rw [load16, Bytes.load_copy_apart (by omega)]
    exact base.sendersQp
  · rw [load16, Bytes.load_copy_apart (by omega)]
    exact base.sendersNid
  · rw [Bytes.read_copy]
    apply Bytes.read_congr
    intro i hi
    have out := apart i hi
    apply base.frame
    simp only [PackedByte]
    omega
  · intro a out
    simp only [PackedByte] at out
    rw [Bytes.copy_outside (by omega)]
    apply base.frame
    simp only [PackedByte]
    omega

theorem Simulator.packPayload_packed (m : Mem) (rpc : RPCWithHeader) {buf : Nat}
    (aligned : buf % 8 = 0) (apart : Apart rpc.payload buf rpc.payloadLen.toNat) :
    Packed m buf rpc.header rpc.payload rpc.payloadLen.toNat (packPayload m rpc buf) := by
  simp only [packPayload, packHeader_place m rpc.header aligned]
  exact copy_packed apart

theorem Vm.packPayload_packed (m : Mem) (rpc : RPCWithHeader) {buf : Nat}
    (aligned : buf % 8 = 0) (apart : Apart rpc.payload buf rpc.payloadLen.toNat) :
    Packed m buf rpc.header.hton rpc.payload rpc.payloadLen.toNat (packPayload m rpc buf) := by
  simp only [packPayload, packHeader_place m rpc.header.hton aligned]
  split
  · exact copy_packed apart
  · rename_i none
    rw [not_ne_iff.mp none]
    exact packHeader_packed m buf rpc.header.hton rpc.payload

structure RoundTrip (m m' : Mem) (sent got : RPCWithHeader) : Prop where
  rpcLen : got.rpcLen = sent.rpcLen
  rpcType : got.rpcType = sent.rpcType
  rpcId : got.rpcId = sent.rpcId
  sendersQp : got.sendersQp = sent.sendersQp
  sendersNid : got.sendersNid = sent.sendersNid
  payloadLen : got.payloadLen = sent.payloadLen
  bytes : Bytes.read m' got.payload sent.payloadLen.toNat =
    Bytes.read m sent.payload sent.payloadLen.toNat

theorem length_back (len : UInt32) : 16 + (16 + len - 16) = 16 + len ∧ 16 + len - 16 = len := by
  have back : 16 + len - 16 = len := by rw [UInt32.add_comm, UInt32.add_sub_cancel]
  exact ⟨by rw [back], back⟩

/-- Packing and unpacking in the simulator build, with the exact set of bytes it may change. -/
theorem simulator_round_trip (m : Mem) (aType : UInt8) (anRPCId aQPId aNID : UInt16)
    (len : UInt32) (payload buf : Nat) (aligned : buf % 8 = 0)
    (apart : Apart payload buf len.toNat) :
    let sent := createRPCStruct aType anRPCId aQPId aNID len payload
    let m' := Simulator.packPayload m sent buf
    RoundTrip m m' sent (Simulator.unpackBufferToRPCLayer m' buf) ∧
      ∀ a, m' a ≠ m a → PackedByte buf len.toNat a := by
  intro sent m'
  have packed : Packed m buf sent.header payload len.toNat m' :=
    Simulator.packPayload_packed m sent aligned apart
  have length := length_back len
  constructor
  · constructor
    · simp only [Simulator.unpackBufferToRPCLayer, createRPCStruct, packed.rpcLen, header_bytes]
      exact length.1
    · exact packed.rpcType
    · exact packed.rpcId
    · exact packed.sendersQp
    · exact packed.sendersNid
    · simp only [Simulator.unpackBufferToRPCLayer, createRPCStruct, packed.rpcLen, header_bytes]
      exact length.2
    · exact packed.bytes
  · intro a changed
    by_contra out
    exact changed (packed.frame a out)

theorem simulator_round_trip_four_bytes :
    let m : Mem := fun a => UInt8.ofNat (a + 0xA1)
    let sent := createRPCStruct 1 2 3 4 4 0x9000
    let m' := Simulator.packPayload m sent 0x4000
    RoundTrip m m' sent (Simulator.unpackBufferToRPCLayer m' 0x4000) ∧
      Bytes.read m' 0x4010 4 = [0xA1, 0xA2, 0xA3, 0xA4] := by
  intro m sent m'
  have trip := simulator_round_trip m 1 2 3 4 4 0x9000 0x4000 (by decide) (by simp [Apart]; omega)
  exact ⟨trip.1, by decide⟩

theorem swap_two {v : Nat} (small : v < 256 ^ 2) : Bytes.swap 2 v = v % 256 * 256 + v / 256 := by
  have high : v / 256 < 256 := by omega
  simp only [Bytes.swap, Bytes.encode, List.reverse_cons, List.reverse_nil, List.nil_append,
    List.singleton_append, Bytes.decode, UInt8.toNat_ofNat', Nat.reducePow, Nat.mod_eq_of_lt high]
  omega

theorem htons_toNat (v : UInt16) : (htons v).toNat = v.toNat % 256 * 256 + v.toNat / 256 := by
  have below := v.toNat_lt
  rw [htons, UInt16.toNat_ofNat', swap_two below, Nat.mod_eq_of_lt (by omega)]

theorem ntohl_htonl (v : UInt32) : ntohl (htonl v) = v := by
  have below := v.toNat_lt
  have fits : Bytes.swap 4 v.toNat < 2 ^ 32 := Bytes.swap_lt 4 v.toNat
  rw [ntohl, htonl, htonl, UInt32.toNat_ofNat', Nat.mod_eq_of_lt fits, Bytes.swap_swap below,
    UInt32.ofNat_toNat]

theorem load16_toNat (m : Mem) (a : Nat) :
    (load16 m a).toNat = (m a).toNat + 256 * (m (a + 1)).toNat := by
  have low := (m a).toNat_lt
  have high := (m (a + 1)).toNat_lt
  have fits : (m a).toNat + 256 * (m (a + 1)).toNat < 2 ^ 16 := by omega
  rw [load16, UInt16.toNat_ofNat', Bytes.load_two, Nat.mod_eq_of_lt fits]

theorem network_bytes {m : Mem} {a : Nat} {v : UInt16} (stored : load16 m a = htons v) :
    (m a).toNat = v.toNat / 256 ∧ (m (a + 1)).toNat = v.toNat % 256 := by
  have low := (m a).toNat_lt
  have high := (m (a + 1)).toNat_lt
  have below := v.toNat_lt
  have eq := congrArg UInt16.toNat stored
  rw [htons_toNat, load16_toNat] at eq
  omega

theorem ntohs_load16 (m : Mem) (a : Nat) :
    (ntohs (load16 m a)).toNat = (m a).toNat * 256 + (m (a + 1)).toNat := by
  have low := (m a).toNat_lt
  have high := (m (a + 1)).toNat_lt
  rw [ntohs, htons_toNat, load16_toNat]
  omega

theorem drifted_number {v b : Nat} (small : v < 2 ^ 16) (same : b * 256 + v / 256 = v) :
    v = 257 * b := by
  have high : v / 256 = b := by omega
  omega

/-- What the VM build unpacks: its 16-bit fields are read one byte early. -/
theorem Vm.unpack_packed {m m' : Mem} {buf : Nat} {rpc : RPCWithHeader} {payload len : Nat}
    (packed : Packed m buf rpc.header.hton payload len m') :
    let got := Vm.unpackBufferToRPCLayer m' buf
    got.rpcId.toNat = (m (buf + 5)).toNat * 256 + rpc.rpcId.toNat / 256 ∧
    got.sendersQp.toNat = rpc.rpcId.toNat % 256 * 256 + rpc.sendersQp.toNat / 256 ∧
    got.sendersNid.toNat = rpc.sendersQp.toNat % 256 * 256 + rpc.sendersNid.toNat / 256 := by
  intro got
  have id := network_bytes packed.rpcId
  have qp := network_bytes packed.sendersQp
  have nid := network_bytes packed.sendersNid
  have hole : m' (buf + 5) = m (buf + 5) := by
    apply packed.frame
    simp only [PackedByte]
    omega
  have atId : got.rpcId = ntohs (load16 m' (buf + 5)) := rfl
  have atQp : got.sendersQp = ntohs (load16 m' (buf + 7)) := rfl
  have atNid : got.sendersNid = ntohs (load16 m' (buf + 9)) := rfl
  refine ⟨?_, ?_, ?_⟩
  · rw [atId, ntohs_load16, hole, id.1]
    rfl
  · rw [atQp, ntohs_load16, id.2, qp.1]
    rfl
  · rw [atNid, ntohs_load16, qp.2, nid.1]
    rfl

/-- The VM build returns what was packed exactly when every 16-bit field repeats
the byte that the encoder leaves unwritten after the type. -/
theorem vm_round_trip_iff (m : Mem) (aType : UInt8) (anRPCId aQPId aNID : UInt16)
    (len : UInt32) (payload buf : Nat) (aligned : buf % 8 = 0)
    (apart : Apart payload buf len.toNat) :
    let sent := createRPCStruct aType anRPCId aQPId aNID len payload
    let m' := Vm.packPayload m sent buf
    RoundTrip m m' sent (Vm.unpackBufferToRPCLayer m' buf) ↔
      anRPCId.toNat = 257 * (m (buf + 5)).toNat ∧ aQPId = anRPCId ∧ aNID = anRPCId := by
  intro sent m'
  have packed : Packed m buf sent.header.hton payload len.toNat m' :=
    Vm.packPayload_packed m sent aligned apart
  obtain ⟨id, qp, nid⟩ := Vm.unpack_packed packed
  have length := length_back len
  have hole := (m (buf + 5)).toNat_lt
  simp only [createRPCStruct, sent] at id qp nid
  constructor
  · intro trip
    have sameId := congrArg UInt16.toNat trip.rpcId
    have sameQp := congrArg UInt16.toNat trip.sendersQp
    have sameNid := congrArg UInt16.toNat trip.sendersNid
    simp only [id, qp, nid, sent, createRPCStruct] at sameId sameQp sameNid
    have idIs := drifted_number anRPCId.toNat_lt sameId
    have qpIs := drifted_number aQPId.toNat_lt sameQp
    have nidIs := drifted_number aNID.toNat_lt sameNid
    simp only [← UInt16.toNat_inj]
    omega
  · rintro ⟨holds, rfl, rfl⟩
    constructor
    · simp only [Vm.unpackBufferToRPCLayer, createRPCStruct, packed.rpcLen, header_bytes]
      simp only [RPCWithHeader.header, WireHeader.hton, ntohl_htonl]
      exact length.1
    · exact packed.rpcType
    · apply UInt16.toNat_inj.mp
      simp only [id, sent, createRPCStruct]
      omega
    · apply UInt16.toNat_inj.mp
      simp only [qp, sent, createRPCStruct]
      omega
    · apply UInt16.toNat_inj.mp
      simp only [nid, sent, createRPCStruct]
      omega
    · simp only [Vm.unpackBufferToRPCLayer, createRPCStruct, packed.rpcLen, header_bytes]
      simp only [RPCWithHeader.header, WireHeader.hton, ntohl_htonl]
      exact length.2
    · exact packed.bytes

/-- The byte after the type holds 0xA6, which all three fields repeat. -/
theorem vm_round_trip_repeated_byte :
    let m : Mem := fun a => UInt8.ofNat (a + 0xA1)
    let sent := createRPCStruct 1 0xA6A6 0xA6A6 0xA6A6 4 0x9000
    let m' := Vm.packPayload m sent 0x4000
    RoundTrip m m' sent (Vm.unpackBufferToRPCLayer m' 0x4000) := by
  intro m sent m'
  have trip := vm_round_trip_iff m 1 0xA6A6 0xA6A6 0xA6A6 4 0x9000 0x4000 (by decide)
    (by simp [Apart]; omega)
  exact trip.mpr ⟨by decide, rfl, rfl⟩

/-- An rpc_id of 1 comes back as 0xA600, senders_qp of 2 as 0x100, and senders_nid of 3
as 0x200. -/
theorem vm_round_trip_fails :
    let m : Mem := fun a => UInt8.ofNat (a + 0xA1)
    let sent := createRPCStruct 1 1 2 3 4 0x9000
    let m' := Vm.packPayload m sent 0x4000
    let got := Vm.unpackBufferToRPCLayer m' 0x4000
    (got.rpcId, got.sendersQp, got.sendersNid) = (0xA600, 0x100, 0x200) ∧
    ¬ RoundTrip m m' sent got := by
  intro m sent m' got
  refine ⟨by decide, ?_⟩
  intro trip
  exact absurd trip.rpcId (by decide)

end SimpleNF
