import SimpleNF.Rpc.Receive
import SimpleNF.Worker.Batch

/-! The main loop of run_worker (worker.c). Each iteration stores the result of a
receive call in the slot of the batch counter, and a full batch, or an idle result,
flushes the slots before it. tmp_count is an int, so a run has fewer than 2^31
packets. -/
namespace SimpleNF

structure Packet where
  sourceNodeId : UInt64
  payload : Addr
  deriving DecidableEq, Repr

structure ThreadParams where
  packetSize : UInt32
  batchSize : UInt32
  deriving DecidableEq, Repr

/-- A call of batch_process_simpNF: the counter it was made at, the batch it was
given, and the calls it makes. -/
structure Flush where
  batchCounter : UInt32
  batchSize : UInt32
  packets : List Packet
  calls : List Call
  deriving DecidableEq, Repr

structure Worker where
  batchSize : UInt32
  tmpCount : Nat
  batchCounter : UInt32
  rpcs : Nat → RPCWithHeader
  sourceNodeIds : Nat → UInt64
  exited : Bool
  flushes : List Flush

def Worker.start (params : ThreadParams) : Worker :=
  ⟨params.batchSize, 0, 0, fun _ => ⟨0, 0, 0, 0, 0, 0, 0⟩, fun _ => 0, false, []⟩

/-- A store through a uint16_t pointer: the two low bytes change. -/
def storeLow16 (old : UInt64) (v : UInt16) : UInt64 :=
  UInt64.ofNat (old.toNat / 2 ^ 16 * 2 ^ 16 + v.toNat)

def Worker.slot (w : Worker) (i : Nat) : Packet := ⟨w.sourceNodeIds i, (w.rpcs i).payload⟩

def Worker.pending (w : Worker) : List Packet := (List.range w.batchCounter.toNat).map w.slot

def Worker.receive (w : Worker) (r : RecvResult) : Worker :=
  let slot := w.batchCounter.toNat
  { w with
    rpcs := Function.update w.rpcs slot r.rpc
    sourceNodeIds := match r.sourceNodeId with
      | some tid => Function.update w.sourceNodeIds slot (storeLow16 (w.sourceNodeIds slot) tid)
      | none => w.sourceNodeIds }

def Worker.flush (params : ThreadParams) (w : Worker) : Worker :=
  let flushed : Flush :=
    { batchCounter := w.batchCounter, batchSize := w.batchSize
      packets := (List.range w.batchSize.toNat).map w.slot
      calls := batchProcessSimpNF w.rpcs w.sourceNodeIds w.batchSize params.packetSize
        (Int32.ofNat w.tmpCount) }
  { w with flushes := w.flushes ++ [flushed], batchCounter := 0 }

def Worker.iterate (params : ThreadParams) (w : Worker) (r : RecvResult) : Worker :=
  let w := w.receive r
  let received := w.rpcs w.batchCounter.toNat
  if received.payloadLen = 0xdead then { w with exited := true }
  else
    let batchSize := if w.tmpCount < 1010 then 1 else params.batchSize
    let w := if received.payloadLen ≠ 0xbeef then
        { w with batchSize, batchCounter := w.batchCounter + 1, tmpCount := w.tmpCount + 1 }
      else { w with batchSize := w.batchCounter }
    if w.batchCounter ≥ w.batchSize then w.flush params else w

def Worker.step (params : ThreadParams) (w : Worker) (r : RecvResult) : Worker :=
  if w.exited then w else w.iterate params r

/-- The calls that answer some packets, the first of which is the k-th of the run. -/
def answers (params : ThreadParams) (k : Nat) (packets : List Packet) : List Call :=
  (packets.zipIdx k).flatMap (fun x =>
    [.sendToNodeZsim params.packetSize.toUInt64 x.1.sourceNodeId.toUInt32 x.1.payload true
       (UInt32.ofNat x.2),
     .doRecvZsim x.1.payload 64])

theorem answers_cons (params : ThreadParams) (k : Nat) (p : Packet) (rest : List Packet) :
    answers params k (p :: rest) =
      .sendToNodeZsim params.packetSize.toUInt64 p.sourceNodeId.toUInt32 p.payload true
          (UInt32.ofNat k) ::
        .doRecvZsim p.payload 64 :: answers params (k + 1) rest := rfl

theorem answers_append (params : ThreadParams) (k : Nat) (ps qs : List Packet) :
    answers params k (ps ++ qs) = answers params k ps ++ answers params (k + ps.length) qs := by
  simp only [answers, List.zipIdx_append, List.flatMap_append]

theorem send_count {batchSize : UInt32} {tmpCount : Nat} (enough : batchSize.toNat ≤ tmpCount)
    (i : Nat) :
    (Int32.ofNat tmpCount).toUInt32 - batchSize + UInt32.ofNat i =
      UInt32.ofNat (tmpCount - batchSize.toNat + i) := by
  have start : (Int32.ofNat tmpCount).toUInt32 - batchSize =
      UInt32.ofNat (tmpCount - batchSize.toNat) := by
    rw [UInt32.ofNat_sub enough, UInt32.ofNat_toNat, Int32.toUInt32_ofNat']
  rw [start, UInt32.ofNat_add]

/-- A batch that ends at tmp_count is answered from count tmp_count - batch_size on. -/
theorem batch_answers (params : ThreadParams) (w : Worker)
    (enough : w.batchSize.toNat ≤ w.tmpCount) :
    batchProcessSimpNF w.rpcs w.sourceNodeIds w.batchSize params.packetSize
        (Int32.ofNat w.tmpCount) =
      answers params (w.tmpCount - w.batchSize.toNat)
        ((List.range w.batchSize.toNat).map w.slot) := by
  simp only [batchProcessSimpNF, send_count enough]
  generalize w.tmpCount - w.batchSize.toNat = k
  induction w.batchSize.toNat with
  | zero => rfl
  | succ n ih =>
    rw [List.range_succ, List.flatMap_append, List.map_append, answers_append, ih, List.length_map,
      List.length_range]
    rfl

def RecvResult.accepted (r : RecvResult) : Option Packet :=
  if r.rpc.payloadLen = 0xdead ∨ r.rpc.payloadLen = 0xbeef then none
  else r.sourceNodeId.map (fun tid => ⟨tid.toUInt64, r.rpc.payload⟩)

def RecvResult.Labelled (r : RecvResult) : Prop :=
  r.sourceNodeId = none → r.rpc.payloadLen = 0xdead ∨ r.rpc.payloadLen = 0xbeef

theorem succ_toNat {n : UInt32} (room : n.toNat + 1 < 2 ^ 32) : (n + 1).toNat = n.toNat + 1 := by
  rw [UInt32.toNat_add]
  exact Nat.mod_eq_of_lt room

/-- Every accepted packet is in exactly one flushed batch, or pending, in order. -/
structure Worker.Accounted (params : ThreadParams) (packets : List Packet) (w : Worker) : Prop where
  count : w.tmpCount = packets.length
  ids : ∀ i, (w.sourceNodeIds i).toNat < 2 ^ 16
  sizes : ∀ f ∈ w.flushes, f.batchCounter = f.batchSize
  packets : w.flushes.flatMap Flush.packets ++ w.pending = packets
  calls : w.flushes.flatMap Flush.calls = answers params 0 (w.flushes.flatMap Flush.packets)

theorem storeLow16_of_small {old : UInt64} (small : old.toNat < 2 ^ 16) (v : UInt16) :
    storeLow16 old v = v.toUInt64 := by
  have high : old.toNat / 2 ^ 16 = 0 := Nat.div_eq_of_lt small
  have below := v.toNat_lt
  apply UInt64.toNat_inj.mp
  rw [storeLow16, high, UInt64.toNat_ofNat', UInt16.toNat_toUInt64]
  omega

theorem Worker.receive_slot_before (w : Worker) (r : RecvResult) {i : Nat}
    (before : i < w.batchCounter.toNat) : (w.receive r).slot i = w.slot i := by
  have other : i ≠ w.batchCounter.toNat := by omega
  cases sender : r.sourceNodeId <;> simp [Worker.receive, Worker.slot, sender, other]

theorem Worker.receive_slot (w : Worker) {r : RecvResult} {tid : UInt16}
    (sender : r.sourceNodeId = some tid)
    (small : (w.sourceNodeIds w.batchCounter.toNat).toNat < 2 ^ 16) :
    (w.receive r).slot w.batchCounter.toNat = ⟨tid.toUInt64, r.rpc.payload⟩ := by
  simp [Worker.receive, Worker.slot, sender, storeLow16_of_small small]

@[simp] theorem Worker.receive_record (w : Worker) (r : RecvResult) :
    (w.receive r).rpcs w.batchCounter.toNat = r.rpc := by
  simp [Worker.receive]

@[simp] theorem Worker.receive_counter (w : Worker) (r : RecvResult) :
    (w.receive r).batchCounter = w.batchCounter := rfl

@[simp] theorem Worker.receive_count (w : Worker) (r : RecvResult) :
    (w.receive r).tmpCount = w.tmpCount := rfl

theorem Worker.receive_pending (w : Worker) (r : RecvResult) : (w.receive r).pending = w.pending :=
  List.map_congr_left (fun _ hi => w.receive_slot_before r (List.mem_range.mp hi))

section Accounting

variable {params : ThreadParams} {packets : List Packet} {w : Worker}

theorem Worker.Accounted.receive (h : w.Accounted params packets) (r : RecvResult) :
    (w.receive r).Accounted params packets where
  count := h.count
  ids := by
    intro i
    cases sender : r.sourceNodeId with
    | none => simpa [Worker.receive, sender] using h.ids i
    | some tid =>
      have small := storeLow16_of_small (h.ids w.batchCounter.toNat) tid
      by_cases here : i = w.batchCounter.toNat
      · have below := tid.toNat_lt
        simpa [Worker.receive, sender, here, small] using below
      · simpa [Worker.receive, sender, here] using h.ids i
  sizes := h.sizes
  packets := by
    rw [w.receive_pending]
    exact h.packets
  calls := h.calls

theorem Worker.Accounted.counted (h : w.Accounted params packets) {r : RecvResult} {tid : UInt16}
    (sender : r.sourceNodeId = some tid) (batchSize : UInt32)
    (room : w.batchCounter.toNat + 1 < 2 ^ 32) :
    Worker.Accounted params (packets ++ [⟨tid.toUInt64, r.rpc.payload⟩])
      { w.receive r with batchSize, batchCounter := w.batchCounter + 1, tmpCount := w.tmpCount + 1 }
    where
  count := by simp [h.count]
  ids := (h.receive r).ids
  sizes := h.sizes
  packets := by
    have next := succ_toNat room
    have slots : Worker.pending
        { w.receive r with
          batchSize, batchCounter := w.batchCounter + 1, tmpCount := w.tmpCount + 1 } =
        w.pending ++ [⟨tid.toUInt64, r.rpc.payload⟩] := by
      have last := w.receive_slot sender (h.ids _)
      have earlier := w.receive_pending r
      simp only [Worker.pending, next, List.range_succ, List.map_append, List.map_singleton]
      exact congrArg₂ (· ++ ·) earlier (congrArg (fun p => [p]) last)
    rw [slots, ← List.append_assoc]
    exact congrArg (· ++ _) h.packets
  calls := h.calls

theorem Worker.Accounted.flush (h : w.Accounted params packets)
    (whole : w.batchCounter = w.batchSize) :
    (w.flush params).Accounted params packets := by
  have pending : w.pending = (List.range w.batchSize.toNat).map w.slot := by
    rw [Worker.pending, whole]
  have all := h.packets
  have total : (w.flushes.flatMap Flush.packets).length + w.batchSize.toNat = w.tmpCount := by
    rw [h.count, ← all, pending, List.length_append, List.length_map, List.length_range]
  constructor
  · exact h.count
  · exact h.ids
  · intro f hf
    rcases List.mem_append.mp hf with old | new
    · exact h.sizes f old
    · rw [List.mem_singleton.mp new]
      exact whole
  · rw [pending] at all
    simpa [Worker.flush, Worker.pending] using all
  · have counts := batch_answers params w (by omega)
    have start : w.tmpCount - w.batchSize.toNat = (w.flushes.flatMap Flush.packets).length := by
      omega
    rw [start] at counts
    simp only [Worker.flush, List.flatMap_append, List.flatMap_singleton, answers_append, h.calls,
      counts, Nat.zero_add]

def Worker.nextBatchSize (params : ThreadParams) (w : Worker) : UInt32 :=
  if w.tmpCount < 1010 then 1 else params.batchSize

theorem Worker.iterate_done {r : RecvResult} (done : r.rpc.payloadLen = 0xdead) :
    w.iterate params r = { w.receive r with exited := true } := by
  simp [Worker.iterate, done]

theorem Worker.iterate_idle {r : RecvResult} (idle : r.rpc.payloadLen = 0xbeef) :
    w.iterate params r = { w.receive r with batchSize := w.batchCounter }.flush params := by
  simp [Worker.iterate, idle]

theorem Worker.iterate_packet {r : RecvResult}
    (packet : ¬ (r.rpc.payloadLen = 0xdead ∨ r.rpc.payloadLen = 0xbeef)) :
    w.iterate params r =
      let counted : Worker :=
        { w.receive r with batchSize := w.nextBatchSize params,
                           batchCounter := w.batchCounter + 1, tmpCount := w.tmpCount + 1 }
      if w.batchCounter + 1 ≥ w.nextBatchSize params then counted.flush params else counted := by
  rw [not_or] at packet
  simp [Worker.iterate, Worker.nextBatchSize, packet]
  rfl

/-- Between iterations there is room for the next record, and the warm-up packets
are answered one by one. -/
structure Worker.Batching (params : ThreadParams) (packets : List Packet) (w : Worker) : Prop where
  accounted : w.Accounted params packets
  room : w.batchCounter.toNat < params.batchSize.toNat
  warmup : w.tmpCount < 1010 → w.batchCounter = 0

theorem Worker.start_batching (positive : 1 ≤ params.batchSize.toNat) :
    (Worker.start params).Batching params [] where
  accounted := by
    constructor
    · rfl
    · exact fun _ => (by decide : (0 : UInt64).toNat < 2 ^ 16)
    · intro f hf
      contradiction
    · rfl
    · rfl
  room := positive
  warmup := fun _ => rfl

theorem Worker.Accounted.flushed (h : w.Accounted params packets)
    (whole : w.batchCounter = w.batchSize)
    (positive : 1 ≤ params.batchSize.toNat) : (w.flush params).Batching params packets where
  accounted := h.flush whole
  room := positive
  warmup := fun _ => rfl

theorem Worker.Batching.next_counter (h : w.Batching params packets) :
    (w.batchCounter + 1).toNat = w.batchCounter.toNat + 1 := by
  have room := h.room
  have below := params.batchSize.toNat_lt
  exact succ_toNat (by omega)

theorem Worker.Batching.reached (h : w.Batching params packets) :
    (w.batchCounter + 1 ≥ w.nextBatchSize params → w.batchCounter + 1 = w.nextBatchSize params) ∧
    (¬ w.batchCounter + 1 ≥ w.nextBatchSize params →
      w.batchCounter.toNat + 1 < params.batchSize.toNat ∧ 1010 ≤ w.tmpCount) := by
  have room := h.room
  have next := h.next_counter
  unfold Worker.nextBatchSize
  by_cases warm : w.tmpCount < 1010
  · simp [warm, h.warmup warm]
  · simp only [warm, if_false, ge_iff_le, UInt32.le_iff_toNat_le, ← UInt32.toNat_inj, next]
    omega

theorem Worker.Batching.iterate (h : w.Batching params packets)
    (positive : 1 ≤ params.batchSize.toNat) {r : RecvResult} (labelled : r.Labelled) :
    (w.iterate params r).Batching params (packets ++ r.accepted.toList) := by
  have received := h.accounted.receive r
  by_cases tagged : r.rpc.payloadLen = 0xdead ∨ r.rpc.payloadLen = 0xbeef
  · have none : r.accepted = none := if_pos tagged
    rw [none, Option.toList_none, List.append_nil]
    rcases tagged with done | idle
    · rw [Worker.iterate_done done]
      constructor
      · exact ⟨received.count, received.ids, received.sizes, received.packets, received.calls⟩
      · exact h.room
      · exact h.warmup
    · rw [Worker.iterate_idle idle]
      apply Worker.Accounted.flushed _ rfl positive
      exact ⟨received.count, received.ids, received.sizes, received.packets, received.calls⟩
  · cases sender : r.sourceNodeId with
    | none => exact absurd (labelled sender) tagged
    | some tid =>
      have one : r.accepted = some ⟨tid.toUInt64, r.rpc.payload⟩ := by
        rw [RecvResult.accepted, if_neg tagged, sender]
        rfl
      have room := h.room
      have below := params.batchSize.toNat_lt
      have counted := h.accounted.counted sender (w.nextBatchSize params) (by omega)
      obtain ⟨full, open_⟩ := h.reached
      rw [one, Option.toList_some, Worker.iterate_packet tagged]
      split
      · rename_i whole
        exact counted.flushed (full whole) positive
      · rename_i partly
        obtain ⟨space, late⟩ := open_ partly
        constructor
        · exact counted
        · simpa [h.next_counter] using space
        · intro warm
          simp at warm
          omega

end Accounting

def RecvResult.packet (r : RecvResult) : Option Packet :=
  r.sourceNodeId.map (fun tid => ⟨tid.toUInt64, r.rpc.payload⟩)

/-- The tag in payload_len says which kind of result a record is. -/
def RecvResult.Tagged (r : RecvResult) : Prop :=
  (r.rpc.payloadLen = 0xdead ∨ r.rpc.payloadLen = 0xbeef) ↔ r.sourceNodeId = none

instance (r : RecvResult) : Decidable r.Tagged := inferInstanceAs (Decidable (_ ↔ _))

theorem RecvResult.Tagged.accepted {r : RecvResult} (h : r.Tagged) : r.accepted = r.packet := by
  unfold RecvResult.accepted RecvResult.packet
  cases sender : r.sourceNodeId with
  | none => simp
  | some tid =>
    have untagged : ¬ (r.rpc.payloadLen = 0xdead ∨ r.rpc.payloadLen = 0xbeef) := by
      intro tag
      simpa [sender] using h.mp tag
    rw [if_neg untagged]

def packetsOf (rs : List RecvResult) : List Packet := rs.filterMap RecvResult.packet

theorem Worker.run_exited {params : ThreadParams} {w : Worker} (exited : w.exited = true)
    (rs : List RecvResult) : Schedule.run (Worker.step params) w rs = w :=
  Schedule.run_fixed (Worker.step params) (fun _ => if_pos exited) rs

theorem Worker.run_batching {params : ThreadParams} (positive : 1 ≤ params.batchSize.toNat)
    {rs : List RecvResult} (labelled : ∀ r ∈ rs, r.Labelled) {w : Worker} {packets : List Packet}
    (h : w.Batching params packets)
    (running : (Schedule.run (Worker.step params) w rs).exited = false) :
    (Schedule.run (Worker.step params) w rs).Batching params
      (packets ++ rs.filterMap RecvResult.accepted) := by
  induction rs generalizing w packets with
  | nil => simpa using h
  | cons r rest ih =>
    have inside : ¬ w.exited = true := by
      intro exited
      rw [Worker.run_exited exited, exited] at running
      contradiction
    have stepped : w.step params r = w.iterate params r := if_neg inside
    rw [Schedule.run_cons, stepped] at running ⊢
    have next := h.iterate positive (labelled r List.mem_cons_self)
    have last := ih (fun q hq => labelled q (List.mem_cons_of_mem r hq)) next running
    have moved : packets ++ (r :: rest).filterMap RecvResult.accepted =
        packets ++ r.accepted.toList ++ rest.filterMap RecvResult.accepted := by
      cases one : r.accepted <;> simp [one]
    rwa [moved]

/-- The batching of the loop, at every iteration before the exit: the slot written
exists, flushes are whole batches, flushed and pending packets are the packets
received, and the k-th packet is answered with send count k. -/
theorem batching_state_machine (params : ThreadParams) (positive : 1 ≤ params.batchSize.toNat)
    (rs : List RecvResult) (tagged : ∀ r ∈ rs, r.Tagged) :
    let w := Schedule.run (Worker.step params) (Worker.start params) rs
    w.exited = false →
      w.batchCounter.toNat < params.batchSize.toNat ∧
      (∀ f ∈ w.flushes, f.batchCounter = f.batchSize) ∧
      w.flushes.flatMap Flush.packets ++ w.pending = packetsOf rs ∧
      w.flushes.flatMap Flush.calls = answers params 0 (w.flushes.flatMap Flush.packets) := by
  intro w running
  have labelled : ∀ r ∈ rs, r.Labelled := fun r hr => (tagged r hr).mpr
  have accepted : rs.filterMap RecvResult.accepted = packetsOf rs :=
    List.filterMap_congr (fun r hr => (tagged r hr).accepted)
  have h := Worker.run_batching positive labelled (Worker.start_batching positive) running
  rw [List.nil_append, accepted] at h
  exact ⟨h.room, h.accounted.sizes, h.accounted.packets, h.accounted.calls⟩

def packetFrom (tid : UInt16) : RecvResult :=
  ⟨⟨0, 0, 0, 0, tid, 0x8000 + 0x1000 * tid.toNat, 48⟩, some tid⟩

/-- The warm-up, an idle result after two packets, and then a batch of four. -/
def pastWarmup : List RecvResult :=
  List.replicate 1010 (packetFrom 1) ++ [packetFrom 3, packetFrom 5,
    ⟨⟨0, 0, 0, 0, 0, 0, 0xbeef⟩, none⟩, packetFrom 6, packetFrom 7, packetFrom 8, packetFrom 9]

/-- The packet after it waits in slot 0 again, and all before it are answered. -/
theorem batching_past_warmup :
    let w := Schedule.run (Worker.step ⟨64, 4⟩) (Worker.start ⟨64, 4⟩)
      (pastWarmup ++ [packetFrom 10])
    w.pending = [⟨10, 0x12000⟩] ∧ w.flushes.flatMap Flush.packets = packetsOf pastWarmup ∧
      w.flushes.flatMap Flush.calls = answers ⟨64, 4⟩ 0 (packetsOf pastWarmup) := by
  intro w
  obtain ⟨_, _, packets, calls⟩ := batching_state_machine ⟨64, 4⟩ (by decide)
    (pastWarmup ++ [packetFrom 10])
    (by decide +kernel) (by decide +kernel)
  have pending : w.pending = [⟨10, 0x12000⟩] := by decide +kernel
  have last : packetsOf (pastWarmup ++ [packetFrom 10]) = packetsOf pastWarmup ++ [⟨10, 0x12000⟩] :=
    List.filterMap_append
  rw [last, ← pending] at packets
  have answered := List.append_cancel_right packets
  exact ⟨pending, answered, by rw [← answered]; exact calls⟩

end SimpleNF
