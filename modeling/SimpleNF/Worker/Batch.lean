import SimpleNF.Rpc.Transport

/-! Answering a batch (worker.c, batch_process_simpNF). The loop index is an int,
so a batch has fewer than 2^31 requests. -/
namespace SimpleNF

open Bytes (Mem)

def batchProcessSimpNF (rpcs : Nat → RPCWithHeader) (sourceNodeIds : Nat → UInt64)
    (batchSize packetSize : UInt32) (tmpCount : Int32) : List Call :=
  (List.range batchSize.toNat).flatMap (fun i =>
    [.sendToNodeZsim packetSize.toUInt64 (sourceNodeIds i).toUInt32 (rpcs i).payload true
       ((tmpCount.toUInt32 - batchSize) + UInt32.ofNat i),
     .doRecvZsim (rpcs i).payload 64])

def nidsOf (rs : List (UInt32 × UInt64 × Addr)) : List UInt64 :=
  (rs.filter (fun r => r.1 == rmcSend)).map (fun r => r.2.1)

def buffersOf (rs : List (UInt32 × UInt64 × Addr)) : List Addr :=
  (rs.filter (fun r => r.1 == rmcRecv)).map (fun r => r.2.2)

/-- The queue got, for each request in order, one reply and one receive buffer. -/
def AllPlaced (rpcs : Nat → RPCWithHeader) (sourceNodeIds : Nat → UInt64) (batchSize : UInt32)
    (placed : List WqEntry) : Prop :=
  nidsOf (placed.map WqEntry.request) = (List.range batchSize.toNat).map sourceNodeIds ∧
  buffersOf (placed.map WqEntry.request) =
    (List.range batchSize.toNat).map (fun i => (rpcs i).payload)

instance (rpcs : Nat → RPCWithHeader) (sourceNodeIds : Nat → UInt64) (batchSize : UInt32)
    (placed : List WqEntry) : Decidable (AllPlaced rpcs sourceNodeIds batchSize placed) :=
  inferInstanceAs (Decidable (_ ∧ _))

theorem Call.owed_send (ctx : CtxEntry) (buffer : NIExposedBuffer) (size : UInt64) (dest : UInt32)
    (payload : Addr) (skipcpy : Bool) (count : UInt32) :
    owed ((Call.sendToNodeZsim size dest payload skipcpy count).instrs ctx buffer) =
      [.send ctx.ctxId.toUInt32 (lbufAddress ctx buffer count) size dest.toUInt64] := by
  cases skipcpy <;> rfl

theorem owed_append (is js : List Instr) : owed (is ++ js) = owed is ++ owed js :=
  List.filterMap_append

theorem nidsOf_append (rs qs : List (UInt32 × UInt64 × Addr)) :
    nidsOf (rs ++ qs) = nidsOf rs ++ nidsOf qs := by
  simp [nidsOf]

theorem buffersOf_append (rs qs : List (UInt32 × UInt64 × Addr)) :
    buffersOf (rs ++ qs) = buffersOf rs ++ buffersOf qs := by
  simp [buffersOf]

theorem requests_split (ps : List Post) :
    (nidsOf (ps.map Post.request)).length + (buffersOf (ps.map Post.request)).length =
    ps.length := by
  induction ps with
  | nil => rfl
  | cons p rest ih =>
    have ops : (rmcSend == rmcRecv) = false ∧ (rmcRecv == rmcSend) = false := by decide
    simp only [nidsOf, buffersOf] at ih
    cases p with
    | send ctxId dataAddress length nid =>
      simp [nidsOf, buffersOf, Post.request, WqEntry.request, Post.entry, ops] at ih ⊢
      omega
    | recv ctxId recvBuf length =>
      simp [nidsOf, buffersOf, Post.request, WqEntry.request, Post.entry, ops] at ih ⊢
      omega

theorem Call.requests_send (ctx : CtxEntry) (buffer : NIExposedBuffer) (size : UInt64)
    (dest : UInt32) (payload : Addr) (skipcpy : Bool) (count : UInt32) :
    let rs := (owed ((Call.sendToNodeZsim size dest payload skipcpy count).instrs ctx buffer)).map
      Post.request
    nidsOf rs = [dest.toUInt64] ∧ buffersOf rs = [] := by
  intro rs
  have eq : rs = [(rmcSend, dest.toUInt64, lbufAddress ctx buffer count)] := by
    simp only [rs, Call.owed_send]
    rfl
  have ops : (rmcSend == rmcRecv) = false := by decide
  simp [eq, nidsOf, buffersOf, ops]

theorem Call.requests_recv (ctx : CtxEntry) (buffer : NIExposedBuffer) (slot : Addr)
    (size : UInt32) :
    let rs := (owed ((Call.doRecvZsim slot size).instrs ctx buffer)).map Post.request
    nidsOf rs = [] ∧ buffersOf rs = [slot] := by
  intro rs
  have eq : rs = [(rmcRecv, 0, slot)] := rfl
  have ops : (rmcRecv == rmcSend) = false := by decide
  simp [eq, nidsOf, buffersOf, ops]

section Requests

variable (rpcs : Nat → RPCWithHeader) (ids : Nat → UInt64) (ctx : CtxEntry)
  (buffer : NIExposedBuffer) (batchSize packetSize : UInt32) (tmpCount : Int32)

theorem batch_requests :
    let rs := (owed (instrs ctx buffer
      (batchProcessSimpNF rpcs ids batchSize packetSize tmpCount))).map Post.request
    nidsOf rs = (List.range batchSize.toNat).map (fun i => (ids i).toUInt32.toUInt64) ∧
    buffersOf rs = (List.range batchSize.toNat).map (fun i => (rpcs i).payload) := by
  unfold batchProcessSimpNF
  induction List.range batchSize.toNat with
  | nil => exact ⟨rfl, rfl⟩
  | cons i rest ih =>
    obtain ⟨nids, buffers⟩ := ih
    have sends := Call.requests_send ctx buffer packetSize.toUInt64 (ids i).toUInt32
      (rpcs i).payload true ((tmpCount.toUInt32 - batchSize) + UInt32.ofNat i)
    have recvs := Call.requests_recv ctx buffer (rpcs i).payload 64
    simp only [instrs] at nids buffers
    simp only [instrs, List.flatMap_cons, List.cons_append, List.nil_append, owed_append,
      List.map_append, nidsOf_append, buffersOf_append, sends, recvs, nids, buffers, List.map_cons,
      and_self]

theorem batch_owed_length :
    (owed (instrs ctx buffer (batchProcessSimpNF rpcs ids batchSize packetSize tmpCount))).length =
      2 * batchSize.toNat := by
  have split := requests_split
    (owed (instrs ctx buffer (batchProcessSimpNF rpcs ids batchSize packetSize tmpCount)))
  obtain ⟨nids, buffers⟩ := batch_requests rpcs ids ctx buffer batchSize packetSize tmpCount
  rw [nids, buffers, List.length_map, List.length_map, List.length_range] at split
  omega

end Requests

theorem truncated_nid (nid : UInt64) : nid.toUInt32.toUInt64 = nid ↔ nid.toNat < 2 ^ 32 := by
  have below := nid.toNat_lt
  simp only [← UInt64.toNat_inj, UInt32.toNat_toUInt64, UInt64.toNat_toUInt32]
  omega

/-- A batch leaves in the queue what it should exactly when no receive buffer is
posted into a full queue and no destination needs more than 32 bits. -/
theorem batch_placed_iff (ctx : CtxEntry) (buffer : NIExposedBuffer) (rpcs : Nat → RPCWithHeader)
    (ids : Nat → UInt64) (batchSize packetSize : UInt32) (tmpCount : Int32) (wq : RmcWq)
    (nic : Fin maxNumWq) (mem : Mem) (as : List Actor) :
    let start := Exec.start wq nic mem
      (instrs ctx buffer (batchProcessSimpNF rpcs ids batchSize packetSize tmpCount))
    let done := Schedule.run Exec.step start as
    done.prog = [] → (AllPlaced rpcs ids batchSize done.ring.placed ↔
      Schedule.Along Exec.step Exec.RecvFits start as ∧
        ∀ i, i < batchSize.toNat → (ids i).toNat < 2 ^ 32) := by
  intro start done returned
  have faithful : done.Faithful :=
    Schedule.run_always Exec.step_faithful (show start.Faithful from rfl) as
  obtain ⟨conserved, fits⟩ := Schedule.along_iff_conserved Exec.posts List.length
    (fun s a h => Exec.step_posts (s := s) (a := a) h)
    (fun s a h => Exec.step_lost (s := s) (a := a) h) start as
  have accepted : done.posts = done.ring.accepted := by
    simp [Exec.posts, returned, owed]
  have split := requests_split done.ring.accepted
  obtain ⟨nids, buffers⟩ := batch_requests rpcs ids ctx buffer batchSize packetSize tmpCount
  unfold AllPlaced
  rw [faithful]
  constructor
  · rintro ⟨sent, posted⟩
    have all : Schedule.Along Exec.step Exec.RecvFits start as := by
      apply fits
      have owes : start.posts.length = 2 * batchSize.toNat :=
        batch_owed_length rpcs ids ctx buffer batchSize packetSize tmpCount
      rw [sent, posted, List.length_map, List.length_map, List.length_range] at split
      rw [accepted, owes]
      omega
    refine ⟨all, ?_⟩
    have same : done.ring.accepted = start.posts := accepted.symm.trans (conserved all)
    have truncated : (List.range batchSize.toNat).map (fun i => (ids i).toUInt32.toUInt64) =
        (List.range batchSize.toNat).map ids := by
      rw [← nids, ← sent, same]
      rfl
    intro i hi
    exact (truncated_nid (ids i)).mp (List.map_inj_left.mp truncated i (List.mem_range.mpr hi))
  · rintro ⟨all, small⟩
    have same : done.ring.accepted = start.posts := accepted.symm.trans (conserved all)
    have truncated : (List.range batchSize.toNat).map (fun i => (ids i).toUInt32.toUInt64) =
        (List.range batchSize.toNat).map ids :=
      List.map_congr_left (fun i hi => (truncated_nid (ids i)).mpr (small i (List.mem_range.mp hi)))
    rw [same]
    exact ⟨nids.trans truncated, buffers⟩

def twoRpcs (i : Nat) : RPCWithHeader :=
  createRPCStruct 1 2 3 4 48 (if i = 0 then 0x8000 else 0x9000)
def twoIds (i : Nat) : UInt64 := if i = 0 then 3 else 5

theorem batch_placed_two_requests :
    let start := Exec.start RmcWq.zeroed 0 (fun a => UInt8.ofNat (a + 0xA1))
      (instrs CtxEntry.oneBlock ⟨0x40000⟩ (batchProcessSimpNF twoRpcs twoIds 2 64 1012))
    let done := Schedule.run Exec.step start
      [.worker, .worker, .nic, .worker, .other 0x8000 7, .worker, .worker, .nic, .worker]
    AllPlaced twoRpcs twoIds 2 done.ring.placed ∧ done.ring.placed.map WqEntry.request =
      [(rmcSend, 3, 0x43c80), (rmcRecv, 0, 0x8000), (rmcSend, 5, 0x43cc0),
        (rmcRecv, 0, 0x9000)] := by
  intro start done
  have placed := batch_placed_iff CtxEntry.oneBlock ⟨0x40000⟩ twoRpcs twoIds 2 64 1012
    RmcWq.zeroed 0 (fun a => UInt8.ofNat (a + 0xA1))
    [.worker, .worker, .nic, .worker, .other 0x8000 7, .worker, .worker, .nic, .worker] (by decide)
  exact ⟨placed.mpr (by decide), by decide⟩

/-- The NIC has not taken any of 511 entries: there is room for the reply only. -/
theorem batch_receive_dropped :
    let wq : RmcWq := ⟨fun i => { (default : WqEntry) with valid := decide (i ≠ 511) }, 511, false⟩
    let start := Exec.start wq 0 (fun a => UInt8.ofNat (a + 0xA1))
      (instrs CtxEntry.oneBlock ⟨0x40000⟩ (batchProcessSimpNF twoRpcs twoIds 1 64 1))
    let done := Schedule.run Exec.step start [.worker, .worker, .worker]
    done.prog = [] ∧ ¬ AllPlaced twoRpcs twoIds 1 done.ring.placed := by
  decide

end SimpleNF
