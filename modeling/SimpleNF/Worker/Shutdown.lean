import SimpleNF.Worker.Loop

/-! Leaving the loop of run_worker. The run is followed poll by poll, so that
client_done can turn true between any two of them. -/
namespace SimpleNF

def Poll.packet (p : Poll) : Option Packet :=
  if p.retd.op = rmcIncomingSend then some ⟨p.retd.tid.toUInt16.toUInt64, p.retd.recvBufAddr⟩
  else none

/-- A worker, the count of the receive call it is in, and the packets popped so far. -/
structure Serving where
  worker : Worker
  count : Nat
  consumed : List Packet

def Serving.start (params : ThreadParams) : Serving := ⟨Worker.start params, firstCount, []⟩

def Serving.step (params : ThreadParams) (s : Serving) (p : Poll) : Serving :=
  if s.worker.exited then s
  else
    let consumed := s.consumed ++ p.packet.toList
    match receivePoll s.count p with
    | .polling count => { s with count, consumed }
    | .returned r => { worker := s.worker.step params r, count := firstCount, consumed }

def Worker.calls (w : Worker) : List Call := w.flushes.flatMap Flush.calls

def Call.reply : Call → Option (UInt32 × Addr)
  | .sendToNodeZsim _ dest payload _ _ => some (dest, payload)
  | .doRecvZsim _ _ => none

def Call.returnedBuffer : Call → Option Addr
  | .sendToNodeZsim _ _ _ _ _ => none
  | .doRecvZsim slot _ => some slot

/-- Every packet popped got exactly one reply and one do_Recv_zsim, and tmp_count,
which is printed as the requests serviced, is the number of replies. -/
def Serving.Serviced (s : Serving) : Prop :=
  (s.worker.calls.filterMap Call.reply).Perm
      (s.consumed.map (fun p => (p.sourceNodeId.toUInt32, p.payload))) ∧
  (s.worker.calls.filterMap Call.returnedBuffer).Perm (s.consumed.map Packet.payload) ∧
  s.worker.tmpCount = (s.worker.calls.filterMap Call.reply).length

/-- A poll whose packet the worker does not take for one: the client is done, or
the memory of the record happens to hold one of the tags. -/
def Poll.Lost (p : Poll) : Prop :=
  p.retd.op = rmcIncomingSend ∧
    (p.clientDone = true ∨ p.unassigned.payloadLen = 0xdead ∨ p.unassigned.payloadLen = 0xbeef)

instance (p : Poll) : Decidable p.Lost := inferInstanceAs (Decidable (_ ∧ _))

theorem answers_replies (params : ThreadParams) (k : Nat) (packets : List Packet) :
    (answers params k packets).filterMap Call.reply =
      packets.map (fun p => (p.sourceNodeId.toUInt32, p.payload)) := by
  induction packets generalizing k with
  | nil => rfl
  | cons p rest ih =>
    rw [answers_cons, List.map_cons, ← ih (k + 1)]
    rfl

theorem answers_buffers (params : ThreadParams) (k : Nat) (packets : List Packet) :
    (answers params k packets).filterMap Call.returnedBuffer = packets.map Packet.payload := by
  induction packets generalizing k with
  | nil => rfl
  | cons p rest ih =>
    rw [answers_cons, List.map_cons, ← ih (k + 1)]
    rfl

structure Serving.Consistent (params : ThreadParams) (accepted : List Packet) (lost : Nat)
    (s : Serving) : Prop where
  batching : s.worker.Batching params accepted
  among : accepted.Sublist s.consumed
  lost : accepted.length + lost = s.consumed.length

/-- Nothing is missing at the exit exactly when nothing was lost or is pending. -/
theorem Serving.Consistent.serviced_iff {params : ThreadParams}
    {accepted : List Packet} {lost : Nat} {s : Serving} (h : s.Consistent params accepted lost) :
    s.Serviced ↔ lost = 0 ∧ s.worker.batchCounter = 0 := by
  have account := h.batching.accounted
  have total := h.lost
  have replies : s.worker.calls.filterMap Call.reply =
      (s.worker.flushes.flatMap Flush.packets).map
      (fun p => (p.sourceNodeId.toUInt32, p.payload)) := by
    rw [Worker.calls, account.calls, answers_replies]
  have buffers : s.worker.calls.filterMap Call.returnedBuffer =
      (s.worker.flushes.flatMap Flush.packets).map Packet.payload := by
    rw [Worker.calls, account.calls, answers_buffers]
  have pending : s.worker.pending.length = s.worker.batchCounter.toNat := by
    simp [Worker.pending]
  have split : (s.worker.flushes.flatMap Flush.packets).length + s.worker.batchCounter.toNat =
      accepted.length := by
    rw [← account.packets, List.length_append, pending]
  unfold Serving.Serviced
  rw [replies, buffers]
  constructor
  · rintro ⟨sent, _, _⟩
    have lengths := sent.length_eq
    rw [List.length_map, List.length_map] at lengths
    refine ⟨by omega, UInt32.toNat_inj.mp ?_⟩
    rw [UInt32.toNat_zero]
    omega
  · rintro ⟨none, empty⟩
    rw [empty, UInt32.toNat_zero] at split
    have all : accepted = s.consumed := h.among.eq_of_length (by omega)
    have nothing : s.worker.pending = [] := List.length_eq_zero_iff.mp (by rw [pending, empty]; rfl)
    have flushed : s.worker.flushes.flatMap Flush.packets = s.consumed := by
      rw [← all, ← account.packets, nothing, List.append_nil]
    rw [flushed]
    refine ⟨List.Perm.refl _, List.Perm.refl _, ?_⟩
    rw [List.length_map, account.count, all]

def Poll.kept (p : Poll) : List Packet := if p.Lost then [] else p.packet.toList

theorem Poll.kept_other {p : Poll} (other : p.retd.op ≠ rmcIncomingSend) :
    p.kept = [] ∧ p.packet = none ∧ ¬ p.Lost := by
  simp [Poll.kept, Poll.packet, Poll.Lost, other]

theorem receivePoll_returned {count : Nat} {p : Poll} {r : RecvResult}
    (returned : receivePoll count p = .returned r) :
    r.Labelled ∧ r.accepted.toList = p.kept := by
  cases done : p.clientDone with
  | true =>
    rw [receivePoll_done count done] at returned
    cases returned
    refine ⟨fun _ => Or.inl rfl, ?_⟩
    by_cases packet : p.retd.op = rmcIncomingSend
    · have lost : p.Lost := ⟨packet, Or.inl done⟩
      simp [RecvResult.accepted, Poll.kept, lost]
    · simp [RecvResult.accepted, (Poll.kept_other packet).1]
  | false =>
    by_cases packet : p.retd.op = rmcIncomingSend
    · rw [receivePoll_packet count packet done] at returned
      cases returned
      refine ⟨fun none => by contradiction, ?_⟩
      by_cases tag : p.unassigned.payloadLen = 0xdead ∨ p.unassigned.payloadLen = 0xbeef
      · have lost : p.Lost := ⟨packet, Or.inr tag⟩
        simp [RecvResult.accepted, Poll.kept, lost, tag]
      · have found : ¬ p.Lost := fun lost => lost.2.elim (by simp [done]) tag
        simp [RecvResult.accepted, Poll.kept, Poll.packet, found, packet, tag]
    · rw [receivePoll_fruitless count packet done] at returned
      split at returned
      · cases returned
        refine ⟨fun _ => Or.inr rfl, ?_⟩
        simp [RecvResult.accepted, (Poll.kept_other packet).1]
      · contradiction

section Runs

variable {params : ThreadParams} {s : Serving}

theorem Serving.step_polling {p : Poll} {count : Nat} (running : s.worker.exited = false)
    (polling : receivePoll s.count p = .polling count) :
    s.step params p = { s with count, consumed := s.consumed ++ p.packet.toList } := by
  simp [Serving.step, running, polling]

theorem Serving.step_returned {p : Poll} {r : RecvResult} (running : s.worker.exited = false)
    (returned : receivePoll s.count p = .returned r) :
    s.step params p =
      { worker := s.worker.iterate params r, count := firstCount,
        consumed := s.consumed ++ p.packet.toList } := by
  simp [Serving.step, Worker.step, running, returned]

theorem Poll.kept_among (p : Poll) :
    p.kept.Sublist p.packet.toList ∧
      p.kept.length + (if p.Lost then 1 else 0) = p.packet.toList.length := by
  by_cases lost : p.Lost
  · simp [Poll.kept, Poll.packet, lost, lost.1]
  · simp [Poll.kept, lost]

theorem Serving.Consistent.step {accepted : List Packet} {lost : Nat}
    (h : s.Consistent params accepted lost) (positive : 1 ≤ params.batchSize.toNat)
    (running : s.worker.exited = false) (p : Poll) :
    (s.step params p).Consistent params (accepted ++ p.kept) (lost + if p.Lost then 1 else 0) := by
  obtain ⟨sub, count⟩ := p.kept_among
  have total := h.lost
  have lengths : (accepted ++ p.kept).length + (lost + if p.Lost then 1 else 0) =
      (s.consumed ++ p.packet.toList).length := by
    rw [List.length_append, List.length_append]
    omega
  cases received : receivePoll s.count p with
  | polling next =>
    obtain ⟨other, _⟩ := receivePoll_polling received
    have batching := h.batching
    rw [Serving.step_polling running received]
    constructor
    · simpa [(Poll.kept_other other).1] using batching
    · exact h.among.append sub
    · exact lengths
  | returned r =>
    obtain ⟨labelled, kept⟩ := receivePoll_returned received
    have batching := h.batching.iterate positive labelled
    rw [Serving.step_returned running received]
    constructor
    · rwa [← kept]
    · exact h.among.append sub
    · exact lengths

theorem Serving.run_exited (exited : s.worker.exited = true) (polls : List Poll) :
    Schedule.run (Serving.step params) s polls = s :=
  Schedule.run_fixed (Serving.step params) (fun _ => if_pos exited) polls

theorem Serving.running_before {polls : List Poll}
    (running : (Schedule.run (Serving.step params) s polls).worker.exited = false) :
    s.worker.exited = false := by
  by_contra exited
  rw [Bool.not_eq_false] at exited
  rw [Serving.run_exited exited, exited] at running
  contradiction

theorem Serving.Consistent.run {polls : List Poll} {accepted : List Packet} {lost : Nat}
    (h : s.Consistent params accepted lost) (positive : 1 ≤ params.batchSize.toNat)
    (running : (Schedule.run (Serving.step params) s polls).worker.exited = false) :
    ∃ packets, (Schedule.run (Serving.step params) s polls).Consistent params packets
      (lost + polls.countP (fun p => p.Lost)) := by
  induction polls generalizing s accepted lost with
  | nil => exact ⟨accepted, h⟩
  | cons p rest ih =>
    have next := h.step positive (Serving.running_before running) p
    obtain ⟨packets, last⟩ := ih next running
    refine ⟨packets, ?_⟩
    rw [List.countP_cons, Nat.add_comm (rest.countP _), ← Nat.add_assoc]
    simpa using last

end Runs

/-- What the polls of a run say about its packets: how many there were, how many
before the last 500 polls in a row without one, and the polls without one since
the last packet or since then. -/
structure Traffic where
  packets : Nat
  beforeIdle : Nat
  fruitless : Nat
  deriving DecidableEq, Repr

def Traffic.poll (t : Traffic) (p : Poll) : Traffic :=
  if p.retd.op = rmcIncomingSend then { t with packets := t.packets + 1, fruitless := 0 }
  else if t.fruitless + 1 = 500 then { t with beforeIdle := t.packets, fruitless := 0 }
  else { t with fruitless := t.fruitless + 1 }

def traffic (polls : List Poll) : Traffic := polls.foldl Traffic.poll ⟨0, 0, 0⟩

/-- Packets of the partly filled batch: those since the last flush of an idle
result or of the warm-up, without the whole batches among them. -/
def Traffic.pending (batchSize : UInt32) (t : Traffic) : Nat :=
  (t.packets - max t.beforeIdle 1010) % batchSize.toNat

section Flow

variable {params : ThreadParams} {w : Worker} {packets : List Packet}

theorem Worker.Batching.counter_packet (h : w.Batching params packets)
    (positive : 1 ≤ params.batchSize.toNat) {t : Traffic} (count : w.tmpCount = t.packets)
    (idle : t.beforeIdle ≤ t.packets) (counter : w.batchCounter.toNat = t.pending params.batchSize)
    {r : RecvResult} (packet : ¬ (r.rpc.payloadLen = 0xdead ∨ r.rpc.payloadLen = 0xbeef)) :
    (w.iterate params r).batchCounter.toNat =
      Traffic.pending params.batchSize { t with packets := t.packets + 1, fruitless := 0 } := by
  obtain ⟨full, open_⟩ := h.reached
  have room := h.room
  have next := h.next_counter
  rw [Worker.iterate_packet packet]
  unfold Traffic.pending at counter ⊢
  by_cases warm : t.packets < 1010
  · have none : t.packets + 1 - max t.beforeIdle 1010 = 0 := by omega
    have flushes : w.batchCounter + 1 ≥ w.nextBatchSize params := by
      by_contra partly
      have late := (open_ partly).2
      omega
    rw [if_pos flushes, none, Nat.zero_mod]
    rfl
  · have grown : t.packets + 1 - max t.beforeIdle 1010 = t.packets - max t.beforeIdle 1010 + 1 := by
      omega
    have size : w.nextBatchSize params = params.batchSize := if_neg (by omega)
    rw [grown]
    split
    · rename_i whole
      have reached := congrArg UInt32.toNat (full whole)
      rw [size, next] at reached
      exact ((SenseRing.succ_wrap positive (by omega)).1).symm
    · rename_i partly
      have space := (open_ partly).1
      rw [(SenseRing.succ_within (by omega)).1, ← counter]
      exact next

theorem Worker.counter_idle (params : ThreadParams) (w : Worker) {r : RecvResult}
    (idle : r.rpc.payloadLen = 0xbeef) :
    (w.iterate params r).batchCounter = 0 ∧ (w.iterate params r).tmpCount = w.tmpCount ∧
      (w.iterate params r).exited = w.exited := by
  rw [Worker.iterate_idle idle]
  exact ⟨rfl, rfl, rfl⟩

theorem Worker.count_packet (params : ThreadParams) (w : Worker) {r : RecvResult}
    (packet : ¬ (r.rpc.payloadLen = 0xdead ∨ r.rpc.payloadLen = 0xbeef)) :
    (w.iterate params r).tmpCount = w.tmpCount + 1 ∧ (w.iterate params r).exited = w.exited := by
  rw [Worker.iterate_packet packet]
  split <;> exact ⟨rfl, rfl⟩

theorem Worker.counter_done (params : ThreadParams) (w : Worker) {r : RecvResult}
    (done : r.rpc.payloadLen = 0xdead) :
    (w.iterate params r).batchCounter = w.batchCounter ∧ (w.iterate params r).exited = true := by
  rw [Worker.iterate_done done]
  exact ⟨rfl, rfl⟩

end Flow

structure Serving.Flowing (params : ThreadParams) (t : Traffic) (s : Serving) : Prop where
  batching : ∃ packets, s.worker.Batching params packets
  running : s.worker.exited = false
  count : s.count = firstCount + t.fruitless
  fruitless : t.fruitless < 500
  packets : s.worker.tmpCount = t.packets
  idle : t.beforeIdle ≤ t.packets
  counter : s.worker.batchCounter.toNat = t.pending params.batchSize

theorem Serving.start_flowing {params : ThreadParams} (positive : 1 ≤ params.batchSize.toNat) :
    (Serving.start params).Flowing params ⟨0, 0, 0⟩ where
  batching := ⟨[], Worker.start_batching positive⟩
  running := rfl
  count := rfl
  fruitless := by decide
  packets := rfl
  idle := Nat.le_refl 0
  counter := (Nat.zero_mod _).symm

section Exit

variable {params : ThreadParams} {t : Traffic} {s : Serving}

theorem Serving.Flowing.packet (h : s.Flowing params t) (positive : 1 ≤ params.batchSize.toNat)
    {p : Poll} (packet : p.retd.op = rmcIncomingSend) (running : p.clientDone = false)
    (found : ¬ p.Lost) : (s.step params p).Flowing params (t.poll p) := by
  obtain ⟨r, received, leftover⟩ : ∃ r, receivePoll s.count p = .returned r ∧
      r.rpc.payloadLen = p.unassigned.payloadLen :=
    ⟨_, receivePoll_packet s.count packet running, rfl⟩
  obtain ⟨labelled, _⟩ := receivePoll_returned received
  obtain ⟨packets, batching⟩ := h.batching
  have untagged : ¬ (r.rpc.payloadLen = 0xdead ∨ r.rpc.payloadLen = 0xbeef) := by
    rw [leftover]
    exact fun tag => found ⟨packet, Or.inr tag⟩
  have traffic : t.poll p = { t with packets := t.packets + 1, fruitless := 0 } := if_pos packet
  have counter := batching.counter_packet positive h.packets h.idle h.counter untagged
  obtain ⟨count, stays⟩ := Worker.count_packet params s.worker untagged
  rw [Serving.step_returned h.running received, traffic]
  constructor
  · exact ⟨_, batching.iterate positive labelled⟩
  · exact stays.trans h.running
  · rfl
  · exact Nat.zero_lt_succ _
  · rw [count, h.packets]
  · exact Nat.le_succ_of_le h.idle
  · exact counter

theorem Serving.Flowing.fruitless_poll (h : s.Flowing params t)
    (positive : 1 ≤ params.batchSize.toNat)
    {p : Poll} (other : p.retd.op ≠ rmcIncomingSend) (running : p.clientDone = false) :
    (s.step params p).Flowing params (t.poll p) := by
  have received := receivePoll_fruitless s.count other running
  have count := h.count
  have few := h.fruitless
  simp only [firstCount] at count
  by_cases last : t.fruitless + 1 = 500
  · -- the budget of the call is used up: an idle result
    rw [if_pos (by omega)] at received
    obtain ⟨labelled, _⟩ := receivePoll_returned received
    obtain ⟨packets, batching⟩ := h.batching
    obtain ⟨empty, same, stays⟩ := Worker.counter_idle params s.worker
      (r := ⟨{ p.unassigned with payloadLen := 0xbeef }, none⟩) rfl
    have traffic : t.poll p = { t with beforeIdle := t.packets, fruitless := 0 } := by
      rw [Traffic.poll, if_neg other, if_pos last]
    have none : t.packets - max t.packets 1010 = 0 := by omega
    rw [Serving.step_returned h.running received, traffic]
    constructor
    · exact ⟨_, batching.iterate positive labelled⟩
    · exact stays.trans h.running
    · rfl
    · exact Nat.zero_lt_succ _
    · exact same.trans h.packets
    · exact Nat.le_refl _
    · rw [empty, Traffic.pending, none, Nat.zero_mod]
      rfl
  · rw [if_neg (by omega)] at received
    have traffic : t.poll p = { t with fruitless := t.fruitless + 1 } := by
      rw [Traffic.poll, if_neg other, if_neg last]
    rw [Serving.step_polling h.running received, traffic]
    constructor
    · exact h.batching
    · exact h.running
    · simp only [firstCount]
      omega
    · simp only
      omega
    · exact h.packets
    · exact h.idle
    · exact h.counter

theorem Serving.Flowing.step (h : s.Flowing params t) (positive : 1 ≤ params.batchSize.toNat)
    {p : Poll} (found : ¬ p.Lost) (running : p.clientDone = false) :
    (s.step params p).Flowing params (t.poll p) := by
  by_cases packet : p.retd.op = rmcIncomingSend
  · exact h.packet positive packet running found
  · exact h.fruitless_poll positive packet running

theorem Serving.step_done {p : Poll} (running : s.worker.exited = false)
    (done : p.clientDone = true) :
    (s.step params p).worker.exited = true ∧
      (s.step params p).worker.batchCounter = s.worker.batchCounter := by
  obtain ⟨same, exits⟩ := Worker.counter_done params s.worker
    (r := ⟨{ p.unassigned with payloadLen := 0xdead }, none⟩) rfl
  rw [Serving.step_returned running (receivePoll_done s.count done)]
  exact ⟨exits, same⟩

theorem Serving.waits_before {p : Poll} (running : s.worker.exited = false)
    (stays : (s.step params p).worker.exited = false) : p.clientDone = false := by
  by_contra done
  rw [Bool.not_eq_false] at done
  rw [(Serving.step_done running done).1] at stays
  contradiction

theorem Serving.Flowing.run {polls : List Poll} (h : s.Flowing params t)
    (positive : 1 ≤ params.batchSize.toNat) (found : ∀ p ∈ polls, ¬ p.Lost)
    (running : (Schedule.run (Serving.step params) s polls).worker.exited = false) :
    (Schedule.run (Serving.step params) s polls).Flowing params (polls.foldl Traffic.poll t) := by
  induction polls generalizing s t with
  | nil => exact h
  | cons p rest ih =>
    have waits := Serving.waits_before h.running (Serving.running_before running)
    exact ih (h.step positive (found p List.mem_cons_self) waits)
      (fun q hq => found q (List.mem_cons_of_mem p hq)) running

end Exit

/-- A worker that leaves its loop at the last poll has answered every packet popped
exactly when no poll lost one and the packets fill their batches. -/
theorem all_serviced_iff (params : ThreadParams) (positive : 1 ≤ params.batchSize.toNat)
    (polls : List Poll) (last : Poll)
    (running : (Schedule.run (Serving.step params) (Serving.start params) polls).worker.exited =
      false)
    (exits : (Schedule.run (Serving.step params) (Serving.start params)
      (polls ++ [last])).worker.exited = true) :
    (Schedule.run (Serving.step params) (Serving.start params) (polls ++ [last])).Serviced ↔
      (∀ p ∈ polls ++ [last], ¬ p.Lost) ∧
        params.batchSize.toNat ∣ (traffic polls).packets - max (traffic polls).beforeIdle 1010 := by
  have start : (Serving.start params).Consistent params [] 0 :=
    ⟨Worker.start_batching positive, List.Sublist.refl _, rfl⟩
  obtain ⟨packets, before⟩ := start.run positive running
  have after := before.step positive running last
  rw [Schedule.run_append, Schedule.run_cons, Schedule.run_nil] at exits ⊢
  rw [after.serviced_iff]
  have none : 0 + polls.countP (fun p => p.Lost) + (if last.Lost then 1 else 0) = 0 ↔
      ∀ p ∈ polls ++ [last], ¬ p.Lost := by
    rw [Nat.zero_add, Nat.add_eq_zero_iff, List.countP_eq_zero, List.forall_mem_append,
      List.forall_mem_singleton]
    by_cases lost : last.Lost <;> simp [lost]
  rw [none]
  apply and_congr_right
  intro found
  have flowing := (Serving.start_flowing positive).run positive
    (fun p hp => found p (List.mem_append_left _ hp)) running
  have done : last.clientDone = true := by
    by_contra waits
    have next := flowing.step positive (found last (by simp)) (by simpa using waits)
    rw [next.running] at exits
    contradiction
  rw [(Serving.step_done running done).2, ← UInt32.toNat_inj, flowing.counter, UInt32.toNat_zero,
    Traffic.pending, ← Nat.dvd_iff_mod_eq_zero]
  rfl

theorem all_serviced_one_packet :
    (Schedule.run (Serving.step ⟨64, 4⟩) (Serving.start ⟨64, 4⟩)
      ([⟨⟨0x7F, rmcIncomingSend, 3, 0x2000⟩, false, default⟩] ++
        [⟨⟨0, rmcInval, 0, 0⟩, true, default⟩])).Serviced :=
  (all_serviced_iff ⟨64, 4⟩ (by decide) [⟨⟨0x7F, rmcIncomingSend, 3, 0x2000⟩, false, default⟩]
    ⟨⟨0, rmcInval, 0, 0⟩, true, default⟩ (by decide) (by decide)).mpr (by decide)

/-- The flag turns true after the poll that popped a packet: no reply is sent. -/
theorem last_packet_abandoned :
    let s := Schedule.run (Serving.step ⟨64, 4⟩) (Serving.start ⟨64, 4⟩)
      [⟨⟨0x7F, rmcIncomingSend, 3, 0x2000⟩, true, default⟩]
    s.worker.exited = true ∧ ¬ s.Serviced := by
  refine ⟨by decide, ?_⟩
  intro serviced
  exact absurd serviced.1.length_eq (by decide)

end SimpleNF
