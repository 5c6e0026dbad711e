import SimpleNF.Worker.Progress

/-! How long a packet waits in a partly filled batch, in polls of the completion queue.
A batch is flushed when it is full, or by the first receive call that polls 500 times
and finds nothing. -/
namespace SimpleNF

/-- What the pending packets still wait at most: the rest of the call in progress, and
500 polls for each further packet that leaves the batch open. -/
def Serving.wait (params : ThreadParams) (s : Serving) : Nat :=
  if s.worker.batchCounter = 0 then 0
  else 500 * (params.batchSize.toNat - s.worker.batchCounter.toNat) - (s.count - 1)

structure Serving.Open (params : ThreadParams) (s : Serving) : Prop where
  consistent : ∃ lost, s.Consistent params s.worker.received lost
  running : s.worker.exited = false
  begun : 1 ≤ s.count
  budget : s.count ≤ 500

section Waiting

variable {params : ThreadParams} {s : Serving} {p : Poll}

theorem Serving.start_open (positive : 1 ≤ params.batchSize.toNat) :
    (Serving.start params).Open params where
  consistent := ⟨0, Worker.start_batching positive, List.Sublist.refl _, rfl⟩
  running := rfl
  begun := Nat.le_refl 1
  budget := Nat.le_of_ble_eq_true rfl

theorem Serving.step_begun (running : s.worker.exited = false) : 1 ≤ (s.step params p).count := by
  cases received : receivePoll s.count p with
  | polling count =>
    rw [Serving.step_polling running received, (receivePoll_polling received).2.2.1]
    exact Nat.succ_pos _
  | returned r =>
    rw [Serving.step_returned running received]
    exact Nat.le_refl 1

theorem Serving.Open.step (h : s.Open params) (positive : 1 ≤ params.batchSize.toNat)
    (stays : (s.step params p).worker.exited = false) : (s.step params p).Open params := by
  obtain ⟨lost, consistent⟩ := h.consistent
  have next := consistent.step positive h.running p
  have same := next.received
  rw [← same] at next
  exact ⟨⟨_, next⟩, stays, Serving.step_begun h.running, Serving.step_count p h.running⟩

theorem Serving.step_answered (running : s.worker.exited = false) :
    s.worker.answered <+: (s.step params p).worker.answered := by
  cases received : receivePoll s.count p with
  | polling count =>
    rw [Serving.step_polling running received]
  | returned r =>
    rw [Serving.step_returned running received]
    simp only [Worker.answered]
    rcases s.worker.iterate_flushes params r with same | ⟨f, one⟩
    · rw [same]
    · rw [one, List.flatMap_append]
      exact List.prefix_append _ _

theorem Serving.run_answered {polls : List Poll}
    (running : (Schedule.run (Serving.step params) s polls).worker.exited = false) :
    s.worker.answered <+: (Schedule.run (Serving.step params) s polls).worker.answered := by
  induction polls generalizing s with
  | nil => exact List.prefix_refl _
  | cons p rest ih =>
    have here := Serving.running_before (s := s) running
    exact (Serving.step_answered here).trans (ih running)

theorem Serving.step_batch (running : s.worker.exited = false)
    (stays : (s.step params p).worker.exited = false) :
    (s.step params p).worker.batchCounter = 0 ∨
    ((s.step params p).worker.batchCounter = s.worker.batchCounter ∧
      (s.step params p).count = s.count + 1) ∨
    ((s.step params p).worker.batchCounter = s.worker.batchCounter + 1 ∧
      (s.step params p).count = 1) := by
  cases received : receivePoll s.count p with
  | polling count =>
    rw [Serving.step_polling running received]
    exact Or.inr (Or.inl ⟨rfl, (receivePoll_polling received).2.2.1⟩)
  | returned r =>
    rw [Serving.step_returned running received] at stays ⊢
    by_cases done : r.rpc.payloadLen = 0xdead
    · rw [Worker.iterate_done done] at stays
      contradiction
    · by_cases idle : r.rpc.payloadLen = 0xbeef
      · exact Or.inl (Worker.counter_idle params s.worker idle).1
      · dsimp only
        rw [Worker.iterate_packet (not_or.mpr ⟨done, idle⟩)]
        dsimp only
        split
        · exact Or.inl rfl
        · exact Or.inr (Or.inr ⟨rfl, rfl⟩)

theorem Serving.Open.room (h : s.Open params) :
    s.worker.batchCounter.toNat < params.batchSize.toNat := by
  obtain ⟨lost, consistent⟩ := h.consistent
  exact consistent.batching.room

/-- Every poll brings the flush of an open batch nearer. -/
theorem Serving.Open.step_wait (h : s.Open params) (next : (s.step params p).Open params)
    (pending : s.worker.batchCounter ≠ 0) : (s.step params p).wait params + 1 ≤ s.wait params := by
  have room := h.room
  have room' := next.room
  have begun := h.begun
  have budget := h.budget
  have budget' := next.budget
  simp only [Serving.wait, if_neg pending]
  rcases Serving.step_batch h.running next.running with flushed | ⟨same, count⟩ | ⟨more, count⟩
  · rw [if_pos flushed]
    omega
  · rw [same, if_neg pending, count]
    omega
  · have counter : (s.worker.batchCounter + 1).toNat = s.worker.batchCounter.toNat + 1 := by
      obtain ⟨lost, consistent⟩ := h.consistent
      exact consistent.batching.next_counter
    rw [more, counter] at room'
    split
    · omega
    · rw [more, counter, count]
      omega

theorem Serving.Open.waits_out (h : s.Open params) (positive : 1 ≤ params.batchSize.toNat)
    {polls : List Poll}
    (running : (Schedule.run (Serving.step params) s polls).worker.exited = false)
    (enough : s.wait params ≤ polls.length) {ps : List Packet} (held : ps <+: s.worker.received) :
    ps <+: (Schedule.run (Serving.step params) s polls).worker.answered := by
  induction polls generalizing s with
  | nil =>
    have empty : s.worker.batchCounter = 0 := by
      by_contra pending
      have room := h.room
      have budget := h.budget
      simp only [Serving.wait, if_neg pending, List.length_nil] at enough
      omega
    rw [Worker.received_between empty] at held
    exact held
  | cons p rest ih =>
    by_cases empty : s.worker.batchCounter = 0
    · rw [Worker.received_between empty] at held
      exact held.trans (Serving.run_answered running)
    · have next := h.step positive (Serving.running_before running)
      have less := h.step_wait next empty
      rw [List.length_cons] at enough
      obtain ⟨lost, consistent⟩ := h.consistent
      have received := (consistent.step positive h.running p).received
      apply ih next running (by omega)
      rw [received]
      exact held.trans (List.prefix_append _ _)

theorem Serving.Open.run (h : s.Open params) (positive : 1 ≤ params.batchSize.toNat)
    {polls : List Poll}
    (running : (Schedule.run (Serving.step params) s polls).worker.exited = false) :
    (Schedule.run (Serving.step params) s polls).Open params := by
  induction polls generalizing s with
  | nil => exact h
  | cons p rest ih => exact ih (h.step positive (Serving.running_before running)) running

theorem Serving.Open.wait_le (h : s.Open params) :
    s.wait params ≤ 500 * (params.batchSize.toNat - 1) := by
  have room := h.room
  unfold Serving.wait
  split
  · exact Nat.zero_le _
  · rename_i pending
    have some : s.worker.batchCounter.toNat ≠ 0 := fun none => pending (UInt32.toNat_inj.mp none)
    omega

end Waiting

def foundPoll : Poll := ⟨⟨0x7F, rmcIncomingSend, 0, 0⟩, false, default⟩

def emptyPoll : Poll := ⟨⟨1, rmcInval, 0, 0⟩, false, default⟩

/-- Packets that come as late as they can without an idle result in between. -/
def slowPackets (k : Nat) : List Poll :=
  (List.replicate k (List.replicate 499 emptyPoll ++ [foundPoll])).flatten ++
    List.replicate 499 emptyPoll

section Slow

variable {params : ThreadParams} {t : Traffic} {s : Serving}

theorem traffic_found (k : Nat) (fresh : t.fruitless = 0) :
    (List.replicate k foundPoll).foldl Traffic.poll t = { t with packets := t.packets + k } := by
  induction k generalizing t with
  | zero => rfl
  | succ k ih =>
    have one : t.poll foundPoll = { t with packets := t.packets + 1 } := by
      simp [Traffic.poll, foundPoll, fresh]
    have later := ih (t := { t with packets := t.packets + 1 }) fresh
    rw [List.replicate_succ, List.foldl_cons, one, later, Nat.add_assoc, Nat.add_comm 1]

theorem traffic_empty (k : Nat) (few : t.fruitless + k < 500) :
    (List.replicate k emptyPoll).foldl Traffic.poll t =
      { t with fruitless := t.fruitless + k } := by
  induction k generalizing t with
  | zero => rfl
  | succ k ih =>
    have one : t.poll emptyPoll = { t with fruitless := t.fruitless + 1 } := by
      rw [Traffic.poll, if_neg (by decide), if_neg (by omega)]
    have later := ih (t := { t with fruitless := t.fruitless + 1 }) (by simp only; omega)
    rw [List.replicate_succ, List.foldl_cons, one, later, Nat.add_assoc, Nat.add_comm 1]

theorem traffic_slow (k : Nat) (fresh : t.fruitless = 0) :
    (slowPackets k).foldl Traffic.poll t =
      { t with packets := t.packets + k, fruitless := 499 } := by
  have late : (List.replicate k (List.replicate 499 emptyPoll ++ [foundPoll])).flatten.foldl
      Traffic.poll t = { t with packets := t.packets + k } := by
    induction k generalizing t with
    | zero => rfl
    | succ k ih =>
      have one : (List.replicate 499 emptyPoll ++ [foundPoll]).foldl Traffic.poll t =
          { t with packets := t.packets + 1 } := by
        rw [List.foldl_append, traffic_empty 499 (by omega)]
        simp only [List.foldl_cons, List.foldl_nil, Traffic.poll, foundPoll, if_true, fresh]
      have later := ih (t := { t with packets := t.packets + 1 }) fresh
      rw [List.replicate_succ, List.flatten_cons, List.foldl_append, one, later, Nat.add_assoc,
        Nat.add_comm 1]
  rw [slowPackets, List.foldl_append, late, traffic_empty 499 (by simp only; omega), fresh]

theorem slowPackets_polls (k : Nat) : ∀ p ∈ slowPackets k, p = foundPoll ∨ p = emptyPoll := by
  intro p hp
  rcases List.mem_append.mp hp with late | last
  · obtain ⟨l, hl, inside⟩ := List.mem_flatten.mp late
    rw [List.eq_of_mem_replicate hl] at inside
    rcases List.mem_append.mp inside with empty | found
    · exact Or.inr (List.eq_of_mem_replicate empty)
    · exact Or.inl (List.mem_singleton.mp found)
  · exact Or.inr (List.eq_of_mem_replicate last)

theorem length_slowPackets (k : Nat) : (slowPackets k).length = 500 * k + 499 := by
  simp only [slowPackets, List.length_append, List.length_flatten, List.map_replicate,
    List.length_replicate, List.length_singleton, List.sum_replicate, smul_eq_mul]
  omega

theorem Serving.Flowing.run_slow (h : s.Flowing params t) (positive : 1 ≤ params.batchSize.toNat)
    {polls : List Poll} (slow : ∀ p ∈ polls, p = foundPoll ∨ p = emptyPoll) :
    (Schedule.run (Serving.step params) s polls).Flowing params (polls.foldl Traffic.poll t) := by
  induction polls generalizing s t with
  | nil => exact h
  | cons p rest ih =>
    apply ih _ (fun q hq => slow q (List.mem_cons_of_mem p hq))
    rcases slow p List.mem_cons_self with rfl | rfl
    · exact h.step positive (by decide) rfl
    · exact h.step positive (by decide) rfl

/-- One packet after the warm-up, and then k that come as late as they can. -/
theorem Serving.first_flowing (positive : 1 ≤ params.batchSize.toNat) :
    (Schedule.run (Serving.step params) (Serving.start params)
      (List.replicate 1011 foundPoll)).Flowing params ⟨1011, 0, 0⟩ := by
  have slow : ∀ p ∈ List.replicate 1011 foundPoll, p = foundPoll ∨ p = emptyPoll :=
    fun p hp => Or.inl (List.eq_of_mem_replicate hp)
  have flowing := (Serving.start_flowing positive).run_slow positive slow
  rwa [traffic_found 1011 rfl] at flowing

theorem Serving.slow_flowing (positive : 1 ≤ params.batchSize.toNat) (k : Nat) :
    (Schedule.run (Serving.step params) (Schedule.run (Serving.step params) (Serving.start params)
      (List.replicate 1011 foundPoll)) (slowPackets k)).Flowing params ⟨1011 + k, 0, 499⟩ := by
  have flowing := (Serving.first_flowing positive).run_slow positive (slowPackets_polls k)
  rwa [traffic_slow _ rfl] at flowing

theorem Serving.Flowing.lengths (h : s.Flowing params t) :
    s.worker.received.length = t.packets ∧
      s.worker.answered.length + t.pending params.batchSize = t.packets := by
  obtain ⟨packets, batching⟩ := h.batching
  have received : s.worker.received = packets := batching.accounted.packets
  have count := batching.accounted.count
  have split := s.worker.length_received
  rw [h.packets] at count
  rw [h.counter] at split
  rw [received] at split ⊢
  omega

end Slow

/-- Whatever a worker that stays in its loop holds at some point, and however packets
come after it, is answered within n more polls if and only if n is at least 500 for each
packet of a batch but the first. -/
theorem batch_wait_is (params : ThreadParams) (positive : 1 ≤ params.batchSize.toNat) (n : Nat) :
    (∀ before after : List Poll,
      let s := Schedule.run (Serving.step params) (Serving.start params) before
      let t := Schedule.run (Serving.step params) s after
      t.worker.exited = false → n ≤ after.length → s.worker.received <+: t.worker.answered) ↔
    500 * (params.batchSize.toNat - 1) ≤ n := by
  constructor
  · intro answers
    by_contra short
    -- one packet after the warm-up, and then all but the last that its batch still takes
    have h := Serving.first_flowing positive
    have h' := Serving.slow_flowing positive (params.batchSize.toNat - 2)
    have long : n ≤ (slowPackets (params.batchSize.toNat - 2)).length := by
      rw [length_slowPackets]
      omega
    have among := (answers _ _ h'.running long).length_le
    obtain ⟨held, _⟩ := h.lengths
    obtain ⟨_, answered⟩ := h'.lengths
    have last : 1011 + (params.batchSize.toNat - 2) - max 0 1010 = params.batchSize.toNat - 1 := by
      omega
    simp only [Traffic.pending, last] at answered
    rw [Nat.mod_eq_of_lt (by omega)] at answered
    simp only at held
    omega
  · intro enough before after s t running long
    have opened : s.Open params :=
      (Serving.start_open positive).run positive (Serving.running_before running)
    exact opened.waits_out positive running (Nat.le_trans opened.wait_le (Nat.le_trans enough long))
      (List.prefix_refl _)

/-- A worker with batches of four that holds the first packet after the warm-up, and
what becomes of it with k more. -/
def Serving.holdsOne : Serving :=
  Schedule.run (Serving.step ⟨64, 4⟩) (Serving.start ⟨64, 4⟩) (List.replicate 1011 foundPoll)

def Serving.withMore (k : Nat) : Serving :=
  Schedule.run (Serving.step ⟨64, 4⟩) Serving.holdsOne (slowPackets k)

/-- After 1499 polls, with two more packets, it still waits. The third ends its wait. -/
theorem slow_packets_answered :
    Serving.holdsOne.worker.received.length = 1011 ∧ (slowPackets 2).length = 1499 ∧
      (Serving.withMore 2).worker.answered.length = 1010 ∧
      Serving.holdsOne.worker.received <+: (Serving.withMore 3).worker.answered := by
  have positive : 1 ≤ (ThreadParams.mk 64 4).batchSize.toNat := by decide
  have first := (Serving.first_flowing positive).lengths.1
  have waiting := (Serving.slow_flowing positive 2).lengths.2
  have last := Serving.slow_flowing positive 3
  have three : (Traffic.mk (1011 + 2) 0 499).pending (ThreadParams.mk 64 4).batchSize = 3 := by
    decide
  have answers := (batch_wait_is ⟨64, 4⟩ positive 1500).mpr (by decide)
    (List.replicate 1011 foundPoll) (slowPackets 3) last.running
    (by rw [length_slowPackets]; decide)
  rw [three] at waiting
  rw [Serving.withMore, Serving.withMore, Serving.holdsOne]
  exact ⟨first, length_slowPackets 2, Nat.add_right_cancel waiting, answers⟩

end SimpleNF
